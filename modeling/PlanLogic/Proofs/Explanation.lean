import Mathlib.Control.Monad.Basic
import PlanLogic.Proofs.Trace

/-!
# PlanLogic.Proofs.Explanation

Why a positive formula does not hold. A formula built from predicates by junctions and quantifiers
alone is false because of predicates that are false, and the ones that were looked up before the run
stopped are enough: as long as they stay false, the formula does not become true, whatever else is
believed.

* `Formula.Positive`: no negation and no conditional at any position.
* `Traced.exists_differing`: if a junction has one value in one run and the other value in another,
  then so has one of its parts, and the first run has visited that part.
* `ne_true_of_denied`: the induction. It follows a part on which the two runs differ, down to a
  predicate that was looked up and found false.
* `ne_true_of_failedQueries`: the same for the failed queries that a run reports.
-/

namespace PlanLogic

namespace Formula

def Positive (f : Formula) : Prop :=
  ∀ n ∈ f.positions,
    n.node ≠ .operator .not ∧ n.node ≠ .operator .imply ∧ n.node ≠ .operator .when

instance (f : Formula) : Decidable f.Positive :=
  inferInstanceAs (Decidable (∀ n ∈ f.positions,
    n.node ≠ .operator .not ∧ n.node ≠ .operator .imply ∧ n.node ≠ .operator .when))

/-- The copies of a positive body are positive: substitution changes no operator. -/
theorem Positive.of_component {w : World} {f a : Formula} (h : f.Positive)
    (ha : a ∈ components w f) : a.Positive := by
  intro n hn
  obtain ⟨m, hm, hword⟩ := exists_position_of_component ha hn
  rw [← node_congr hword]
  exact h m hm

theorem Positive.ne_negation {f body : Formula} (h : f.Positive) :
    f.shape ≠ .ok (.negation body) := by
  intro hs
  have hroot := h f f.mem_positions_self
  rw [shape_eq_negation_iff.1 hs] at hroot
  exact hroot.1 (node_apply _ _)

theorem Positive.ne_conditional {f premise conclusion : Formula} (h : f.Positive) :
    f.shape ≠ .ok (.conditional premise conclusion) := by
  intro hs
  have hroot := h f f.mem_positions_self
  rcases shape_eq_conditional_iff.1 hs with rfl | rfl
  · exact hroot.2.1 (node_apply _ _)
  · exact hroot.2.2 (node_apply _ _)

end Formula

/-! ## Runs through the parts of a junction -/

namespace Traced

variable {ε α : Type} {j : Junction} {judge judge' : α → Traced ε Bool}

/-- What a value of a junction says about the run of its first part and about the rest. -/
theorem settle_cons_eq_ok {a : α} {as : List α} {b : Bool}
    (h : (settle j judge (a :: as)).outcome = .ok b) :
    ((judge a).outcome = .ok j.decisive ∧ b = j.decisive ∧
        (settle j judge (a :: as)).events = (judge a).events) ∨
      ((judge a).outcome = .ok (!j.decisive) ∧ (settle j judge as).outcome = .ok b ∧
        (settle j judge (a :: as)).events = (judge a).events ++ (settle j judge as).events) := by
  simp only [settle] at h ⊢
  generalize judge a = r at h ⊢
  obtain ⟨es, o⟩ := r
  cases o with
  | error d => cases h
  | ok c =>
    rw [bind_ok] at h ⊢
    by_cases hc : c = j.decisive
    · rw [if_pos hc] at h ⊢
      cases h
      exact .inl ⟨by rw [hc], hc, List.append_nil _⟩
    · rw [if_neg hc] at h ⊢
      have hopen : c = !j.decisive := Bool.eq_not.2 hc
      exact .inr ⟨by rw [hopen], h, rfl⟩

theorem exists_differing {as : List α} {b : Bool}
    (h : (settle j judge as).outcome = .ok b) (h' : (settle j judge' as).outcome = .ok (!b)) :
    ∃ a ∈ as, (judge a).outcome = .ok b ∧ (judge a).events ⊆ (settle j judge as).events ∧
      (judge' a).outcome = .ok (!b) := by
  induction as with
  | nil =>
    have hsame : (.ok b : Except Defect Bool) = .ok (!b) := h.symm.trans h'
    simp at hsame
  | cons a as ih =>
    rcases settle_cons_eq_ok h with ⟨ha, hb, hes⟩ | ⟨ha, hrest, hes⟩ <;>
      rcases settle_cons_eq_ok h' with ⟨ha', hb', -⟩ | ⟨ha', hrest', -⟩
    · simp [hb] at hb'
    · exact ⟨a, .head _, by rw [ha, hb], by rw [hes]; exact List.Subset.refl _, by rw [ha', hb]⟩
    · have hb : b = !j.decisive := by simp [← hb']
      refine ⟨a, .head _, by rw [ha, hb], ?_, by rw [ha', hb']⟩
      rw [hes]
      exact List.subset_append_left _ _
    · obtain ⟨c, hc, hfound, hsub, hother⟩ := ih hrest hrest'
      refine ⟨c, .tail _ hc, hfound, ?_, hother⟩
      rw [hes]
      exact List.Subset.trans hsub (List.subset_append_right _ _)

end Traced

/-! ## Failed queries -/

/-- No predicate that was found false is answered with true. -/
def Denied (answer : Formula → Bool) (es : List Event) : Prop :=
  ∀ q : Formula, .judged ⟨q, false⟩ ∈ es → q.isPredicate = true → answer q = false

theorem ne_true_of_denied {w : World} {answer : Formula → Bool} (f : Formula) :
    f.Positive → (evaluate w f).outcome = .ok false → Denied answer (evaluate w f).events →
      (evaluate { w with holds := answer } f).outcome ≠ .ok true := by
  induction f using induct_components w with
  | step f ih =>
    intro hf hfalse hdenied htrue
    -- The induction hypothesis, for a component that the first run has visited: what that run
    -- found false below it is on record above, so it is denied.
    have hpart : ∀ a ∈ components w f, (evaluate w a).outcome = .ok false →
        (evaluate w a).events ⊆ (evaluateParts w (evaluate w) f).events →
        (evaluate { w with holds := answer } a).outcome ≠ .ok true := by
      intro a ha hvalue hsub
      refine ih a ha (hf.of_component ha) hvalue fun q hq => hdenied q ?_
      exact mem_events_of_parts (hsub hq)
    cases hs : f.shape with
    | error d =>
      rw [outcome_evaluate_eq_parts, evaluateParts, hs] at hfalse
      cases hfalse
    | ok s =>
      cases s with
      | atom =>
        rw [evaluate_of_atom hs] at hfalse htrue hdenied
        have hq : .judged ⟨f, false⟩ ∈ [Event.judged ⟨f, w.holds f⟩] := by
          rw [Except.ok.inj hfalse]
          exact .head _
        have hanswer := hdenied f hq (Formula.shape_eq_atom_iff.1 hs)
        simp [hanswer] at htrue
      | negation body => exact hf.ne_negation hs
      | conditional premise conclusion => exact hf.ne_conditional hs
      | junction j parts =>
        rw [outcome_evaluate_eq_parts] at hfalse htrue
        simp only [evaluateParts, components, hs] at hfalse htrue hpart
        obtain ⟨a, ha, hvalue, hsub, hother⟩ := Traced.exists_differing hfalse htrue
        exact hpart a ha hvalue hsub hother
      | quantified j declaration body =>
        rw [outcome_evaluate_eq_parts] at hfalse htrue
        simp only [evaluateParts, components, hs] at hfalse htrue hpart
        cases he : Expansion.ofBody j.quantifier declaration body w.objects with
        | error d =>
          rw [he] at hfalse
          cases hfalse
        | ok e =>
          rw [he] at hfalse htrue hpart
          obtain ⟨a, ha, hvalue, hsub, hother⟩ := Traced.exists_differing hfalse htrue
          have hsub' := List.Subset.trans hsub (List.subset_append_right [.expanded e] _)
          exact hpart a ha hvalue hsub' hother

theorem mem_failedQueries {vs : List Verdict} {q : Formula} :
    q ∈ failedQueries vs ↔ ⟨q, false⟩ ∈ vs ∧ q.isPredicate = true := by
  simp only [failedQueries, List.mem_map, List.mem_filter, Bool.and_eq_true, Bool.not_eq_true']
  constructor
  · rintro ⟨⟨f, b⟩, ⟨hmem, rfl, hp⟩, rfl⟩
    exact ⟨hmem, hp⟩
  · rintro ⟨hmem, hp⟩
    exact ⟨_, ⟨hmem, rfl, hp⟩, rfl⟩

/-- A positive formula that was found false is not true under any answers that deny the queries that
failed in the run. -/
theorem ne_true_of_failedQueries {w : World} {f : Formula} (hf : f.Positive)
    (h : (evaluate w f).outcome = .ok false) {answer : Formula → Bool}
    (hanswer : ∀ q ∈ failedQueries (evaluate w f).verdicts, answer q = false) :
    (evaluate { w with holds := answer } f).outcome ≠ .ok true := by
  refine ne_true_of_denied f hf h fun q hq hp => ?_
  have hmem : ⟨q, false⟩ ∈ (evaluate w f).verdicts := Run.mem_verdicts.2 hq
  exact hanswer q (mem_failedQueries.2 ⟨hmem, hp⟩)

/-- Bob eats neither the soup nor a meal that is fresh. As long as the failed queries stay false,
other facts do not make the formula true: here Ann's copy now comes to the nameless formula. -/
theorem ne_true_of_failedQueries_meals :
    let eats := fun x m => Formula.predicate "eats" [x, m]
    let fresh := fun m => Formula.predicate "fresh" [m]
    let f := Formula.forAll "?x - person" (.or [eats "?x" "soup",
      .forSome "?m - meal" (.and [fresh "?m", eats "?x" "?m", .leaf ""])])
    let objects : List Object :=
      [⟨"ann", "person"⟩, ⟨"soup", "meal"⟩, ⟨"bob", "person"⟩, ⟨"bread", "meal"⟩]
    let w := World.of .list objects [⟨eats "ann" "soup"⟩, ⟨fresh "bread"⟩]
    let w' := World.of .list objects [⟨eats "ann" "bread"⟩, ⟨fresh "bread"⟩, ⟨eats "bob" "cake"⟩]
    f.Positive ∧ (evaluate w f).outcome = .ok false ∧
      failedQueries (evaluate w f).verdicts = [eats "bob" "soup", fresh "soup", eats "bob" "bread"] ∧
      (∀ q ∈ failedQueries (evaluate w f).verdicts, w'.holds q = false) ∧
      (evaluate w' f).outcome ≠ .ok true := by
  intro eats fresh f objects w w'
  have hf : f.Positive := by decide +kernel
  have hfalse : (evaluate w f).outcome = .ok false := by decide +kernel
  have hfailed : failedQueries (evaluate w f).verdicts =
      [eats "bob" "soup", fresh "soup", eats "bob" "bread"] := by decide +kernel
  have hanswer : ∀ q ∈ failedQueries (evaluate w f).verdicts, w'.holds q = false := by
    rw [hfailed]
    decide +kernel
  exact ⟨hf, hfalse, hfailed, hanswer, ne_true_of_failedQueries hf hfalse hanswer⟩

end PlanLogic
