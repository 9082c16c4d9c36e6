import Mathlib.Control.Monad.Basic
import PlanLogic.Proofs.Trace

/-!
# PlanLogic.Proofs.Certificate

What a run depends on. The facts enter a run only through the predicates that are looked up, and
each of these is on record with the answer. So the record certifies the run: whatever else is
believed, the same answers lead to the same branches, expansions and defects.

* `Traced.ForcedBy`: one run is forced to be another by a property of the events of the other.
* `forcedBy_evaluate`: a run is forced by the answers on its record.
* `evaluate_eq_of_words`: no answer is on record but for the word of a predicate of the formula.
* `evaluate_eq_of_answers`: both together, and which words never matter.
-/

namespace PlanLogic

namespace Traced

variable {ε α β : Type} {A : ε → Prop}

/-- `r'` is `r` if all events of `r` satisfy `A`. Nothing is asked of the events of `r'`. -/
def ForcedBy (A : ε → Prop) (r' r : Traced ε α) : Prop := (∀ e ∈ r.events, A e) → r' = r

namespace ForcedBy

theorem refl (r : Traced ε α) : ForcedBy A r r := fun _ => rfl

theorem bind {r r' : Traced ε α} {next next' : α → Traced ε β} (hr : ForcedBy A r' r)
    (hn : ∀ a, ForcedBy A (next' a) (next a)) : ForcedBy A (r'.bind next') (r.bind next) := by
  intro h
  obtain ⟨es, o⟩ := r
  cases o with
  | error d =>
    rw [hr h]
    rfl
  | ok a =>
    have hfirst : r' = ⟨es, .ok a⟩ := hr fun e he => h e (List.mem_append_left _ he)
    have hnext : next' a = next a := hn a fun e he => h e (List.mem_append_right _ he)
    rw [hfirst, bind_ok, bind_ok, hnext]

theorem map {r r' : Traced ε α} (g : α → β) (hr : ForcedBy A r' r) :
    ForcedBy A (r'.map g) (r.map g) :=
  hr.bind fun _ => refl _

theorem conclude {r r' : Traced ε Bool} (note : Bool → ε) (hr : ForcedBy A r' r) :
    ForcedBy A (r'.conclude note) (r.conclude note) :=
  hr.bind fun _ => refl _

theorem after {r r' : Traced ε α} (es : List ε) (hr : ForcedBy A r' r) :
    ForcedBy A (r'.after es) (r.after es) := by
  intro h
  rw [hr fun e he => h e (List.mem_append_right _ he)]

theorem settle {j : Junction} {judge judge' : α → Traced ε Bool} {as : List α}
    (h : ∀ a ∈ as, ForcedBy A (judge' a) (judge a)) :
    ForcedBy A (Traced.settle j judge' as) (Traced.settle j judge as) := by
  induction as with
  | nil => exact refl _
  | cons a as ih =>
    have hrest := ih fun b hb => h b (.tail _ hb)
    refine (h a (.head _)).bind fun b => ?_
    split
    · exact refl _
    · exact hrest

end ForcedBy

end Traced

/-- On a predicate that was looked up, `answer` says what was found. -/
def Event.AnsweredBy (answer : Formula → Bool) : Event → Prop
  | .expanded _ => True
  | .judged v => v.formula.isPredicate = true → answer v.formula = v.holds

theorem forcedBy_evaluate (w : World) (answer : Formula → Bool) (f : Formula) :
    Traced.ForcedBy (Event.AnsweredBy answer) (evaluate { w with holds := answer } f)
      (evaluate w f) := by
  induction f using induct_components w with
  | step f ih =>
    by_cases hatom : f.shape = .ok .atom
    · -- Only here are the facts consulted, and the answer is the next event.
      intro h
      simp only [evaluate_of_atom hatom] at h ⊢
      have hanswer : answer f = w.holds f := h _ (.head _) (Formula.shape_eq_atom_iff.1 hatom)
      rw [hanswer]
    · rw [evaluate_eq, evaluate_eq]
      refine Traced.ForcedBy.conclude _ ?_
      unfold components at ih
      unfold evaluateParts
      cases hs : f.shape with
      | error d => exact .refl _
      | ok s =>
        rw [hs] at ih
        cases s with
        | atom => exact absurd hs hatom
        | negation body => exact (ih body (.head _)).map _
        | junction j parts => exact .settle ih
        | conditional premise conclusion =>
          exact (ih premise (.head _)).bind fun p => (ih conclusion (.tail _ (.head _))).map _
        | quantified j declaration body =>
          simp only at ih ⊢
          cases he : Expansion.ofBody j.quantifier declaration body w.objects with
          | error d => exact .refl _
          | ok e =>
            rw [he] at ih
            exact Traced.ForcedBy.after _ (.settle ih)

/-! ## Words that matter -/

/-- The words of the predicates at positions of `f`. -/
def Formula.predicateWords (f : Formula) : List String :=
  (f.positions.filter Formula.isPredicate).map Formula.word

theorem Formula.isPredicate_iff {f : Formula} :
    f.isPredicate = true ↔ f.word ≠ "" ∧ ∀ op : Operator, op.word ≠ f.word := by
  unfold isPredicate
  cases h : f.node with
  | empty => simp [node_eq_empty_iff.1 h]
  | operator op =>
    have hop := node_eq_operator_iff.1 h
    simpa using fun _ => ⟨op, hop.symm⟩
  | predicate name =>
    have hempty : f.word ≠ "" := by
      intro e
      rw [node_eq_empty_iff.2 e] at h
      cases h
    have hreserved : ∀ op : Operator, op.word ≠ f.word := by
      intro op e
      rw [node_eq_operator_iff.2 e.symm] at h
      cases h
    simp [hempty, hreserved]

theorem Formula.isPredicate_congr {f g : Formula} (h : f.word = g.word) :
    f.isPredicate = g.isPredicate := by
  rw [isPredicate, isPredicate, node_congr h]

theorem word_mem_predicateWords {w : World} {f : Formula} {v : Verdict}
    (hv : .judged v ∈ (evaluate w f).events) (hp : v.formula.isPredicate = true) :
    v.formula.word ∈ f.predicateWords := by
  obtain ⟨n, hn, hword⟩ := exists_position_of_judged f hv
  have hnp : n.isPredicate = true := by rwa [Formula.isPredicate_congr hword]
  exact List.mem_map.2 ⟨n, List.mem_filter.2 ⟨hn, hnp⟩, hword⟩

theorem holds_of_judged {w : World} {f : Formula} {v : Verdict}
    (hv : .judged v ∈ (evaluate w f).events) (hp : v.formula.isPredicate = true) :
    w.holds v.formula = v.holds := by
  have h := outcome_of_judged hv
  rw [evaluate_of_atom (Formula.shape_eq_atom_iff.2 hp)] at h
  exact Except.ok.inj h

theorem evaluate_eq_of_words {w : World} {f : Formula} {answer : Formula → Bool}
    (h : ∀ q : Formula, q.word ∈ f.predicateWords → answer q = w.holds q) :
    evaluate { w with holds := answer } f = evaluate w f := by
  apply forcedBy_evaluate w answer f
  intro e he
  cases e with
  | expanded e => trivial
  | judged v =>
    intro hp
    rw [h v.formula (word_mem_predicateWords he hp), holds_of_judged he hp]

/-- Answers that agree with the predicates on record give the same run: the same value or defect,
the same verdicts and the same expansions. So do lists of facts that differ only in facts whose
words head no predicate of the formula, such as those headed by reserved words or by none. -/
theorem evaluate_eq_of_answers (f : Formula) :
    (∀ (w : World) (answer : Formula → Bool),
      (∀ v ∈ (evaluate w f).verdicts, v.formula.isPredicate = true →
        answer v.formula = v.holds) →
      evaluate { w with holds := answer } f = evaluate w f) ∧
    (∀ (c c' : Container) (objects : List Object) (facts facts' : List Fact),
      (∀ fact : Fact, fact.formula.word ∈ f.predicateWords → (fact ∈ facts ↔ fact ∈ facts')) →
      evaluate (.of c objects facts) f = evaluate (.of c' objects facts') f) ∧
    (∀ word, (word = "" ∨ ∃ op : Operator, op.word = word) → word ∉ f.predicateWords) := by
  refine ⟨?_, ?_, ?_⟩
  · intro w answer h
    apply forcedBy_evaluate w answer f
    intro e he
    cases e with
    | expanded e => trivial
    | judged v => exact h v (Run.mem_verdicts.2 he)
  · intro c c' objects facts facts' h
    have hworld : World.of c objects facts =
        { World.of c' objects facts' with holds := (World.of c objects facts).holds } := by
      cases c <;> cases c' <;> rfl
    rw [hworld]
    refine evaluate_eq_of_words fun q hq => ?_
    rw [Bool.eq_iff_iff, World.holds_of_iff, World.holds_of_iff]
    exact h ⟨q⟩ hq
  · intro word hword hmem
    obtain ⟨n, hn, rfl⟩ := List.mem_map.1 hmem
    obtain ⟨hempty, hreserved⟩ := Formula.isPredicate_iff.1 (List.mem_filter.1 hn).2
    rcases hword with hword | ⟨op, hword⟩
    · exact hempty hword
    · exact hreserved op hword

/-- Bob is not asked about once Ann has settled the matter, so `elsewhere` may say anything of him;
and facts that deny, that have no name or that are about something else may come and go. -/
theorem evaluate_eq_of_answers_meals :
    let hungry := fun x => Formula.predicate "hungry" [x]
    let full := fun x => Formula.predicate "full" [x]
    let f := Formula.forAll "?x - person" (.imply (hungry "?x") (.not (full "?x")))
    let objects : List Object := [⟨"ann", "person"⟩, ⟨"bob", "person"⟩]
    let facts : List Fact := [⟨hungry "ann"⟩, ⟨full "ann"⟩]
    let elsewhere : List Fact := [⟨full "ann"⟩, ⟨hungry "bob"⟩, ⟨hungry "ann"⟩]
    let facts' : List Fact := [⟨.not (full "ann")⟩, ⟨.leaf ""⟩, ⟨.leaf "rain"⟩] ++ facts
    let w := World.of .list objects facts
    let answer := (World.of .treeSet objects elsewhere).holds
    (∀ v ∈ (evaluate w f).verdicts, v.formula.isPredicate = true → answer v.formula = v.holds) ∧
      evaluate { w with holds := answer } f = evaluate w f ∧
      (∀ fact : Fact, fact.formula.word ∈ f.predicateWords → (fact ∈ facts ↔ fact ∈ facts')) ∧
      evaluate (.of .list objects facts) f = evaluate (.of .hashSet objects facts') f ∧
      "not" ∉ f.predicateWords := by
  intro hungry full f objects facts elsewhere facts' w answer
  have hrecord : ∀ v ∈ (evaluate w f).verdicts, v.formula.isPredicate = true →
      answer v.formula = v.holds := by decide +kernel
  have hwords : f.predicateWords = ["hungry", "full"] := by decide +kernel
  have hfacts : ∀ fact : Fact, fact.formula.word ∈ f.predicateWords →
      (fact ∈ facts ↔ fact ∈ facts') := by
    intro fact hfact
    rw [hwords] at hfact
    constructor
    · exact List.mem_append_right _
    · intro hmem
      rcases List.mem_append.1 hmem with hother | hmem
      · have hforeign : ∀ other ∈ ([⟨.not (full "ann")⟩, ⟨.leaf ""⟩, ⟨.leaf "rain"⟩] : List Fact),
            other.formula.word ∉ ["hungry", "full"] := by decide +kernel
        exact absurd hfact (hforeign fact hother)
      · exact hmem
  obtain ⟨hanswers, hlists, hreserved⟩ := evaluate_eq_of_answers f
  exact ⟨hrecord, hanswers w answer hrecord, hfacts,
    hlists .list .hashSet objects facts facts' hfacts, hreserved "not" (.inr ⟨.not, rfl⟩)⟩

end PlanLogic
