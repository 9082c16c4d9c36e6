import Mathlib.Control.Monad.Basic
import Mathlib.Data.List.Induction
import PlanLogic.Proofs.Components

/-!
# PlanLogic.Proofs.Trace

The trace of a run is truthful and nested. A verdict on record can be found again: a run of its
formula, in the same world, ends in the recorded value and leaves just the block of events that the
verdict ends. This holds at every place of the trace, also of a run that ended in a defect.

* `Replayable`: the property, of lists of events; it is cumulative.
* `replayable_evaluate`: every run has it.
* `size_lt_of_judged`: what is judged on the way to a verdict is smaller than the formula, so the
  formula's own verdict occurs once.
* `verdicts_nested`: the same for verdicts by their place, and where the formula itself is judged.
-/

namespace PlanLogic

/-- Each verdict is what a run of its formula finds, and that run is the block that it ends. -/
def Replayable (w : World) (es : List Event) : Prop :=
  ∀ before v after, es = before ++ .judged v :: after →
    (evaluate w v.formula).outcome = .ok v.holds ∧
      (evaluate w v.formula).events <:+ before ++ [.judged v]

theorem cumulative_replayable (w : World) : Traced.Cumulative (Replayable w) where
  nil := by
    intro before v after h
    simp at h
  append := by
    intro es es' hes hes' before v after h
    rcases List.append_eq_append_iff.1 h with ⟨mid, rfl, hsplit⟩ | ⟨mid, hbefore, hsplit⟩
    · -- The verdict is in the second list.
      obtain ⟨hvalue, hsuffix⟩ := hes' mid v after hsplit
      refine ⟨hvalue, hsuffix.trans ?_⟩
      rw [List.append_assoc]
      exact List.suffix_append _ _
    · cases mid with
      | nil =>
        obtain ⟨hvalue, hsuffix⟩ := hes' [] v after hsplit.symm
        exact ⟨hvalue, hsuffix.trans (List.suffix_append _ _)⟩
      | cons e mid =>
        obtain ⟨rfl, -⟩ := List.cons.inj hsplit
        exact hes before v mid hbefore

/-- A run of `f` with a value ends in a verdict that it is itself the replay of. -/
theorem Replayable.snoc {w : World} {f : Formula} {b : Bool} {es : List Event}
    (hes : Replayable w es) (hvalue : (evaluate w f).outcome = .ok b)
    (hevents : (evaluate w f).events = es ++ [.judged ⟨f, b⟩]) :
    Replayable w (es ++ [.judged ⟨f, b⟩]) := by
  intro before v after h
  cases after using List.reverseRecOn with
  | nil =>
    obtain ⟨rfl, hv⟩ := List.append_inj' h rfl
    cases List.singleton_inj.1 hv
    exact ⟨hvalue, [], hevents⟩
  | append_singleton after e =>
    rw [← List.cons_append, ← List.append_assoc] at h
    exact hes before v after (List.append_inj' h rfl).1

theorem replayable_evaluate (w : World) (f : Formula) : Replayable w (evaluate w f).events := by
  induction f using induct_components w with
  | step f ih =>
    have hparts : Replayable w (evaluateParts w (evaluate w) f).events :=
      events_evaluateParts (cumulative_replayable w)
        (fun e before v after h => by cases before <;> simp at h) ih
    cases ho : (evaluate w f).outcome with
    | error d =>
      rw [events_of_error ho]
      exact hparts
    | ok b =>
      have hevents := events_of_ok ho
      rw [hevents]
      exact hparts.snoc ho hevents

theorem outcome_of_judged {w : World} {f : Formula} {v : Verdict}
    (hv : .judged v ∈ (evaluate w f).events) : (evaluate w v.formula).outcome = .ok v.holds := by
  obtain ⟨before, after, h⟩ := List.append_of_mem hv
  exact (replayable_evaluate w f before v after h).1

theorem size_le_of_judged {w : World} {v : Verdict} (f : Formula) :
    .judged v ∈ (evaluate w f).events → v.formula.size ≤ f.size := by
  induction f using induct_components w with
  | step f ih =>
    intro hv
    rcases judged_cases hv with rfl | ⟨a, ha, hva⟩
    · exact Nat.le_refl _
    · exact Nat.le_of_lt (Nat.lt_of_le_of_lt (ih a ha hva) (size_lt_of_mem_components ha))

theorem size_lt_of_judged {w : World} {f : Formula} {v : Verdict}
    (hv : .judged v ∈ (evaluateParts w (evaluate w) f).events) : v.formula.size < f.size := by
  obtain ⟨a, ha, hva⟩ := exists_component_of_judged hv
  exact Nat.lt_of_le_of_lt (size_le_of_judged a hva) (size_lt_of_mem_components ha)

/-! ## Verdicts by their place -/

theorem Run.mem_verdicts {α : Type} {r : Run α} {v : Verdict} :
    v ∈ r.verdicts ↔ .judged v ∈ r.events := by
  simp only [Run.verdicts, List.mem_filterMap]
  constructor
  · rintro ⟨e, he, hv⟩
    cases e with
    | expanded e => cases hv
    | judged u =>
      cases hv
      exact he
  · exact fun h => ⟨_, h, rfl⟩

/-- A place among the verdicts is one among the events. -/
theorem Run.split_events {α : Type} {r : Run α} {i : Nat} {v : Verdict}
    (h : r.verdicts[i]? = some v) :
    ∃ before after, r.events = before ++ .judged v :: after ∧
      (before ++ [.judged v]).filterMap Event.verdict? = r.verdicts.take (i + 1) := by
  have hsplit : r.verdicts = r.verdicts.take i ++ v :: r.verdicts.drop (i + 1) := by
    obtain ⟨hi, rfl⟩ := List.getElem?_eq_some_iff.1 h
    rw [List.getElem_cons_drop, List.take_append_drop]
  obtain ⟨es, es', hes, htake, hrest⟩ := List.filterMap_eq_append_iff.1 hsplit
  obtain ⟨skipped, e, after, rfl, hskipped, he, -⟩ := List.filterMap_eq_cons_iff.1 hrest
  cases e with
  | expanded e => cases he
  | judged u =>
    cases he
    refine ⟨es ++ skipped, after, by rw [hes, List.append_assoc], ?_⟩
    have hnone : skipped.filterMap Event.verdict? = [] := List.filterMap_eq_nil_iff.2 hskipped
    rw [List.take_add_one, h, List.filterMap_append, List.filterMap_append, htake, hnone,
      List.append_nil]
    rfl

/-- At every place of the trace: the formula recorded there evaluates to the value recorded there,
and its verdicts are the block that ends there. A formula with a value is judged last and nowhere
else; one that ends in a defect is not judged at all. -/
theorem verdicts_nested (w : World) (f : Formula) :
    (∀ i v, (evaluate w f).verdicts[i]? = some v →
      (evaluate w v.formula).outcome = .ok v.holds ∧
        (evaluate w v.formula).verdicts <:+ (evaluate w f).verdicts.take (i + 1)) ∧
      (∀ b, (evaluate w f).outcome = .ok b →
        ∃ vs, (evaluate w f).verdicts = vs ++ [⟨f, b⟩] ∧ ∀ v ∈ vs, v.formula ≠ f) ∧
      ∀ d, (evaluate w f).outcome = .error d → ∀ v ∈ (evaluate w f).verdicts, v.formula ≠ f := by
  have hother : ∀ v ∈ (evaluateParts w (evaluate w) f).verdicts, v.formula ≠ f := by
    rintro v hv rfl
    exact Nat.lt_irrefl _ (size_lt_of_judged (Run.mem_verdicts.1 hv))
  refine ⟨?_, ?_, ?_⟩
  · intro i v hi
    obtain ⟨before, after, hevents, htake⟩ := Run.split_events hi
    obtain ⟨hvalue, hsuffix⟩ := replayable_evaluate w f before v after hevents
    refine ⟨hvalue, ?_⟩
    rw [← htake]
    exact hsuffix.filterMap _
  · intro b hb
    refine ⟨(evaluateParts w (evaluate w) f).verdicts, ?_, hother⟩
    rw [Run.verdicts, events_of_ok hb, List.filterMap_append]
    rfl
  · intro d hd v hv
    rw [Run.verdicts, events_of_error hd] at hv
    exact hother v hv

/-- Ann settles her copy at once; Bob's comes to the nameless formula, so it leaves no verdict, and
neither does the whole. The verdict on Ann's copy ends the block of its own run. -/
theorem verdicts_nested_meals :
    let full := fun x => Formula.predicate "full" [x]
    let hungry := fun x => Formula.predicate "hungry" [x]
    let f := Formula.forAll "?x - person" (.or [full "?x", .not (hungry "?x"), .leaf ""])
    let copy := Formula.or [full "ann", .not (hungry "ann"), .leaf ""]
    let w := World.of .list [⟨"ann", "person"⟩, ⟨"bob", "person"⟩]
      [.ofPredicate "full" ["ann"], .ofPredicate "hungry" ["bob"]]
    (evaluate w f).outcome = .error .emptyWord ∧
      (evaluate w f).verdicts = [⟨full "ann", true⟩, ⟨copy, true⟩, ⟨full "bob", false⟩,
        ⟨hungry "bob", true⟩, ⟨.not (hungry "bob"), false⟩] ∧
      (evaluate w copy).outcome = .ok true ∧
      (evaluate w copy).verdicts <:+ [⟨full "ann", true⟩, ⟨copy, true⟩] ∧
      ∀ v ∈ (evaluate w f).verdicts, v.formula ≠ f := by
  intro full hungry f copy w
  have hdefect : (evaluate w f).outcome = .error .emptyWord := by decide +kernel
  have hverdicts : (evaluate w f).verdicts = [⟨full "ann", true⟩, ⟨copy, true⟩,
      ⟨full "bob", false⟩, ⟨hungry "bob", true⟩, ⟨.not (hungry "bob"), false⟩] := by
    decide +kernel
  obtain ⟨hplaces, -, hroot⟩ := verdicts_nested w f
  have hcopy := hplaces 1 ⟨copy, true⟩ (by rw [hverdicts]; rfl)
  rw [hverdicts] at hcopy
  exact ⟨hdefect, hverdicts, hcopy.1, hcopy.2, hroot _ hdefect⟩

end PlanLogic
