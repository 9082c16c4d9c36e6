import Mathlib.Algebra.Order.BigOperators.Group.List
import Mathlib.Algebra.Order.Ring.Nat
import PlanLogic.Proofs.Components

/-!
# PlanLogic.Proofs.Cost

How many verdicts a run can leave, read off the formula that was given. A quantifier counts its body
once for each object of its type, so the bounds of nested quantifiers multiply. The run goes through
copies that are made on the way, but a copy costs what the body costs (`cost_subst`).

* `cost`: the bound, by recursion over the formula.
* `cost_cases`: the cost of a formula is one more than that of its components, unless it fails by
  itself.
* `Traced.Visits.length_verdicts_le`: visiting leaves at most the verdicts of all that is visited.
* `Traced.VisitsAll`: nothing is left out. So it is with every run that has a value, unless a
  junction is settled before its last part or copy (`visitsAll_evaluateParts`, `SettledEarly`).
* `length_verdicts_le_cost`: no run leaves more verdicts than the cost, and a run that leaves
  nothing out has that many.
-/

namespace PlanLogic

/-! ## The bound -/

/-- One for each formula that can be judged: a predicate, an application with the right number of
children besides what these cost, or a quantifier besides what its body costs for each object of the
declared type. What cannot be judged counts nothing. -/
def cost (objects : List Object) (f : Formula) : Nat :=
  match f.node with
  | .empty => 0
  | .predicate _ => 1
  | .operator op =>
    if op.arity.admits f.args.length then
      if op.isQuantifier then
        match _h : f.args with
        | [declaration, body] =>
          match declaration.parameter with
          | .error _ => 0
          | .ok p => 1 + objects.countP (fun o => o.type = p.type) * cost objects body
        | _ => 0
      else 1 + (f.args.attach.map fun a => cost objects a.1).sum
    else 0
termination_by f.size
decreasing_by
  · exact Formula.size_lt_of_mem (_h ▸ .tail _ (.head _))
  · exact Formula.size_lt_of_mem a.2

/-- The cost by shape. -/
theorem cost_eq (objects : List Object) (f : Formula) :
    cost objects f =
      match f.shape with
      | .error _ => 0
      | .ok (.quantified _ declaration body) =>
        match declaration.parameter with
        | .error _ => 0
        | .ok p => 1 + objects.countP (fun o => o.type = p.type) * cost objects body
      | .ok s => 1 + (s.parts.map (cost objects)).sum := by
  rw [cost, Formula.shape]
  cases f.node with
  | empty => rfl
  | predicate name => rfl
  | operator op =>
    simp only [List.map_attach_eq_pmap, List.pmap_eq_map]
    generalize f.args = args
    cases op <;> rcases args with _ | ⟨a, _ | ⟨b, _ | ⟨c, rest⟩⟩⟩ <;>
      simp [Operator.arity, Operator.isQuantifier, Formula.shapeOf, Formula.Shape.parts]

theorem Formula.Shape.parts_mapParts (g : Formula → Formula) (s : Shape) :
    (s.mapParts g).parts = s.parts.map g := by
  cases s <;> rfl

/-- Putting objects for tokens changes no cost. -/
theorem cost_subst (objects : List Object) (σ : Assignment) (f : Formula) :
    cost objects (f.subst σ) = cost objects f := by
  induction f using Formula.induct_parts with
  | step f ih =>
    rw [cost_eq, cost_eq objects f, Formula.shape_subst]
    cases hs : f.shape with
    | error d => rfl
    | ok s =>
      have hparts : (s.mapParts (Formula.subst σ)).parts.map (cost objects) =
          s.parts.map (cost objects) := by
        rw [Formula.Shape.parts_mapParts, List.map_map]
        exact List.map_congr_left (ih s hs)
      cases s with
      | quantified j declaration body =>
        have hbody := List.head_eq_of_cons_eq hparts
        simp only [Except.map, Formula.Shape.mapParts, hbody]
      | _ => exact congrArg (fun costs => 1 + List.sum costs) hparts

theorem cost_copies {w : World} {p : Object} (body : Formula) :
    ((body.copies p w.objects).map (cost w.objects)).sum =
      w.objects.countP (fun o => o.type = p.type) * cost w.objects body := by
  rw [Formula.copies, List.map_map]
  simp [Function.comp_def, cost_subst, List.countP_eq_length_filter]

/-- A formula fails by itself, or it costs one more than its components together. -/
theorem cost_cases (w : World) (f : Formula) :
    (∃ d, evaluateParts w (evaluate w) f = .fail d) ∨
      cost w.objects f = 1 + ((components w f).map (cost w.objects)).sum := by
  rw [cost_eq]
  unfold evaluateParts components
  cases hs : f.shape with
  | error d => exact .inl ⟨d, rfl⟩
  | ok s =>
    cases s with
    | quantified j declaration body =>
      simp only [Expansion.ofBody]
      cases hp : declaration.parameter with
      | error d => exact .inl ⟨d, rfl⟩
      | ok p => exact .inr (by rw [cost_copies])
    | _ => exact .inr rfl

/-! ## Verdicts of components -/

theorem verdicts_after_expansion {w : World} {f : Formula} {α : Type} (r : Run α) :
    Run.verdicts (r.after ((expansion? w f).toList.map .expanded)) = r.verdicts := by
  cases expansion? w f <;> rfl

theorem Traced.Visits.length_verdicts_le {judge : Formula → Run Bool} {as : List Formula}
    {β : Type} {r : Run β} (hr : Traced.Visits judge as r) :
    r.verdicts.length ≤ (as.map fun a => (judge a).verdicts.length).sum := by
  induction hr with
  | stop b => exact Nat.zero_le _
  | fail hd => exact Nat.le_add_right _ _
  | @next a as v r hv _ ih =>
    simp only [Run.verdicts, Traced.after, List.filterMap_append, List.length_append, List.map_cons,
      List.sum_cons] at ih ⊢
    omega

/-! ## Runs that leave nothing out -/

namespace Traced

variable {ε α β : Type} {judge : α → Traced ε Bool}

/-- The run `r` is made of the runs of all elements of a list, each of which has a value. -/
structure VisitsAll (judge : α → Traced ε Bool) (as : List α) (r : Traced ε β) : Prop where
  value : ∀ a ∈ as, ∃ v, (judge a).outcome = .ok v
  events : r.events = as.flatMap fun a => (judge a).events

namespace VisitsAll

theorem pure (b : β) : VisitsAll judge [] (.pure b) := ⟨nofun, rfl⟩

theorem bind {a : α} {as : List α} {next : Bool → Traced ε β} {b : β}
    (hb : ((judge a).bind next).outcome = .ok b)
    (h : ∀ v, (judge a).outcome = .ok v → (next v).outcome = .ok b → VisitsAll judge as (next v)) :
    VisitsAll judge (a :: as) ((judge a).bind next) := by
  cases ha : (judge a).outcome with
  | error d => simp [Traced.bind, ha] at hb
  | ok v =>
    simp only [Traced.bind, ha] at hb ⊢
    obtain ⟨hvalue, hevents⟩ := h v ha hb
    refine ⟨List.forall_mem_cons.2 ⟨⟨v, ha⟩, hvalue⟩, ?_⟩
    rw [List.flatMap_cons, ← hevents]
    rfl

theorem map {a : α} {g : Bool → β} {b : β} (hb : ((judge a).map g).outcome = .ok b) :
    VisitsAll judge [a] ((judge a).map g) :=
  bind hb fun v _ _ => .pure (g v)

/-- A junction is settled by its last part, or not before its end. -/
theorem settle {j : Junction} {as : List α} {b : Bool}
    (hb : (Traced.settle j judge as).outcome = .ok b)
    (h : ∀ a ∈ as.dropLast, (judge a).outcome ≠ .ok j.decisive) :
    VisitsAll judge as (Traced.settle j judge as) := by
  induction as with
  | nil => exact .pure _
  | cons a as ih =>
    refine bind hb fun v hv hrest => ?_
    cases as with
    | nil =>
      split
      · exact .pure v
      · exact .pure _
    | cons a' as =>
      have hopen : v ≠ j.decisive := by
        rintro rfl
        exact h a (.head _) hv
      rw [if_neg hopen] at hrest ⊢
      exact ih hrest fun c hc => h c (.tail _ hc)

end VisitsAll

end Traced

/-- The junction that a formula is, be it of listed parts or of copies. -/
def Formula.junction? (f : Formula) : Option Junction :=
  match f.shape with
  | .ok (.junction j _) => some j
  | .ok (.quantified j _ _) => some j
  | _ => none

/-- A part or copy before the last settles the junction. -/
def SettledEarly (w : World) (f : Formula) : Prop :=
  ∃ j ∈ f.junction?, ∃ a ∈ (components w f).dropLast, (evaluate w a).outcome = .ok j.decisive

instance (w : World) (f : Formula) : Decidable (SettledEarly w f) :=
  inferInstanceAs (Decidable (∃ j ∈ f.junction?, _))

theorem visitsAll_evaluateParts {w : World} {f : Formula} {b : Bool}
    (hb : (evaluateParts w (evaluate w) f).outcome = .ok b) (h : ¬ SettledEarly w f) :
    ∃ r, Traced.VisitsAll (evaluate w) (components w f) r ∧
      evaluateParts w (evaluate w) f = r.after ((expansion? w f).toList.map .expanded) := by
  unfold SettledEarly Formula.junction? at h
  unfold components at h ⊢
  unfold evaluateParts expansion? at *
  cases hs : f.shape with
  | error d =>
    rw [hs] at hb
    cases hb
  | ok s =>
    rw [hs] at hb h
    cases s with
    | atom => exact ⟨_, .pure _, rfl⟩
    | negation body => exact ⟨_, .map hb, rfl⟩
    | junction j parts =>
      refine ⟨_, .settle hb fun a ha hdecisive => h ⟨j, rfl, a, ha, hdecisive⟩, rfl⟩
    | conditional premise conclusion => exact ⟨_, .bind hb fun p _ hp => .map hp, rfl⟩
    | quantified j declaration body =>
      cases he : Expansion.ofBody j.quantifier declaration body w.objects with
      | error d =>
        simp only [he] at hb
        cases hb
      | ok e =>
        simp only [he] at hb h ⊢
        exact ⟨_, .settle hb fun a ha hdecisive => h ⟨j, rfl, a, ha, hdecisive⟩, rfl⟩

/-! ## The whole run -/

theorem length_verdicts_le (w : World) (f : Formula) :
    (evaluate w f).verdicts.length ≤ cost w.objects f := by
  induction f using induct_components w with
  | step f ih =>
    rcases cost_cases w f with ⟨d, hfail⟩ | hcost
    · rw [evaluate_eq, hfail]
      exact Nat.zero_le _
    have hparts : (evaluateParts w (evaluate w) f).verdicts.length ≤
        ((components w f).map (cost w.objects)).sum := by
      rcases evaluateParts_cases w (evaluate w) f with ⟨d, -, hfail, -⟩ | ⟨r, hr, hafter⟩
      · rw [hfail]
        exact Nat.zero_le _
      · rw [hafter, verdicts_after_expansion]
        exact hr.length_verdicts_le.trans (List.sum_le_sum ih)
    rw [hcost]
    cases ho : (evaluate w f).outcome with
    | ok b =>
      rw [verdicts_of_ok ho, List.length_append, List.length_singleton, Nat.add_comm]
      exact Nat.add_le_add_left hparts 1
    | error d =>
      rw [verdicts_of_error ho]
      exact hparts.trans (Nat.le_add_left _ _)

theorem length_verdicts_eq {w : World} (f : Formula) :
    ∀ b, (evaluate w f).outcome = .ok b →
      (∀ v ∈ (evaluate w f).verdicts, ¬ SettledEarly w v.formula) →
      (evaluate w f).verdicts.length = cost w.objects f := by
  induction f using induct_components w with
  | step f ih =>
    intro b hb hnone
    have hparts := outcome_evaluate_eq_parts w f
    rw [hb] at hparts
    rw [verdicts_of_ok hb] at hnone ⊢
    have hf : ¬ SettledEarly w f := hnone ⟨f, b⟩ (List.mem_append_right _ (.head _))
    obtain ⟨r, hr, hafter⟩ := visitsAll_evaluateParts hparts.symm hf
    have hverdicts : (evaluateParts w (evaluate w) f).verdicts =
        (components w f).flatMap fun a => (evaluate w a).verdicts := by
      rw [hafter, verdicts_after_expansion, Run.verdicts, hr.events, List.filterMap_flatMap]
      rfl
    have hcosts : (components w f).map (fun a => (evaluate w a).verdicts.length) =
        (components w f).map (cost w.objects) := by
      refine List.map_congr_left fun a ha => ?_
      obtain ⟨v, hv⟩ := hr.value a ha
      refine ih a ha v hv fun u hu => hnone u (List.mem_append_left _ ?_)
      rw [hverdicts]
      exact List.mem_flatMap.2 ⟨a, ha, hu⟩
    rcases cost_cases w f with ⟨d, hfail⟩ | hcost
    · rw [hfail] at hparts
      cases hparts
    · rw [hcost, hverdicts, List.length_append, List.length_flatMap, hcosts, List.length_singleton,
        Nat.add_comm]

/-- No run leaves more verdicts than the cost of the formula, whether it ends in a value or in a
defect. If it ends in a value, and no junction of those that were judged was settled before its last
part or copy, the cost is what it leaves. -/
theorem length_verdicts_le_cost (w : World) (f : Formula) :
    (evaluate w f).verdicts.length ≤ cost w.objects f ∧
      ∀ b, (evaluate w f).outcome = .ok b →
        (∀ v ∈ (evaluate w f).verdicts, ¬ SettledEarly w v.formula) →
        (evaluate w f).verdicts.length = cost w.objects f :=
  ⟨length_verdicts_le w f, length_verdicts_eq f⟩

/-- Two persons times two rooms. If both persons are only at the last room, every room is asked
about for each of them. With Ann at the first room already, one of the seven verdicts is not needed;
and a malformed formula behind her cuts the run short after four. -/
theorem length_verdicts_le_cost_rooms :
    let located := fun x y => Formula.predicate "at" [x, y]
    let body := Formula.forSome "?y - room" (located "?x" "?y")
    let f := Formula.forAll "?x - person" body
    let g := Formula.and [.forSome "?x - person" body, .leaf ""]
    let objects : List Object :=
      [⟨"ann", "person"⟩, ⟨"hall", "room"⟩, ⟨"bob", "person"⟩, ⟨"yard", "room"⟩]
    let last := World.of .treeSet objects [⟨located "ann" "yard"⟩, ⟨located "bob" "yard"⟩]
    let first := World.of .list objects [⟨located "ann" "hall"⟩, ⟨located "bob" "yard"⟩]
    cost objects f = 7 ∧ (evaluate last f).outcome = .ok true ∧
      (∀ v ∈ (evaluate last f).verdicts, ¬ SettledEarly last v.formula) ∧
      (evaluate last f).verdicts.length = cost objects f ∧
      (evaluate first f).outcome = .ok true ∧ (evaluate first f).verdicts.length = 6 ∧
      SettledEarly first (.forSome "?y - room" (located "ann" "?y")) ∧
      (evaluate last g).outcome = .error .emptyWord ∧ (evaluate last g).verdicts.length = 4 ∧
      (evaluate last g).verdicts.length ≤ cost objects g := by
  intro located body f g objects last first
  have htrue : (evaluate last f).outcome = .ok true := by decide +kernel
  have hnone : ∀ v ∈ (evaluate last f).verdicts, ¬ SettledEarly last v.formula := by decide +kernel
  refine ⟨by decide +kernel, htrue, hnone, (length_verdicts_le_cost last f).2 true htrue hnone,
    by decide +kernel, by decide +kernel, by decide +kernel, by decide +kernel, by decide +kernel,
    (length_verdicts_le_cost last g).1⟩

end PlanLogic
