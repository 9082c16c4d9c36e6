import PlanLogic.Proofs.Components

/-!
# PlanLogic.Proofs.Simulation

Runs in two worlds, event by event. Formulas and expansions of the one world have images in the
other, which may bear other names or count other objects. If a single step of evaluation goes over
into a single step, then a run goes over into a run.

* `Simulation`: the images, and what they have to keep in a single step.
* `Simulation.event`: the images of events.
* `Simulation.evaluate_eq_view`: the run of an image has the same outcome, and its events are the
  images of the events in their order.
-/

namespace PlanLogic

/-- Steps of evaluation in `w` go over into steps in `w'`, for all formulas in a class that
evaluation does not leave. -/
structure Simulation (w w' : World) where
  formula : Formula → Formula
  expansion : Expansion → Expansion
  Covers : Formula → Prop
  covers_component : ∀ {f a}, Covers f → a ∈ components w f → Covers a
  shape_formula : ∀ f, (formula f).shape = f.shape.map (Formula.Shape.mapParts formula)
  holds_formula : ∀ {f}, Covers f → f.isPredicate = true → w'.holds (formula f) = w.holds f
  copies_expansion : ∀ e, (expansion e).copies = e.copies.map formula
  ofBody_formula : ∀ {f j declaration body}, Covers f →
    f.shape = .ok (.quantified j declaration body) →
      Expansion.ofBody j.quantifier declaration (formula body) w'.objects =
        (Expansion.ofBody j.quantifier declaration body w.objects).map expansion

namespace Simulation

variable {w w' : World} (s : Simulation w w')

def event : Event → Event
  | .expanded e => .expanded (s.expansion e)
  | .judged v => .judged ⟨s.formula v.formula, v.holds⟩

/-- By the components in `w`, whose images are the components of the image in `w'`. -/
theorem evaluate_eq_view (f : Formula) :
    s.Covers f → evaluate w' (s.formula f) = (evaluate w f).view (some ∘ s.event) := by
  induction f using induct_components w with
  | step f ih =>
    intro hf
    have hnote : ∀ b, (some ∘ s.event) (.judged ⟨f, b⟩) = some (.judged ⟨s.formula f, b⟩) :=
      fun _ => rfl
    have hcomponent : ∀ a ∈ components w f,
        evaluate w' (s.formula a) = (evaluate w a).view (some ∘ s.event) :=
      fun a ha => ih a ha (s.covers_component hf ha)
    rw [evaluate_eq w', evaluate_eq w f, Traced.view_conclude _ hnote, evaluateParts, evaluateParts,
      s.shape_formula]
    congr 1
    unfold components at hcomponent
    cases hs : f.shape with
    | error d => rfl
    | ok shape =>
      rw [hs] at hcomponent
      cases shape with
      | atom =>
        have hholds := s.holds_formula hf (Formula.shape_eq_atom_iff.1 hs)
        simp only [Except.map, Formula.Shape.mapParts, hholds, Traced.view_pure]
      | negation body =>
        have hbody := hcomponent body (.head _)
        simp only [Except.map, Formula.Shape.mapParts, hbody, Traced.view_map]
      | junction j parts =>
        simp only [Except.map, Formula.Shape.mapParts, Traced.settle_map, Traced.view_settle]
        exact Traced.settle_congr hcomponent
      | conditional premise conclusion =>
        have hpremise := hcomponent premise (.head _)
        have hconclusion := hcomponent conclusion (.tail _ (.head _))
        simp only [Except.map, Formula.Shape.mapParts, hpremise, hconclusion, Traced.view_bind,
          Traced.view_map]
      | quantified j declaration body =>
        have hexpand := s.ofBody_formula hf hs
        simp only [Except.map, Formula.Shape.mapParts] at hcomponent hexpand ⊢
        rw [hexpand]
        cases he : Expansion.ofBody j.quantifier declaration body w.objects with
        | error d => rfl
        | ok e =>
          rw [he] at hcomponent
          simp only [s.copies_expansion, Traced.view_after, Traced.settle_map, Traced.view_settle]
          congr 1
          exact Traced.settle_congr hcomponent

end Simulation

end PlanLogic
