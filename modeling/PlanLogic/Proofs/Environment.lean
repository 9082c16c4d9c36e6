import PlanLogic.Evaluation.Basic
import PlanLogic.Proofs.Scopes

/-!
# PlanLogic.Proofs.Environment

Evaluation in an environment. `evaluateIn` carries what the enclosing quantifiers bind and goes
through the formula as it stands: a quantifier adds a binding for each object of its type, and only
a predicate that is reached has its arguments read in the bindings. Nothing is copied and nothing is
substituted.

`evaluate` works on copies instead. The two make the same run:

* `view_evaluate_close`: on a formula closed under bindings, `evaluate` finds what `evaluateIn`
  finds in these bindings, verdict by verdict.
* `evaluate_eq_evaluateIn`: the same from the outside, where nothing is bound.
-/

namespace PlanLogic

/-- A formula as it stands, judged under bindings. -/
structure Judgment where
  formula : Formula
  scopes : Scopes
  holds : Bool
  deriving DecidableEq, Repr

/-- The judged formula with its bindings applied in their order. -/
def Judgment.verdict (v : Judgment) : Verdict := ⟨v.formula.close v.scopes, v.holds⟩

def evaluateIn (w : World) (ρ : Scopes) (f : Formula) : Traced Judgment Bool :=
  Traced.conclude (fun b => ⟨f, ρ, b⟩) <|
    match _h : f.shape with
    | .error d => .fail d
    | .ok .atom => .pure (w.holds ⟨f.word, f.args.map (Scopes.rewrite ρ)⟩)
    | .ok (.negation body) => (evaluateIn w ρ body).map (!·)
    | .ok (.junction j parts) =>
      .settle j (fun a : { a // a ∈ parts } => evaluateIn w ρ a.1) parts.attach
    | .ok (.conditional premise conclusion) =>
      (evaluateIn w ρ premise).bind fun p => (evaluateIn w ρ conclusion).map fun c => !p || c
    | .ok (.quantified j declaration body) =>
      match declaration.parameter with
      | .error d => .fail d
      | .ok p =>
        .settle j (fun name => evaluateIn w (ρ ++ [⟨p.name, name⟩]) body) (w.namesOf p.type)
termination_by f.size
decreasing_by
  · exact Formula.size_lt_of_mem_parts _h (List.mem_singleton.2 rfl)
  · exact Formula.size_lt_of_mem_parts _h a.2
  · exact Formula.size_lt_of_mem_parts _h (.head _)
  · exact Formula.size_lt_of_mem_parts _h (.tail _ (.head _))
  · exact Formula.size_lt_of_mem_parts _h (List.mem_singleton.2 rfl)

theorem evaluateIn_eq (w : World) (ρ : Scopes) (f : Formula) :
    evaluateIn w ρ f = Traced.conclude (fun b => ⟨f, ρ, b⟩) (
      match f.shape with
      | .error d => .fail d
      | .ok .atom => .pure (w.holds ⟨f.word, f.args.map (Scopes.rewrite ρ)⟩)
      | .ok (.negation body) => (evaluateIn w ρ body).map (!·)
      | .ok (.junction j parts) => .settle j (evaluateIn w ρ) parts
      | .ok (.conditional premise conclusion) =>
        (evaluateIn w ρ premise).bind fun p => (evaluateIn w ρ conclusion).map fun c => !p || c
      | .ok (.quantified j declaration body) =>
        match declaration.parameter with
        | .error d => .fail d
        | .ok p =>
          .settle j (fun name => evaluateIn w (ρ ++ [⟨p.name, name⟩]) body)
            (w.namesOf p.type)) := by
  rw [evaluateIn]
  congr 1
  split <;> simp only [Traced.settle_attach, *]

/-- The induction is on the formula as it stands, for all bindings at once: the copies of a body are
the body under one more binding. -/
theorem view_evaluate_close (w : World) (ρ : Scopes) (f : Formula) :
    (evaluate w (f.close ρ)).view Event.verdict? =
      (evaluateIn w ρ f).view (some ∘ Judgment.verdict) := by
  induction f using Formula.induct_parts generalizing ρ with
  | step f ih =>
    have h : ∀ b, Event.verdict? (.judged ⟨f.close ρ, b⟩) =
        some (Judgment.verdict ⟨f, ρ, b⟩) := fun _ => rfl
    have h' : ∀ b, (some ∘ Judgment.verdict) ⟨f, ρ, b⟩ =
        some (Judgment.verdict ⟨f, ρ, b⟩) := fun _ => rfl
    rw [evaluate_eq, evaluateIn_eq, Traced.view_conclude _ h,
      Traced.view_conclude (some ∘ Judgment.verdict) h', evaluateParts, Formula.shape_close]
    congr 1
    cases hs : f.shape with
    | error d => rfl
    | ok s =>
      have ih := ih s hs
      cases s with
      | atom =>
        have hc := Formula.close_of_shape_atom hs ρ
        simp only [Except.map, Formula.Shape.mapParts, hc, Traced.view_pure]
      | negation body =>
        have hb := ih body (.head _) ρ
        simp only [Except.map, Formula.Shape.mapParts, Traced.view_map, hb]
      | junction j parts =>
        simp only [Except.map, Formula.Shape.mapParts, Traced.settle_map]
        exact Traced.view_settle_congr fun a ha => ih a ha ρ
      | conditional premise conclusion =>
        have hp := ih premise (.head _) ρ
        have hc := ih conclusion (.tail _ (.head _)) ρ
        simp only [Except.map, Formula.Shape.mapParts, Traced.view_bind, Traced.view_map, hp, hc]
      | quantified j declaration body =>
        simp only [Except.map, Formula.Shape.mapParts, Expansion.ofBody]
        cases declaration.parameter with
        | error d => rfl
        | ok p =>
          have hb := fun name => ih body (.head _) (ρ ++ [⟨p.name, name⟩])
          simp only [copies_close, Traced.view_after, Traced.settle_map]
          exact Traced.view_settle_congr fun name _ => hb name

/-- Evaluation by copies is evaluation in an environment: the same value or the same defect, and the
same verdicts, each on the original formula with the bindings in force applied in their order. -/
theorem evaluate_eq_evaluateIn (w : World) (f : Formula) :
    (evaluate w f).outcome = (evaluateIn w [] f).outcome ∧
      (evaluate w f).verdicts = (evaluateIn w [] f).events.map Judgment.verdict := by
  have h := view_evaluate_close w [] f
  rw [Formula.close_nil] at h
  constructor
  · exact congrArg Traced.outcome h
  · have hv := congrArg Traced.events h
    simpa [Traced.view, Run.verdicts] using hv

end PlanLogic
