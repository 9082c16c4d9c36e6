import PlanLogic.World
import PlanLogic.Evaluation.Run

/-!
# PlanLogic.Evaluation.Basic

Evaluation of formulas in a world. Quantifiers are expanded into copies of their bodies, and a
predicate is looked up as it stands when it is reached. Every judged formula leaves a verdict, after
those of its parts.

A junction stops at the part that settles it. A conditional judges both of its parts, whatever the
first comes to.

* `evaluateParts`: one level of evaluation, with any judge for what is below.
* `evaluate`: the evaluator. Copies are smaller than the quantifier, so it ends.
* `evaluate_eq`: it is its own judge for what is below; free of the bookkeeping for termination.
-/

namespace PlanLogic

/-- What the evaluation of `f` does before its verdict, with `judge` for every formula that it turns
to. -/
def evaluateParts (w : World) (judge : Formula → Run Bool) (f : Formula) : Run Bool :=
  match f.shape with
  | .error d => .fail d
  | .ok .atom => .pure (w.holds f)
  | .ok (.negation body) => (judge body).map (!·)
  | .ok (.junction j parts) => .settle j judge parts
  | .ok (.conditional premise conclusion) =>
    (judge premise).bind fun p => (judge conclusion).map fun c => !p || c
  | .ok (.quantified j declaration body) =>
    match Expansion.ofBody j.quantifier declaration body w.objects with
    | .error d => .fail d
    | .ok e => .after [.expanded e] (.settle j judge e.copies)

def evaluate (w : World) (f : Formula) : Run Bool :=
  Traced.conclude (fun b => .judged ⟨f, b⟩) <|
    match _h : f.shape with
    | .error d => .fail d
    | .ok .atom => .pure (w.holds f)
    | .ok (.negation body) => (evaluate w body).map (!·)
    | .ok (.junction j parts) =>
      .settle j (fun a : { a // a ∈ parts } => evaluate w a.1) parts.attach
    | .ok (.conditional premise conclusion) =>
      (evaluate w premise).bind fun p => (evaluate w conclusion).map fun c => !p || c
    | .ok (.quantified j declaration body) =>
      match _he : Expansion.ofBody j.quantifier declaration body w.objects with
      | .error d => .fail d
      | .ok e =>
        .after [.expanded e]
          (.settle j (fun a : { a // a ∈ e.copies } => evaluate w a.1) e.copies.attach)
termination_by f.size
decreasing_by
  · exact Formula.size_lt_of_mem_parts _h (List.mem_singleton.2 rfl)
  · exact Formula.size_lt_of_mem_parts _h a.2
  · exact Formula.size_lt_of_mem_parts _h (.head _)
  · exact Formula.size_lt_of_mem_parts _h (.tail _ (.head _))
  · exact Nat.lt_of_le_of_lt (Expansion.size_le_of_mem_copies _he a.2)
      (Formula.size_lt_of_mem_parts _h (List.mem_singleton.2 rfl))

theorem evaluate_eq (w : World) (f : Formula) :
    evaluate w f = (evaluateParts w (evaluate w) f).conclude fun b => .judged ⟨f, b⟩ := by
  rw [evaluate, evaluateParts]
  congr 1
  split <;> simp only [Traced.settle_attach, *]
  split <;> simp only [*]

end PlanLogic
