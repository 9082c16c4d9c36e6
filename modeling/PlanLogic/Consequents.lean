import PlanLogic.Formula.Shape
import PlanLogic.Candidates

/-!
# PlanLogic.Consequents

The predicates that a formula can assert when it is read as the conclusion of a rule. A conjunction
asserts each of its parts, so their entries stay apart. A disjunction asserts one of its parts, but
not a known one, so everything below it falls together into one entry. Premises and declarations
assert nothing and are not looked at.

* `consequents`: the entries, each a predicate or a choice of several.
* `consequents_eq`: its equation, free of the bookkeeping for termination.
-/

namespace PlanLogic

/-- What can be asserted: predicates and choices between predicates. -/
abbrev Entries := SortedSet (Candidates String)

/-- The entries of a junction, from those of its parts. -/
def Junction.entries (j : Junction) (parts : List Entries) : Entries :=
  match j with
  | all => .union parts
  | any => .single (.merge (parts.flatMap SortedSet.toList))

def consequents (f : Formula) : Except Defect Entries :=
  match _h : f.shape with
  | .error d => .error d
  | .ok .atom => .ok (.single (.single f.word))
  | .ok (.negation body) => consequents body
  | .ok (.junction j parts) =>
    (parts.attach.mapM fun a => consequents a.1).map j.entries
  | .ok (.conditional _ conclusion) => consequents conclusion
  | .ok (.quantified _ _ body) => consequents body
termination_by f.size
decreasing_by
  · exact Formula.size_lt_of_mem_parts _h (List.mem_singleton.2 rfl)
  · exact Formula.size_lt_of_mem_parts _h a.2
  · exact Formula.size_lt_of_mem_parts _h (.tail _ (.head _))
  · exact Formula.size_lt_of_mem_parts _h (List.mem_singleton.2 rfl)

theorem consequents_eq (f : Formula) :
    consequents f =
      match f.shape with
      | .error d => .error d
      | .ok .atom => .ok (.single (.single f.word))
      | .ok (.negation body) => consequents body
      | .ok (.junction j parts) => (parts.mapM consequents).map j.entries
      | .ok (.conditional _ conclusion) => consequents conclusion
      | .ok (.quantified _ _ body) => consequents body := by
  rw [consequents]
  split <;> simp only [List.mapM_subtype, List.unattach_attach, *]

end PlanLogic
