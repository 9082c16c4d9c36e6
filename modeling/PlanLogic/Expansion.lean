import PlanLogic.Declaration
import PlanLogic.Substitution

/-!
# PlanLogic.Expansion

A quantifier over a finite universe is a junction of copies of its body, one per object whose type
is exactly the declared one, in the order of the universe.

* `Expansion.ofBody`: the copies of a body under a declaration.
* `Formula.expand`: the same for an application, whose number of children is checked first.
* `size_le_of_mem_copies`: copies are no larger than the body, so smaller than the quantifier.
-/

namespace PlanLogic

structure Expansion where
  quantifier : Operator
  /-- The declaration as it is written. -/
  declaration : String
  /-- The size of the whole universe. -/
  candidates : Nat
  copies : List Formula
  deriving DecidableEq, Repr

/-- One copy of `body` per object of the parameter's type. -/
def Formula.copies (body : Formula) (parameter : Object) (objects : List Object) : List Formula :=
  (objects.filter (fun o => o.type = parameter.type)).map
    (fun o => body.subst (.single parameter o))

namespace Expansion

def ofBody (quantifier : Operator) (declaration body : Formula) (objects : List Object) :
    Except Defect Expansion :=
  match declaration.parameter with
  | .error d => .error d
  | .ok p => .ok ⟨quantifier, declaration.word, objects.length, body.copies p objects⟩

theorem ofBody_eq_ok_iff {q : Operator} {declaration body : Formula} {objects : List Object}
    {e : Expansion} :
    ofBody q declaration body objects = .ok e ↔
      ∃ p, declaration.parameter = .ok p ∧
        e = ⟨q, declaration.word, objects.length, body.copies p objects⟩ := by
  unfold ofBody
  split <;> simp [*, eq_comm]

theorem ofBody_eq_error_iff {q : Operator} {declaration body : Formula} {objects : List Object}
    {d : Defect} :
    ofBody q declaration body objects = .error d ↔ declaration.parameter = .error d := by
  unfold ofBody
  split <;> simp [*]

theorem size_le_of_mem_copies {q : Operator} {declaration body copy : Formula}
    {objects : List Object} {e : Expansion} (h : ofBody q declaration body objects = .ok e)
    (hc : copy ∈ e.copies) : copy.size ≤ body.size := by
  obtain ⟨p, _, rfl⟩ := ofBody_eq_ok_iff.1 h
  obtain ⟨o, _, rfl⟩ := List.mem_map.1 hc
  exact Formula.size_subst_le _ _

end Expansion

/-- The expansion of `f`, read as an application of `quantifier` whatever its word. It is meant for
quantifiers, which take two children; any other operator is taken at its first two. If there are
fewer than two there is nothing to expand. For an operator that admits so few, this is outside what
expansion is meant for, and the defect of their number that is reported does not follow from its
arity. -/
def Formula.expand (quantifier : Operator) (f : Formula) (objects : List Object) :
    Except Defect Expansion :=
  match quantifier.arity.admits f.args.length, f.args with
  | true, declaration :: body :: _ => Expansion.ofBody quantifier declaration body objects
  | _, args => .error (.arity quantifier args.length)

@[simp] theorem Formula.expand_quantifier (j : Junction) (declaration body : Formula)
    (objects : List Object) :
    (Formula.apply j.quantifier [declaration, body]).expand j.quantifier objects =
      Expansion.ofBody j.quantifier declaration body objects := by
  cases j <;> rfl

theorem Formula.expand_eq_ok_iff {j : Junction} {f : Formula} {objects : List Object}
    {e : Expansion} :
    f.expand j.quantifier objects = .ok e ↔
      ∃ declaration body, f.args = [declaration, body] ∧
        Expansion.ofBody j.quantifier declaration body objects = .ok e := by
  unfold expand
  rcases f.args with _ | ⟨a, _ | ⟨b, _ | ⟨c, rest⟩⟩⟩ <;>
    cases j <;> simp [Junction.quantifier, Operator.arity, Arity.admits, and_assoc]

end PlanLogic
