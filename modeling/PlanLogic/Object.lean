import PlanLogic.Formula.Order

/-!
# PlanLogic.Object

The objects of a planning problem and the parameters of formulas: a name with a type. A name
identifies an object within a problem, so the comparisons that containers use (`==`, the order and
the hash code) see the name only. Plain equality `=` is that of the whole pair.

* `beq_iff`, `compare_eq`: what the comparisons see.
* `beq_named`, `compare_named_eq_iff`: so an entry of a container is found by its name.
* `Object.render`: the written form `name - type`, which is also how a parameter is declared.
-/

namespace PlanLogic

open Std

structure Object where
  name : String
  type : String
  deriving DecidableEq, Repr, Inhabited

namespace Object

/-- The object of a name, for looking up an entry whose type is not known. -/
def named (name : String) : Object := ⟨name, ""⟩

instance : BEq Object := ⟨fun a b => a.name == b.name⟩

instance : Ord Object := ⟨compareOn name⟩

instance : Hashable Object := ⟨fun o => hash o.name⟩

theorem beq_iff {a b : Object} : (a == b) = true ↔ a.name = b.name :=
  beq_iff_eq (α := String)

theorem compare_eq (a b : Object) : compare a b = compare a.name b.name := rfl

theorem hash_eq (o : Object) : hash o = hash o.name := rfl

instance : EquivBEq Object where
  rfl := beq_iff.2 rfl
  symm h := beq_iff.2 (beq_iff.1 h).symm
  trans h h' := beq_iff.2 ((beq_iff.1 h).trans (beq_iff.1 h'))

instance : LawfulHashable Object where
  hash_eq a b h := by rw [hash_eq, hash_eq, beq_iff.1 h]

instance : TransOrd Object := inferInstanceAs (TransCmp (compareOn name))

instance : LawfulBEqOrd Object where
  compare_eq_iff_beq {a b} := by
    rw [beq_iff, compare_eq, Std.compare_eq_iff_eq]

theorem beq_named (o : Object) (token : String) :
    (o == named token) = decide (o.name = token) := by
  rw [Bool.eq_iff_iff, beq_iff, decide_eq_true_eq]
  rfl

theorem compare_named_eq_iff {o : Object} {token : String} :
    compare o (named token) = .eq ↔ o.name = token := by
  rw [compare_eq, Std.compare_eq_iff_eq]
  rfl

/-- The token by which formulas speak of an object. -/
def toFormula (o : Object) : Formula := .leaf o.name

def render (o : Object) : String := o.name ++ " - " ++ o.type

end Object

end PlanLogic
