import Std.Data.TreeSet.Lemmas
import PlanLogic.Object

/-!
# PlanLogic.Fact

Facts are formulas that are believed true. Any formula may be one; usually it is a predicate over
the names of objects. Facts compare and hash like their formulas. Tasks are units of work, such as
goals and instances of actions, and have names of objects for parameters.

Both speak of objects, and can be found when an object leaves the world. A fact mentions an object
iff the object's name is a direct argument of the fact's positive statement. The name of the
predicate is no argument. A task mentions its parameters.

* `Fact.positive`: the statement that a negated fact denies. One negation is unwrapped, no more.
* `Fact.mentionsAny`: several objects at once, by way of the set of their names
  (`mentionsAny_iff`).
-/

namespace PlanLogic

open Std

structure Fact where
  formula : Formula
  deriving DecidableEq, Repr, Inhabited

namespace Fact

def ofPredicate (name : String) (tokens : List String) : Fact := ⟨.predicate name tokens⟩

def negated (fact : Fact) : Fact := ⟨.not fact.formula⟩

/-- The `n`-fold negation. -/
def negatedTimes : Nat → Fact → Fact
  | 0, fact => fact
  | n + 1, fact => negatedTimes n fact.negated

/-- Headed by the word of negation, whatever the number of children. -/
def isNegated (fact : Fact) : Bool := fact.formula.node == .operator .not

def positive (fact : Fact) : Formula :=
  if fact.isNegated then fact.formula.args.head?.getD fact.formula else fact.formula

instance : Ord Fact := ⟨compareOn formula⟩

instance : Hashable Fact := ⟨fun fact => hash fact.formula⟩

theorem compare_eq (a b : Fact) : compare a b = compare a.formula b.formula := rfl

instance : TransOrd Fact := inferInstanceAs (TransCmp (compareOn formula))

instance : LawfulEqOrd Fact where
  compare_self {a} := ReflOrd.compare_self (a := a.formula)
  eq_of_compare {a b} h := by
    cases a
    cases b
    cases LawfulEqOrd.eq_of_compare (α := Formula) h
    rfl

theorem isNegated_iff {fact : Fact} :
    fact.isNegated = true ↔ fact.formula.word = Operator.word .not := by
  simp [isNegated, Formula.node_eq_operator_iff]

@[simp] theorem positive_negated (fact : Fact) : fact.negated.positive = fact.formula := by
  simp [positive, isNegated, negated, Formula.not]

/-! ## Mentioned objects -/

def mentionsAny (fact : Fact) (objects : List Object) : Bool :=
  let names := Std.TreeSet.ofList (objects.map Object.name)
  fact.positive.args.any (fun a => names.contains a.word)

theorem mentionsAny_iff {fact : Fact} {objects : List Object} :
    fact.mentionsAny objects = true ↔
      ∃ a ∈ fact.positive.args, ∃ o ∈ objects, o.name = a.word := by
  simp [mentionsAny, Std.TreeSet.contains_ofList]

def mentions (fact : Fact) (o : Object) : Bool := fact.mentionsAny [o]

end Fact

/-! ## Tasks -/

structure Task where
  name : String
  parameters : List String
  deriving DecidableEq, Repr, Inhabited

def Task.mentions (task : Task) (o : Object) : Bool := task.parameters.contains o.name

end PlanLogic
