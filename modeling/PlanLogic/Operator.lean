/-!
# PlanLogic.Operator

The reserved words of the formula language: negation, the two junctions, the two conditionals
and the two quantifiers, each with the number of children that it takes.

* `Operator.word`, `Operator.ofWord?`: spelling and reading. Reading inverts spelling
  (`ofWord?_eq_some_iff`), so no two operators share a word.
* `Operator.arity`, `Arity.admits`: how many children an application may have.
* `Junction`: the common shape of `and`/`forall` and of `or`/`exists`. A quantifier is the
  junction of its copies, so each rule for one is a rule for the other.
* the order of operators is the order of the declaration (`Operator.rank`).
-/

namespace PlanLogic

open Std

/-- A demand on the number of children of an application. -/
inductive Arity where
  | exactly (n : Nat)
  | atLeast (n : Nat)
  deriving DecidableEq, Repr

namespace Arity

def admits : Arity → Nat → Bool
  | exactly n, count => count == n
  | atLeast n, count => n ≤ count

def render : Arity → String
  | exactly n => "exactly " ++ toString n
  | atLeast n => "at least " ++ toString n

@[simp] theorem admits_exactly {n count : Nat} : (exactly n).admits count = true ↔ count = n := by
  simp [admits]

@[simp] theorem admits_atLeast {n count : Nat} : (atLeast n).admits count = true ↔ n ≤ count := by
  simp [admits]

end Arity

inductive Operator where
  | not
  | and
  | or
  | imply
  | when
  | forAll
  | forSome
  deriving DecidableEq, Repr

namespace Operator

/-- Every operator, in ascending order. -/
def all : List Operator := [not, and, or, imply, when, forAll, forSome]

def word : Operator → String
  | not => "not"
  | and => "and"
  | or => "or"
  | imply => "imply"
  | when => "when"
  | forAll => "forall"
  | forSome => "exists"

/-- Reads a reserved word. Spelling is exact: case and blanks count. -/
def ofWord? (w : String) : Option Operator :=
  all.find? (fun op => op.word = w)

def arity : Operator → Arity
  | not => .exactly 1
  | and | or => .atLeast 0
  | imply | when => .exactly 2
  | forAll | forSome => .exactly 2

def isQuantifier : Operator → Bool
  | forAll | forSome => true
  | _ => false

/-- The position of an operator in `all`. -/
def rank : Operator → Nat
  | not => 0
  | and => 1
  | or => 2
  | imply => 3
  | when => 4
  | forAll => 5
  | forSome => 6

instance : Ord Operator := ⟨compareOn rank⟩

instance : TransOrd Operator := inferInstanceAs (TransCmp (compareOn rank))

instance : LawfulEqOrd Operator where
  eq_of_compare {a b} := by cases a <;> cases b <;> decide

instance : Hashable Operator := ⟨fun op => hash op.rank⟩

theorem mem_all (op : Operator) : op ∈ all := by
  cases op <;> decide

theorem word_inj {a b : Operator} (h : a.word = b.word) : a = b := by
  revert h
  cases a <;> cases b <;> decide

theorem ofWord?_eq_some_iff {w : String} {op : Operator} : ofWord? w = some op ↔ op.word = w := by
  constructor
  · intro h
    simpa using List.find?_some h
  · rintro rfl
    cases op <;> decide

@[simp] theorem ofWord?_word (op : Operator) : ofWord? op.word = some op :=
  ofWord?_eq_some_iff.2 rfl

theorem ofWord?_eq_none_iff {w : String} : ofWord? w = none ↔ ∀ op : Operator, op.word ≠ w := by
  simp [ofWord?, mem_all]

/-- No operator is spelled by the empty word. -/
theorem word_ne_empty (op : Operator) : op.word ≠ "" := by
  cases op <;> decide

end Operator

/-- `all` holds unless a part fails, `any` fails unless a part holds. -/
inductive Junction where
  | all
  | any
  deriving DecidableEq, Repr

namespace Junction

/-- The connective that joins listed parts. -/
def connective : Junction → Operator
  | all => .and
  | any => .or

/-- The quantifier that joins the copies of a body. -/
def quantifier : Junction → Operator
  | all => .forAll
  | any => .forSome

/-- The truth value of a part that settles the whole. -/
def decisive : Junction → Bool
  | all => false
  | any => true

def dual : Junction → Junction
  | all => any
  | any => all

theorem isQuantifier_connective (j : Junction) : j.connective.isQuantifier = false := by
  cases j <;> rfl

end Junction

end PlanLogic
