import PlanLogic.SortedSet

/-!
# PlanLogic.Candidates

A value that is known up to a set of candidates: it is one of them, but which one is open. Merging
takes the union of the candidates, never their combinations.

* `Candidates.single`, `Candidates.ofList`: a settled value, and a choice.
* `Candidates.merge`: one choice out of several; `mem_values_merge` says what it holds.
* `Candidates.render`: a settled value is written bare, any other number of candidates in braces.
-/

namespace PlanLogic

open Std

structure Candidates (α : Type) [Ord α] where
  values : SortedSet α

namespace Candidates

variable {α : Type} [Ord α]

theorem values_inj {c d : Candidates α} : c.values = d.values ↔ c = d := by
  cases c
  cases d
  simp

instance [DecidableEq α] : DecidableEq (Candidates α) := fun _ _ => decidable_of_iff _ values_inj

def single (a : α) : Candidates α := ⟨.single a⟩

def ofList [TransOrd α] (as : List α) : Candidates α := ⟨.ofList as⟩

def merge [TransOrd α] (cs : List (Candidates α)) : Candidates α := ⟨.union (cs.map values)⟩

def toList (c : Candidates α) : List α := c.values.toList

def size (c : Candidates α) : Nat := c.values.size

def isEmpty (c : Candidates α) : Bool := c.toList.isEmpty

/-- Exactly one candidate. -/
def isSettled (c : Candidates α) : Bool := c.size == 1

def contains (c : Candidates α) (a : α) : Bool := c.values.contains a

/-- The written form, given that of a value. -/
def render (write : α → String) (c : Candidates α) : String :=
  match c.toList with
  | [a] => write a
  | as => "\x7b" ++ String.intercalate ", " (as.map write) ++ "\x7d"

/-! ## Membership -/

theorem mem_values_single {a b : α} : b ∈ (single a).values ↔ b = a := SortedSet.mem_single

theorem mem_values_ofList [TransOrd α] [LawfulEqOrd α] {a : α} {as : List α} :
    a ∈ (ofList as).values ↔ a ∈ as :=
  SortedSet.mem_ofList

theorem mem_values_merge [TransOrd α] [LawfulEqOrd α] {a : α} {cs : List (Candidates α)} :
    a ∈ (merge cs).values ↔ ∃ c ∈ cs, a ∈ c.values := by
  rw [merge, SortedSet.mem_union]
  constructor
  · rintro ⟨s, hs, ha⟩
    obtain ⟨c, hc, rfl⟩ := List.mem_map.1 hs
    exact ⟨c, hc, ha⟩
  · rintro ⟨c, hc, ha⟩
    exact ⟨c.values, List.mem_map_of_mem hc, ha⟩

theorem ext_values [TransOrd α] {c d : Candidates α} (h : ∀ a, a ∈ c.values ↔ a ∈ d.values) :
    c = d :=
  values_inj.1 (SortedSet.ext_mem h)

/-! ## Order -/

instance : Ord (Candidates α) := ⟨compareOn values⟩

theorem compare_eq (c d : Candidates α) : compare c d = compare c.toList d.toList := rfl

instance [TransOrd α] : TransOrd (Candidates α) := inferInstanceAs (TransCmp (compareOn values))

instance [LawfulEqOrd α] : LawfulEqOrd (Candidates α) where
  compare_self {c} := ReflOrd.compare_self (a := c.values)
  eq_of_compare h := values_inj.1 (LawfulEqOrd.eq_of_compare (α := SortedSet α) h)

end Candidates

end PlanLogic
