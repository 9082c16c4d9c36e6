/-!
# PlanLogic.SortedSet

Finite sets as strictly ascending lists. There is one list per set, so sets are equal iff their
lists are, and comparing lists lexicographically compares sets.

* `SortedSet.insert`: an element that is there already, as far as the order can tell, stays
  (`insert_of_contains`).
* `SortedSet.union`, `SortedSet.ofList`: of elements that compare equal a union keeps the first, and
  the set of a list the last.
* `mem_ofList`, `mem_union`, `ext_mem`: if the order agrees with equality it makes no difference
  which of them is kept, and nothing but its elements tells a set apart from others.
-/

namespace PlanLogic

open Std

structure SortedSet (α : Type) [Ord α] where
  toList : List α
  ascending : toList.Pairwise (fun a b => compare a b = .lt)

namespace SortedSet

variable {α : Type} [Ord α]

theorem toList_inj {s t : SortedSet α} : s.toList = t.toList ↔ s = t := by
  cases s
  cases t
  simp

instance [DecidableEq α] : DecidableEq (SortedSet α) := fun _ _ => decidable_of_iff _ toList_inj

instance : Membership α (SortedSet α) := ⟨fun s a => a ∈ s.toList⟩

theorem mem_toList {a : α} {s : SortedSet α} : a ∈ s.toList ↔ a ∈ s := Iff.rfl

def empty : SortedSet α := ⟨[], .nil⟩

def single (a : α) : SortedSet α := ⟨[a], List.pairwise_singleton _ _⟩

/-- Puts `a` in its place in an ascending list, unless there is an equal element. -/
def insertList (a : α) : List α → List α
  | [] => [a]
  | b :: bs =>
    match compare a b with
    | .lt => a :: b :: bs
    | .eq => b :: bs
    | .gt => b :: insertList a bs

theorem mem_of_mem_insertList {a c : α} {bs : List α} (h : c ∈ insertList a bs) :
    c = a ∨ c ∈ bs := by
  induction bs with
  | nil => exact .inl (List.mem_singleton.1 h)
  | cons b bs ih =>
    unfold insertList at h
    split at h
    · exact List.mem_cons.1 h
    · exact .inr h
    · cases h with
      | head => exact .inr (.head _)
      | tail _ h => exact (ih h).imp id (.tail _)

theorem ascending_insertList [TransOrd α] {a : α} {bs : List α}
    (h : bs.Pairwise (fun a b => compare a b = .lt)) :
    (insertList a bs).Pairwise (fun a b => compare a b = .lt) := by
  induction bs with
  | nil => exact List.pairwise_singleton _ _
  | cons b bs ih =>
    obtain ⟨hb, hbs⟩ := List.pairwise_cons.1 h
    unfold insertList
    split
    · rename_i hab
      refine .cons ?_ h
      intro c hc
      cases hc with
      | head => exact hab
      | tail _ hc => exact TransCmp.lt_trans hab (hb c hc)
    · exact h
    · rename_i hab
      refine .cons ?_ (ih hbs)
      intro c hc
      cases mem_of_mem_insertList hc with
      | inl h =>
        rw [h, OrientedOrd.eq_swap, hab]
        rfl
      | inr h => exact hb c h

def insert [TransOrd α] (a : α) (s : SortedSet α) : SortedSet α :=
  ⟨insertList a s.toList, ascending_insertList s.ascending⟩

/-- Inserts the elements of a list, the last of them first. -/
def ofList [TransOrd α] (as : List α) : SortedSet α := as.foldr insert empty

/-- Inserts the elements of a list, the first of them first. -/
def extend [TransOrd α] (s : SortedSet α) (as : List α) : SortedSet α :=
  as.foldl (fun s a => s.insert a) s

def union [TransOrd α] (sets : List (SortedSet α)) : SortedSet α :=
  sets.foldl (fun s t => s.extend t.toList) empty

def size (s : SortedSet α) : Nat := s.toList.length

def contains (s : SortedSet α) (a : α) : Bool := s.toList.any (fun b => compare a b == .eq)

theorem insertList_of_compare_eq [TransOrd α] {a c : α} {bs : List α}
    (h : bs.Pairwise (fun a b => compare a b = .lt)) (hc : c ∈ bs) (hac : compare a c = .eq) :
    insertList a bs = bs := by
  induction bs with
  | nil => cases hc
  | cons b bs ih =>
    obtain ⟨hb, hbs⟩ := List.pairwise_cons.1 h
    unfold insertList
    split
    · -- everything from `b` on is above `a`, so `c` cannot be there
      rename_i hab
      have hlt : compare a c = .lt := by
        cases hc with
        | head => exact hab
        | tail _ hc => exact TransCmp.lt_trans hab (hb c hc)
      rw [hac] at hlt
      cases hlt
    · rfl
    · rename_i hab
      cases hc with
      | head =>
        rw [hac] at hab
        cases hab
      | tail _ hc => rw [ih hbs hc]

theorem insert_of_contains [TransOrd α] {a : α} {s : SortedSet α} (h : s.contains a = true) :
    s.insert a = s := by
  obtain ⟨c, hc, hac⟩ := List.any_eq_true.1 h
  exact toList_inj.1 (insertList_of_compare_eq s.ascending hc (beq_iff_eq.1 hac))

/-! ## Membership -/

theorem not_mem_empty (c : α) : c ∉ (empty : SortedSet α) := List.not_mem_nil

theorem mem_single {a c : α} : c ∈ single a ↔ c = a := List.mem_singleton

theorem mem_insertList [LawfulEqOrd α] {a c : α} {bs : List α} :
    c ∈ insertList a bs ↔ c = a ∨ c ∈ bs := by
  induction bs with
  | nil => simp [insertList]
  | cons b bs ih =>
    unfold insertList
    split
    · exact List.mem_cons
    · rename_i h
      rw [LawfulEqOrd.eq_of_compare h]
      simp
    · rw [List.mem_cons, ih, List.mem_cons, or_left_comm]

theorem mem_insert [TransOrd α] [LawfulEqOrd α] {a c : α} {s : SortedSet α} :
    c ∈ s.insert a ↔ c = a ∨ c ∈ s :=
  mem_insertList

theorem mem_ofList [TransOrd α] [LawfulEqOrd α] {c : α} {as : List α} :
    c ∈ ofList as ↔ c ∈ as := by
  induction as with
  | nil => exact iff_of_false (not_mem_empty c) List.not_mem_nil
  | cons a as ih =>
    rw [List.mem_cons, ← ih]
    exact mem_insert

theorem mem_extend [TransOrd α] [LawfulEqOrd α] {c : α} {as : List α} {s : SortedSet α} :
    c ∈ s.extend as ↔ c ∈ s ∨ c ∈ as := by
  induction as generalizing s with
  | nil => exact (or_iff_left List.not_mem_nil).symm
  | cons a as ih =>
    have hrest : c ∈ s.extend (a :: as) ↔ c ∈ s.insert a ∨ c ∈ as := ih
    rw [hrest, mem_insert, List.mem_cons, or_assoc, or_left_comm]

theorem mem_union [TransOrd α] [LawfulEqOrd α] {c : α} {sets : List (SortedSet α)} :
    c ∈ union sets ↔ ∃ s ∈ sets, c ∈ s := by
  have hfold : ∀ s : SortedSet α,
      c ∈ sets.foldl (fun s t => s.extend t.toList) s ↔ c ∈ s ∨ ∃ t ∈ sets, c ∈ t := by
    induction sets with
    | nil => simp
    | cons t sets ih =>
      intro s
      rw [List.foldl_cons, ih, mem_extend, mem_toList, or_assoc]
      simp only [List.mem_cons, exists_eq_or_imp]
  rw [union, hfold]
  exact or_iff_right (not_mem_empty c)

theorem contains_iff [LawfulEqOrd α] {a : α} {s : SortedSet α} : s.contains a = true ↔ a ∈ s := by
  simp [contains, ← mem_toList]

/-- Ascending lists with the same elements are the same. -/
theorem eq_of_ascending [TransOrd α] {as bs : List α}
    (has : as.Pairwise (fun a b => compare a b = .lt))
    (hbs : bs.Pairwise (fun a b => compare a b = .lt)) (h : ∀ c, c ∈ as ↔ c ∈ bs) : as = bs := by
  induction as generalizing bs with
  | nil =>
    cases bs with
    | nil => rfl
    | cons b bs => exact absurd ((h b).2 (.head _)) List.not_mem_nil
  | cons a as ih =>
    cases bs with
    | nil => exact absurd ((h a).1 (.head _)) List.not_mem_nil
    | cons b bs =>
      obtain ⟨ha, has'⟩ := List.pairwise_cons.1 has
      obtain ⟨hb, hbs'⟩ := List.pairwise_cons.1 hbs
      have hab : a = b := by
        cases (h a).1 (.head _) with
        | head => rfl
        | tail _ hab =>
          cases (h b).2 (.head _) with
          | head => rfl
          | tail _ hba => exact absurd (TransCmp.lt_trans (ha b hba) (hb a hab)) (by simp)
      cases hab
      refine congrArg (a :: ·) (ih has' hbs' fun c => ?_)
      constructor
      · intro hc
        cases (h c).1 (.tail _ hc) with
        | head => exact absurd (ha a hc) (by simp)
        | tail _ hc => exact hc
      · intro hc
        cases (h c).2 (.tail _ hc) with
        | head => exact absurd (hb a hc) (by simp)
        | tail _ hc => exact hc

theorem ext_mem [TransOrd α] {s t : SortedSet α} (h : ∀ c, c ∈ s ↔ c ∈ t) : s = t :=
  toList_inj.1 (eq_of_ascending s.ascending t.ascending h)

@[simp] theorem union_singleton [TransOrd α] [LawfulEqOrd α] (s : SortedSet α) : union [s] = s :=
  ext_mem fun c => by simp [mem_union]

/-! ## Order -/

instance : Ord (SortedSet α) := ⟨compareOn toList⟩

theorem compare_eq (s t : SortedSet α) : compare s t = compare s.toList t.toList := rfl

instance [TransOrd α] : TransOrd (SortedSet α) := inferInstanceAs (TransCmp (compareOn toList))

instance [LawfulEqOrd α] : LawfulEqOrd (SortedSet α) where
  compare_self {s} := ReflOrd.compare_self (a := s.toList)
  eq_of_compare h := toList_inj.1 (LawfulEqOrd.eq_of_compare (α := List α) h)

end SortedSet

end PlanLogic
