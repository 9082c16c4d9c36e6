import PlanLogic.Formula.Basic

/-!
# PlanLogic.Formula.Order

The order of formulas: by word, then by children, lexicographically with a proper prefix first.
Words are ordered by their code points. The order is total and agrees with equality of trees
(`TransOrd`, `LawfulEqOrd`), which is what sorted containers of formulas rest on.

* `compare_eq`: the order of trees in terms of the order of words and of lists.
* `Formula.hashCode`: a function of the tree, so equal trees have equal codes.
-/

namespace PlanLogic

open Std

namespace Formula

mutual

def cmp : Formula → Formula → Ordering
  | ⟨w, as⟩, ⟨v, bs⟩ => (compare w v).then (cmpAll as bs)

def cmpAll : List Formula → List Formula → Ordering
  | [], [] => .eq
  | [], _ :: _ => .lt
  | _ :: _, [] => .gt
  | a :: as, b :: bs => (cmp a b).then (cmpAll as bs)

end

instance : Ord Formula := ⟨cmp⟩

theorem cmpAll_eq_compare (as bs : List Formula) : cmpAll as bs = compare as bs := by
  induction as generalizing bs with
  | nil => cases bs <;> rfl
  | cons a as ih =>
    cases bs with
    | nil => rfl
    | cons b bs =>
      rw [List.compare_cons_cons, ← ih]
      rfl

theorem compare_eq (f g : Formula) :
    compare f g = (compare f.word g.word).then (compare f.args g.args) := by
  rw [← cmpAll_eq_compare]
  cases f
  cases g
  rfl

mutual

theorem cmp_swap : (f g : Formula) → cmp f g = (cmp g f).swap
  | ⟨w, as⟩, ⟨v, bs⟩ => by
    rw [cmp, cmp, Ordering.swap_then, ← OrientedOrd.eq_swap, ← cmpAll_swap]

theorem cmpAll_swap : (fs gs : List Formula) → cmpAll fs gs = (cmpAll gs fs).swap
  | [], [] => rfl
  | [], _ :: _ => rfl
  | _ :: _, [] => rfl
  | a :: as, b :: bs => by
    rw [cmpAll, cmpAll, Ordering.swap_then, ← cmp_swap a b, ← cmpAll_swap as bs]

end

mutual

theorem eq_of_cmp : (f g : Formula) → cmp f g = .eq → f = g
  | ⟨w, as⟩, ⟨v, bs⟩, h => by
    rw [cmp, Ordering.then_eq_eq] at h
    rw [LawfulEqOrd.eq_of_compare h.1, eq_of_cmpAll as bs h.2]

theorem eq_of_cmpAll : (fs gs : List Formula) → cmpAll fs gs = .eq → fs = gs
  | [], [], _ => rfl
  | [], _ :: _, h => by cases h
  | _ :: _, [], h => by cases h
  | a :: as, b :: bs, h => by
    rw [cmpAll, Ordering.then_eq_eq] at h
    rw [eq_of_cmp a b h.1, eq_of_cmpAll as bs h.2]

end

mutual

theorem cmp_self : (f : Formula) → cmp f f = .eq
  | ⟨w, as⟩ => by
    rw [cmp, ReflOrd.compare_self, cmpAll_self as]
    rfl

theorem cmpAll_self : (fs : List Formula) → cmpAll fs fs = .eq
  | [] => rfl
  | a :: as => by
    rw [cmpAll, cmp_self a, cmpAll_self as]
    rfl

end

instance : OrientedOrd Formula where
  eq_swap := cmp_swap _ _

instance : LawfulEqOrd Formula where
  compare_self := cmp_self _
  eq_of_compare := eq_of_cmp _ _

/-- Lexicographic combination keeps transitivity: `o` is the order of the heads, `p` of the rest. -/
theorem isLE_then_trans {o₁ o₂ o₃ p₁ p₂ p₃ : Ordering}
    (hle : o₁.isLE → o₂.isLE → o₃.isLE)
    (hlt : o₁.isLE → o₂.isLE → o₃ = .eq → o₁ = .eq ∧ o₂ = .eq)
    (hp : p₁.isLE → p₂.isLE → p₃.isLE)
    (h₁ : (o₁.then p₁).isLE) (h₂ : (o₂.then p₂).isLE) : (o₃.then p₃).isLE := by
  cases o₁ <;> cases o₂ <;> cases o₃ <;> simp_all

/-- Of three elements in ascending order, equal ends leave no room in between. -/
theorem eq_of_isLE_of_isLE {α : Type} [Ord α] [OrientedOrd α] [LawfulEqOrd α] {a b c : α}
    (hab : (compare a b).isLE) (hbc : (compare b c).isLE) (hac : compare a c = .eq) :
    compare a b = .eq ∧ compare b c = .eq := by
  cases LawfulEqOrd.eq_of_compare hac
  rw [OrientedOrd.eq_swap (a := b)] at hbc ⊢
  cases h : compare a b <;> simp_all

mutual

theorem cmp_isLE_trans : (f g h : Formula) →
    (cmp f g).isLE → (cmp g h).isLE → (cmp f h).isLE
  | ⟨_, as⟩, ⟨_, bs⟩, ⟨_, cs⟩ =>
    isLE_then_trans TransCmp.isLE_trans eq_of_isLE_of_isLE (cmpAll_isLE_trans as bs cs)

theorem cmpAll_isLE_trans : (fs gs hs : List Formula) →
    (cmpAll fs gs).isLE → (cmpAll gs hs).isLE → (cmpAll fs hs).isLE
  | [], _, [], _, _ => rfl
  | [], _, _ :: _, _, _ => rfl
  | _ :: _, [], _, h, _ => by cases h
  | _ :: _, _ :: _, [], _, h => by cases h
  | a :: as, b :: bs, c :: cs, h, h' =>
    isLE_then_trans (cmp_isLE_trans a b c) (eq_of_isLE_of_isLE (α := Formula))
      (cmpAll_isLE_trans as bs cs) h h'

end

instance : TransOrd Formula where
  isLE_trans := cmp_isLE_trans _ _ _

/-! ## Hashing -/

mutual

def hashCode : Formula → UInt64
  | ⟨w, args⟩ => mixHash (hash w) (hashCodeAll args)

def hashCodeAll : List Formula → UInt64
  | [] => 7
  | a :: as => mixHash (hashCode a) (hashCodeAll as)

end

instance : Hashable Formula := ⟨hashCode⟩

end Formula

end PlanLogic
