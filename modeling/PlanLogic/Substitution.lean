import PlanLogic.Object
import PlanLogic.Formula.Shape

/-!
# PlanLogic.Substitution

Putting objects for tokens. An assignment says which tokens have an image; substitution replaces
each argument of a predicate whose word has one by the image's name, as a leaf. It goes through
connectives and the bodies of quantifiers, leaves declarations alone, and does not look below the
arguments of predicates. It is total: applications with an unfitting number of children are treated
child by child like any other.

* `Formula.subst`: substitution.
* `subst_mk`, `subst_apply`: it goes child by child.
* `size_subst_le`: it never adds nodes, so a copy of a quantifier's body is smaller than the
  quantifier.
-/

namespace PlanLogic

/-- Which tokens stand for which objects. -/
abbrev Assignment := String → Option Object

/-- Only the parameter has an image. -/
def Assignment.single (parameter image : Object) : Assignment := fun token =>
  if parameter.name = token then some image else none

namespace Formula

/-- An argument of a predicate is replaced as a whole, or kept as a whole. -/
def substToken (σ : Assignment) (a : Formula) : Formula :=
  match σ a.word with
  | some o => o.toFormula
  | none => a

mutual

def subst (σ : Assignment) : Formula → Formula
  | ⟨w, args⟩ =>
    match Operator.ofWord? w with
    | none => ⟨w, args.map (substToken σ)⟩
    | some op =>
      if op.isQuantifier then
        match args with
        | [] => ⟨w, []⟩
        | declaration :: rest => ⟨w, declaration :: substAll σ rest⟩
      else ⟨w, substAll σ args⟩

def substAll (σ : Assignment) : List Formula → List Formula
  | [] => []
  | a :: as => subst σ a :: substAll σ as

end

theorem substAll_eq_map (σ : Assignment) (fs : List Formula) :
    substAll σ fs = fs.map (subst σ) := by
  induction fs with
  | nil => rfl
  | cons a as ih => rw [substAll, ih, List.map_cons]

/-- Substitution child by child, whatever the number of children. -/
theorem subst_mk (σ : Assignment) (w : String) (args : List Formula) :
    subst σ ⟨w, args⟩ =
      ⟨w, match Operator.ofWord? w with
        | none => args.map (substToken σ)
        | some op =>
          if op.isQuantifier then args.take 1 ++ (args.drop 1).map (subst σ)
          else args.map (subst σ)⟩ := by
  unfold subst
  cases Operator.ofWord? w with
  | none => rfl
  | some op => cases args <;> cases hq : op.isQuantifier <;> simp [hq, substAll_eq_map]

theorem subst_apply {op : Operator} (h : op.isQuantifier = false) (σ : Assignment)
    (args : List Formula) : (apply op args).subst σ = apply op (args.map (subst σ)) := by
  simp [apply, subst_mk, h]

theorem size_substToken_le (σ : Assignment) (a : Formula) : (substToken σ a).size ≤ a.size := by
  unfold substToken
  split
  · exact size_pos a
  · exact Nat.le_refl _

theorem sizeAll_map_le {g : Formula → Formula} {fs : List Formula}
    (h : ∀ a ∈ fs, (g a).size ≤ a.size) : sizeAll (fs.map g) ≤ sizeAll fs := by
  induction fs with
  | nil => exact Nat.le_refl _
  | cons a as ih =>
    simp only [List.map_cons, sizeAll]
    have := h a (.head _)
    have := ih fun b hb => h b (.tail _ hb)
    omega

theorem size_subst_le (σ : Assignment) (f : Formula) : (subst σ f).size ≤ f.size := by
  induction f using induct with
  | step w args ih =>
    unfold subst
    split
    · have := sizeAll_map_le fun a (_ : a ∈ args) => size_substToken_le σ a
      simp only [size]
      omega
    · split
      · split
        · exact Nat.le_refl _
        · rename_i d rest
          rw [substAll_eq_map]
          have := sizeAll_map_le fun a (ha : a ∈ rest) => ih a (.tail _ ha)
          simp only [size, sizeAll]
          omega
      · rw [substAll_eq_map]
        have := sizeAll_map_le ih
        simp only [size]
        omega

end Formula

end PlanLogic
