import PlanLogic.Bindings
import PlanLogic.Proofs.Scopes

/-!
# PlanLogic.Proofs.Composition

One substitution after another. The second one finds the words that the first has put in, so the two
together are a single substitution whose images are looked up twice.

* `Assignment.andThen`: this substitution; `subst_subst` says that it is the two together.
* `FiniteBindings.compose`: two containers of bindings made into a single map; `subst_compose` says
  that it has these images, and that it is the two together.
* `Scope.Apart`: neither of two bindings is for a word that the other one knows. Then their order
  does not matter (`subst_comm`).
* `close_cons_eq_snoc`: a binding that is apart from all others may be made last instead of first.
-/

namespace PlanLogic

/-- An image of the first assignment stays as it is unless the second one has an image for it. -/
def Assignment.andThen (σ τ : Assignment) : Assignment := fun token =>
  match σ token with
  | some o => some ((τ o.name).getD o)
  | none => τ token

namespace Formula

theorem substToken_substToken (σ τ : Assignment) (a : Formula) :
    (a.substToken σ).substToken τ = a.substToken (σ.andThen τ) := by
  cases hσ : σ a.word with
  | none => simp [substToken, Assignment.andThen, hσ]
  | some o =>
    cases hτ : τ o.name <;> simp [substToken, Assignment.andThen, Object.toFormula, leaf, hσ, hτ]

theorem subst_subst (σ τ : Assignment) (f : Formula) :
    (f.subst σ).subst τ = f.subst (σ.andThen τ) := by
  have htokens : substToken τ ∘ substToken σ = substToken (σ.andThen τ) :=
    funext (substToken_substToken σ τ)
  simp only [subst_eq_mapTokens, mapTokens_mapTokens, htokens]

end Formula

/-! ## Containers -/

namespace FiniteBindings

open Bindings

variable {β γ : Type} [FiniteBindings β] [FiniteBindings γ]

/-- The bindings of `t`, and over them those of `s` with their images looked up in `t`. -/
def compose (s : β) (t : γ) : Std.HashMap Object Object :=
  toHashMap (entries t ++
    (entries s).map fun b => { b with image := (image t b.image.name).getD b.image })

theorem image_compose (s : β) (t : γ) : image (compose s t) = (image s).andThen (image t) := by
  funext token
  rw [compose, image_toHashMap, Assignment.ofBindings_append, Assignment.andThen,
    Assignment.ofBindings_map_image fun o => (image t o.name).getD o, ← image_eq, ← image_eq]
  cases image s token <;> rfl

/-- Bindings in two containers compose to a finite map. A token that the first one knows goes to the
image of the image, or to the image itself if the second one does not know that; any other token
goes where the second one sends it. Substituting for this map is substituting for the first and then
for the second, in every formula. -/
theorem subst_compose (s : β) (t : γ) :
    (∀ token, image (compose s t) token =
      match image s token with
      | some o =>
        match image t o.name with
        | some o' => some o'
        | none => some o
      | none => image t token) ∧
      ∀ f : Formula, (f.subst (image s)).subst (image t) = f.subst (image (compose s t)) := by
  constructor
  · intro token
    rw [image_compose, Assignment.andThen]
    cases image s token with
    | none => rfl
    | some o => cases h : image t o.name <;> simp [h]
  · intro f
    rw [image_compose, Formula.subst_subst]

end FiniteBindings

namespace Scope

/-- Neither binding is for a word that the other one knows, as its parameter or as its object. -/
structure Apart (s t : Scope) : Prop where
  parameters : s.parameter ≠ t.parameter
  left : s.object ≠ t.parameter
  right : t.object ≠ s.parameter

theorem Apart.andThen_comm {s t : Scope} (h : Apart s t) (token : String) :
    (s.assignment.andThen t.assignment) token = (t.assignment.andThen s.assignment) token := by
  have hp := h.parameters
  have hl := h.left
  have hr := h.right
  by_cases hs : s.parameter = token
  · have ht : t.parameter ≠ token := fun e => hp (hs.trans e.symm)
    simp [Assignment.andThen, assignment, Assignment.single, Object.named, hs, ht, hl.symm]
  · by_cases ht : t.parameter = token
    · simp [Assignment.andThen, assignment, Assignment.single, Object.named, hs, ht, hr.symm]
    · simp [Assignment.andThen, assignment, Assignment.single, Object.named, hs, ht]

end Scope

namespace Formula

theorem subst_comm {s t : Scope} (h : s.Apart t) (f : Formula) :
    (f.subst s.assignment).subst t.assignment = (f.subst t.assignment).subst s.assignment := by
  rw [subst_subst, subst_subst]
  exact subst_congr (fun token => by rw [h.andThen_comm]) f

theorem close_apply {op : Operator} (h : op.isQuantifier = false) (ρ : Scopes)
    (args : List Formula) : (apply op args).close ρ = apply op (args.map (close ρ)) := by
  induction ρ generalizing args with
  | nil => simp [show close [] = id from rfl]
  | cons s ρ ih =>
    rw [close_cons, subst_apply h, ih, List.map_map]
    rfl

theorem close_cons_eq_snoc {s : Scope} {ρ : Scopes} (h : ∀ t ∈ ρ, s.Apart t) (f : Formula) :
    f.close (s :: ρ) = f.close (ρ ++ [s]) := by
  induction ρ generalizing f with
  | nil => rfl
  | cons t ρ ih =>
    have hρ := ih fun u hu => h u (.tail _ hu)
    calc f.close (s :: t :: ρ)
        = ((f.subst t.assignment).subst s.assignment).close ρ := by
          rw [close_cons, close_cons, subst_comm (h t (.head _))]
      _ = (f.subst t.assignment).close (ρ ++ [s]) := hρ _
      _ = f.close (t :: ρ ++ [s]) := rfl

end Formula

end PlanLogic
