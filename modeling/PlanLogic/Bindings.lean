import Std.Data.HashMap.Lemmas
import Std.Data.TreeMap.Lemmas
import PlanLogic.Substitution

/-!
# PlanLogic.Bindings

Finite assignments in their containers: a single binding, and maps from parameters to objects. A
parameter is found by its name, whatever its type. Maps are filled in order, so of several bindings
of one name the last counts.

* `Assignment.ofBindings`: the assignment of a list of bindings.
* `image_toHashMap`, `image_toTreeMap`: both maps have that assignment.
* `FiniteBindings`: containers that have the assignment of a list of entries, as all three have.
-/

namespace PlanLogic

structure Binding where
  parameter : Object
  image : Object
  deriving DecidableEq, Repr

/-- A token has the image of the last binding of its name. -/
def Assignment.ofBindings (bs : List Binding) : Assignment := fun token =>
  (bs.reverse.find? (fun b => b.parameter.name = token)).map Binding.image

class Bindings (β : Type) where
  image : β → Assignment

namespace Bindings

instance : Bindings Binding :=
  ⟨fun b => Assignment.single b.parameter b.image⟩

instance : Bindings (Std.HashMap Object Object) := ⟨fun m token => m[Object.named token]?⟩

instance : Bindings (Std.TreeMap Object Object) := ⟨fun m token => m[Object.named token]?⟩

def toHashMap (bs : List Binding) : Std.HashMap Object Object :=
  bs.foldl (fun m b => m.insert b.parameter b.image) ∅

def toTreeMap (bs : List Binding) : Std.TreeMap Object Object :=
  bs.foldl (fun m b => m.insert b.parameter b.image) ∅

theorem image_single (b : Binding) : image b = Assignment.ofBindings [b] := by
  funext token
  by_cases h : b.parameter.name = token <;>
    simp [image, Assignment.single, Assignment.ofBindings, h]

/-- Filling a container, when a further binding covers the earlier ones of its name. -/
theorem image_foldl {β : Type} [Bindings β] {put : β → Binding → β}
    (h : ∀ m b token, image (put m b) token =
      if b.parameter.name = token then some b.image else image m token)
    (bs : List Binding) (m : β) (token : String) :
    image (bs.foldl put m) token = (Assignment.ofBindings bs token).or (image m token) := by
  induction bs generalizing m with
  | nil => rfl
  | cons b bs ih =>
    rw [List.foldl_cons, ih, h]
    by_cases hb : b.parameter.name = token <;>
      simp [Assignment.ofBindings, List.find?_append, hb]

theorem image_toHashMap (bs : List Binding) : image (toHashMap bs) = Assignment.ofBindings bs := by
  funext token
  have h : ∀ (m : Std.HashMap Object Object) (b : Binding) (token : String),
      image (m.insert b.parameter b.image) token =
        if b.parameter.name = token then some b.image else image m token := by
    intro m b token
    simp [image, Std.HashMap.getElem?_insert, Object.beq_named]
  rw [toHashMap, image_foldl h]
  simp [image]

theorem image_toTreeMap (bs : List Binding) : image (toTreeMap bs) = Assignment.ofBindings bs := by
  funext token
  have h : ∀ (m : Std.TreeMap Object Object) (b : Binding) (token : String),
      image (m.insert b.parameter b.image) token =
        if b.parameter.name = token then some b.image else image m token := by
    intro m b token
    simp [image, Std.TreeMap.getElem?_insert, Object.compare_named_eq_iff]
  rw [toTreeMap, image_foldl h]
  simp [image]

end Bindings

/-! ## Entries -/

namespace Assignment

theorem ofBindings_append (bs cs : List Binding) (token : String) :
    ofBindings (bs ++ cs) token = (ofBindings cs token).or (ofBindings bs token) := by
  simp [ofBindings, List.find?_append, Option.map_or]

theorem ofBindings_map_image (g : Object → Object) (bs : List Binding) (token : String) :
    ofBindings (bs.map fun b => { b with image := g b.image }) token =
      (ofBindings bs token).map g := by
  simp [ofBindings, ← List.map_reverse, List.find?_map, Function.comp_def]

/-- Looking up the entries of a map from their end, when the bindings are in reverse. -/
theorem ofBindings_reverse (entries : List (Object × Object)) (token : String) :
    ofBindings (entries.map fun e => ⟨e.1, e.2⟩).reverse token =
      (entries.find? fun e => e.1.name = token).map Prod.snd := by
  simp [ofBindings, List.find?_map, Function.comp_def]

end Assignment

/-- A container of finitely many bindings: its assignment is that of a list. -/
class FiniteBindings (β : Type) extends Bindings β where
  entries : β → List Binding
  image_eq : ∀ b, image b = Assignment.ofBindings (entries b)

namespace FiniteBindings

instance : FiniteBindings Binding where
  entries b := [b]
  image_eq := Bindings.image_single

instance : FiniteBindings (Std.HashMap Object Object) where
  entries m := (m.toList.map fun e => ⟨e.1, e.2⟩).reverse
  image_eq m := by
    funext token
    simp only [Assignment.ofBindings_reverse, ← Object.beq_named]
    cases h : m.toList.find? (fun e => e.1 == Object.named token) with
    | none =>
      exact Std.HashMap.getElem?_eq_none_of_contains_eq_false
        (Std.HashMap.find?_toList_eq_none_iff_contains_eq_false.1 h)
    | some e =>
      exact (Std.HashMap.find?_toList_eq_some_iff_getKey?_eq_some_and_getElem?_eq_some.1 h).2

instance : FiniteBindings (Std.TreeMap Object Object) where
  entries m := (m.toList.map fun e => ⟨e.1, e.2⟩).reverse
  image_eq m := by
    funext token
    have hfind : (fun e : Object × Object => decide (e.1.name = token)) =
        fun e => compare e.1 (Object.named token) == .eq := by
      funext e
      rw [Bool.eq_iff_iff, decide_eq_true_eq, beq_iff_eq, Object.compare_named_eq_iff]
    rw [Assignment.ofBindings_reverse, hfind]
    cases h : m.toList.find? (fun e => compare e.1 (Object.named token) == .eq) with
    | none =>
      exact Std.TreeMap.getElem?_eq_none_of_contains_eq_false
        (Std.TreeMap.find?_toList_eq_none_iff_contains_eq_false.1 h)
    | some e =>
      exact (Std.TreeMap.find?_toList_eq_some_iff_getKey?_eq_some_and_getElem?_eq_some.1 h).2

end FiniteBindings

end PlanLogic
