import PlanLogic.Text.WordChar
import PlanLogic.Object
import PlanLogic.Formula.Shape

/-!
# PlanLogic.Declaration

Declarations of parameters: `name - type` and nothing else. A name consists of word characters and
question marks, a type of word characters, and neither is empty. Which characters count as word
characters is left open until a declaration is read for a parameter. The grammar needs no more of
them than that the blank is not among them, for then a name ends where the first blank is.

* `Spelled`: a name and a type, over any word characters.
* `splitDeclaration_eq_some_iff`: the grammar.
* `Object.ofDeclaration?`: reads a declaration; `Object.render` writes it.
* `Formula.parameter`: the parameter that the word of a formula declares.
-/

namespace PlanLogic

/-! ## The grammar -/

section Grammar

variable (W : Char → Bool)

def isNameChar (c : Char) : Bool := c == '?' || W c

/-- A name and a type over the word characters `W`. -/
structure Spelled (name type : List Char) : Prop where
  name_ne : name ≠ []
  type_ne : type ≠ []
  name_chars : ∀ c ∈ name, isNameChar W c = true
  type_chars : ∀ c ∈ type, W c = true

/-- Cuts a declaration into name and type. -/
def splitDeclaration (cs : List Char) : Option (List Char × List Char) :=
  match cs.dropWhile (isNameChar W) with
  | ' ' :: '-' :: ' ' :: type =>
    let name := cs.takeWhile (isNameChar W)
    if name ≠ [] ∧ type ≠ [] ∧ type.all W then some (name, type) else none
  | _ => none

variable {W}

theorem isNameChar_iff {c : Char} : isNameChar W c = true ↔ W c = true ∨ c = '?' := by
  rw [isNameChar, Bool.or_eq_true, beq_iff_eq, or_comm]

theorem splitDeclaration_eq_some_iff (hblank : W ' ' = false) {cs name type : List Char} :
    splitDeclaration W cs = some (name, type) ↔
      cs = name ++ ' ' :: '-' :: ' ' :: type ∧ Spelled W name type := by
  constructor
  · intro h
    unfold splitDeclaration at h
    split at h
    · rename_i rest heq
      have hcs := List.takeWhile_append_dropWhile (p := isNameChar W) (l := cs)
      rw [heq] at hcs
      simp only [Option.ite_none_right_eq_some, Option.some.injEq, Prod.mk.injEq] at h
      obtain ⟨⟨hname, htype, hword⟩, rfl, rfl⟩ := h
      exact ⟨hcs.symm, hname, htype, List.all_eq_true.1 List.all_takeWhile,
        List.all_eq_true.1 hword⟩
    · cases h
  · rintro ⟨rfl, hname, htype, hn, hw⟩
    have hspace : isNameChar W ' ' = false := hblank
    simp [splitDeclaration, List.dropWhile_append_of_pos hn, List.takeWhile_append_of_pos hn,
      hspace, hname, htype]
    exact hw

end Grammar

/-! ## Reading parameters -/

open Text

def Object.ofDeclaration? (text : String) : Option Object :=
  match splitDeclaration isWordChar text.toList with
  | some (name, type) => some ⟨.ofList name, .ofList type⟩
  | none => none

def Formula.parameter (f : Formula) : Except Defect Object :=
  match Object.ofDeclaration? f.word with
  | some p => .ok p
  | none => .error (.declaration f.word)

end PlanLogic
