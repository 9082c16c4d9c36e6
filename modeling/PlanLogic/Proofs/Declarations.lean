import Mathlib.Data.List.Basic
import PlanLogic.Declaration

/-!
# PlanLogic.Proofs.Declarations

Declarations are written like objects. Every object can be written, but one with a blank in its name
or a hyphen in its type cannot be declared, so reading and writing are inverse to each other on the
objects that can.

* `Spelled.cut_unique`: a declaration can be cut in one way only, whatever the word characters, as
  long as the hyphen is not among them.
* `Object.Declarable`: what names and types must be made of.
* `Object.render_inj`: no other object is written like a declarable one.
* `Formula.parameter_eq_ok_iff`, `Formula.parameter_eq_error_iff`: what is read, and what refused.
* `parameter_inverts_render`: the grammar, with both directions between texts and objects.
-/

namespace PlanLogic

open Text

namespace Spelled

variable {W : Char → Bool} {name type : List Char}

/-- A declaration's only hyphen is the one between the blanks, so it can be cut at no other place,
whatever the pieces. -/
theorem cut_unique (hhyphen : W '-' = false) (h : Spelled W name type) {name' type' : List Char}
    (hcut : name' ++ ' ' :: '-' :: ' ' :: type' = name ++ ' ' :: '-' :: ' ' :: type) :
    name' = name ∧ type' = type := by
  have hleft : '-' ∉ name ++ [' '] := by
    intro hc
    rcases List.mem_append.1 hc with hc | hc
    · have hchar : W '-' = true := by simpa [isNameChar] using h.name_chars _ hc
      exact absurd hchar (by simp [hhyphen])
    · exact absurd hc (by decide)
  have hright : '-' ∉ ' ' :: type := by
    intro hc
    rcases List.mem_cons.1 hc with hc | hc
    · exact absurd hc (by decide)
    · exact absurd (h.type_chars _ hc) (by simp [hhyphen])
  have hparts : (name ++ [' ']) ++ '-' :: (' ' :: type) =
      (name' ++ [' ']) ++ '-' :: (' ' :: type') := by
    simpa using hcut.symm
  obtain ⟨hn, -, ht⟩ := (List.append_cons_inj_of_notMem hleft hright).1 hparts
  exact ⟨(List.append_cancel_right hn).symm, (List.cons.inj ht).2.symm⟩

theorem iff_all : Spelled W name type ↔
    name ≠ [] ∧ type ≠ [] ∧ name.all (isNameChar W) ∧ type.all W := by
  rw [List.all_eq_true, List.all_eq_true]
  constructor
  · intro h
    exact ⟨h.name_ne, h.type_ne, h.name_chars, h.type_chars⟩
  · rintro ⟨hname, htype, hn, ht⟩
    exact ⟨hname, htype, hn, ht⟩

instance : Decidable (Spelled W name type) := decidable_of_iff _ iff_all.symm

end Spelled

namespace Object

/-- A name and a type as declarations have them. -/
structure Declarable (o : Object) : Prop where
  name_ne : o.name ≠ ""
  type_ne : o.type ≠ ""
  name_chars : ∀ c ∈ o.name.toList, isWordChar c = true ∨ c = '?'
  type_chars : ∀ c ∈ o.type.toList, isWordChar c = true

theorem toList_render (o : Object) :
    o.render.toList = o.name.toList ++ ' ' :: '-' :: ' ' :: o.type.toList := by
  simp [render]

theorem declarable_iff {o : Object} :
    o.Declarable ↔ Spelled isWordChar o.name.toList o.type.toList := by
  constructor
  · intro h
    exact ⟨by simpa using h.name_ne, by simpa using h.type_ne,
      fun c hc => isNameChar_iff.2 (h.name_chars c hc), h.type_chars⟩
  · intro h
    exact ⟨by simpa using h.name_ne, by simpa using h.type_ne,
      fun c hc => isNameChar_iff.1 (h.name_chars c hc), h.type_chars⟩

instance (o : Object) : Decidable o.Declarable := decidable_of_iff _ declarable_iff.symm

theorem ofDeclaration?_eq_some_iff {text : String} {o : Object} :
    ofDeclaration? text = some o ↔ text = o.render ∧ o.Declarable := by
  rw [declarable_iff, ← String.toList_inj, toList_render,
    ← splitDeclaration_eq_some_iff isWordChar_space]
  obtain ⟨name, type⟩ := o
  unfold ofDeclaration?
  split
  · rename_i n t h
    simp [h, ← String.toList_inj]
  · rename_i h
    simp [h]

theorem render_inj {o p : Object} (hp : p.Declarable) (h : o.render = p.render) : o = p := by
  have htext : o.name.toList ++ ' ' :: '-' :: ' ' :: o.type.toList =
      p.name.toList ++ ' ' :: '-' :: ' ' :: p.type.toList := by
    rw [← toList_render, ← toList_render, h]
  obtain ⟨hname, htype⟩ := (declarable_iff.1 hp).cut_unique isWordChar_hyphen htext
  rw [String.toList_inj] at hname htype
  calc o = ⟨o.name, o.type⟩ := rfl
    _ = ⟨p.name, p.type⟩ := by rw [hname, htype]

end Object

namespace Formula

theorem parameter_eq_ok_iff {f : Formula} {o : Object} :
    f.parameter = .ok o ↔ f.word = o.render ∧ o.Declarable := by
  rw [← Object.ofDeclaration?_eq_some_iff, parameter]
  cases Object.ofDeclaration? f.word <;> simp

theorem parameter_eq_error_iff {f : Formula} {d : Defect} :
    f.parameter = .error d ↔
      d = .declaration f.word ∧ ∀ o : Object, f.word = o.render → ¬ o.Declarable := by
  have hnone : (∀ o : Object, f.word = o.render → ¬ o.Declarable) ↔
      Object.ofDeclaration? f.word = none := by
    rw [Option.eq_none_iff_forall_ne_some]
    simp only [ne_eq, Object.ofDeclaration?_eq_some_iff, not_and]
  rw [hnone, parameter]
  cases Object.ofDeclaration? f.word <;> simp [eq_comm]

end Formula

/-- A declaration is read iff its whole word is a name, a blank, a hyphen, a blank and a type, the
name of word characters and question marks, the type of word characters, and neither empty. Then it
stands for this name and this type; any other word is refused and quoted as it is. Hence what was
read is written as it stood, and of the written forms of objects those of declarable ones are read
as these objects and all others are refused. -/
theorem parameter_inverts_render :
    (∀ (f : Formula) (o : Object), f.parameter = .ok o ↔
        f.word = o.name ++ " - " ++ o.type ∧ o.Declarable) ∧
      (∀ f : Formula, (¬ ∃ o : Object, f.word = o.name ++ " - " ++ o.type ∧ o.Declarable) →
        f.parameter = .error (.declaration f.word)) ∧
      (∀ (f : Formula) (o : Object), f.parameter = .ok o → o.render = f.word) ∧
      ∀ o : Object, (o.Declarable → (Formula.leaf o.render).parameter = .ok o) ∧
        (¬ o.Declarable →
          (Formula.leaf o.render).parameter = .error (.declaration o.render)) := by
  refine ⟨fun f o => Formula.parameter_eq_ok_iff, fun f h => ?_, fun f o h => ?_, fun o => ?_⟩
  · exact Formula.parameter_eq_error_iff.2 ⟨rfl, fun o hw ho => h ⟨o, hw, ho⟩⟩
  · exact (Formula.parameter_eq_ok_iff.1 h).1.symm
  · refine ⟨fun ho => Formula.parameter_eq_ok_iff.2 ⟨rfl, ho⟩, fun ho => ?_⟩
    refine Formula.parameter_eq_error_iff.2 ⟨rfl, fun p hw hp => ho ?_⟩
    rwa [Object.render_inj hp hw]

/-- A name with two question marks and letters beyond ASCII; the children of a declaration do not
matter. A line break after the type is refused, and so is a declaration with one more type. -/
theorem parameter_inverts_render_line :
    let o : Object := ⟨"??λ_2", "pièce"⟩
    let f : Formula := ⟨"??λ_2 - pièce", [.leaf "?x - person"]⟩
    let line : Object := ⟨"?x", "person\n"⟩
    let chained : Object := ⟨"a - b", "c"⟩
    o.Declarable ∧ f.parameter = .ok o ∧ o.render = f.word ∧
      (Formula.leaf o.render).parameter = .ok o ∧
      ¬ line.Declarable ∧
      (Formula.leaf line.render).parameter = .error (.declaration "?x - person\n") ∧
      (¬ ∃ p : Object, "a - b - c" = p.name ++ " - " ++ p.type ∧ p.Declarable) ∧
      (Formula.leaf chained.render).parameter = .error (.declaration "a - b - c") := by
  intro o f line chained
  obtain ⟨hread, hrefuse, hrender, hback⟩ := parameter_inverts_render
  have ho : o.Declarable := by decide +kernel
  have hf : f.parameter = .ok o := (hread f o).2 ⟨by decide +kernel, ho⟩
  have hline : ¬ line.Declarable := by decide +kernel
  have hchained : ¬ ∃ p : Object, "a - b - c" = p.name ++ " - " ++ p.type ∧ p.Declarable := by
    rintro ⟨p, hw, hp⟩
    have hnot : ¬ chained.Declarable := by decide +kernel
    rw [Object.render_inj hp (o := chained) hw] at hnot
    exact hnot hp
  exact ⟨ho, hf, hrender f o hf, (hback o).1 ho, hline, (hback line).2 hline, hchained,
    hrefuse (.leaf chained.render) hchained⟩

end PlanLogic
