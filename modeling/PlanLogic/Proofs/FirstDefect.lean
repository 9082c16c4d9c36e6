import Mathlib.Data.List.Basic
import PlanLogic.Proofs.Conclusions

/-!
# PlanLogic.Proofs.FirstDefect

Where extraction fails. It goes through the places of conclusion from the root down and from left to
right, and the first of them with a defect at its root ends it. So there are entries iff no place of
conclusion has a defect, and otherwise the first defect is reported, however many follow.

* `Formula.rootDefect?`: the defect at a root, told from its word and the number of its children.
* `Formula.conclusionDefects`: the defects at the places of conclusion, in the order of the places.
* `failure?_mapM`, `failure?_consequents_eq`: of several parts the first that fails counts, and
  a formula fails by itself before its parts do.
* `failure?_consequents`: hence extraction fails with the first of these defects.
* `Formula.outline`: what extraction looks at. Premises, declarations and the arguments of
  predicates are not in it, so that none of them makes extraction fail (`consequents_outline`).
* `first_defect_reported`: all of this together.
-/

namespace PlanLogic

/-! ## Failures -/

section

variable {ε α β : Type}

def failure? : Except ε α → Option ε
  | .error e => some e
  | .ok _ => none

theorem failure?_eq_some_iff {r : Except ε α} {e : ε} : failure? r = some e ↔ r = .error e := by
  cases r <;> simp [failure?]

theorem failure?_eq_none_iff {r : Except ε α} : failure? r = none ↔ ∃ a, r = .ok a := by
  cases r <;> simp [failure?]

@[simp] theorem failure?_map (g : α → β) (r : Except ε α) : failure? (r.map g) = failure? r := by
  cases r <;> rfl

theorem failure?_mapM (g : α → Except ε β) (as : List α) :
    failure? (as.mapM g) = as.findSome? fun a => failure? (g a) := by
  induction as with
  | nil => rfl
  | cons a as ih =>
    rw [List.mapM_cons, List.findSome?_cons, ← ih]
    cases g a with
    | error e => rfl
    | ok b => cases as.mapM g <;> rfl

end

namespace Formula

/-! ## Defects at places of conclusion -/

/-- A root is defective if its word is empty, or if it is an operator with a number of children that
the operator does not take. -/
def rootDefect? (f : Formula) : Option Defect :=
  match f.node with
  | .empty => some .emptyWord
  | .predicate _ => none
  | .operator op =>
    if op.arity.admits f.args.length then none else some (.arity op f.args.length)

theorem rootDefect?_eq_failure? (f : Formula) : f.rootDefect? = failure? f.shape := by
  unfold rootDefect? shape
  cases f.node with
  | empty => rfl
  | predicate name => rfl
  | operator op =>
    simp only
    cases hargs : shapeOf op f.args with
    | error d =>
      obtain ⟨hno, rfl⟩ := shapeOf_eq_error_iff.1 hargs
      simp [failure?, hno]
    | ok s =>
      have hfits := admits_of_shapeOf hargs
      simp [failure?, hfits]

/-- The children of a defective root may be exchanged for as many others. -/
theorem shape_eq_error_of_count {f : Formula} {d : Defect} {args : List Formula}
    (h : f.shape = .error d) (hcount : args.length = f.args.length) :
    (Formula.mk f.word args).shape = .error d := by
  have hnode : (Formula.mk f.word args).node = f.node := node_congr rfl
  rw [← failure?_eq_some_iff, ← rootDefect?_eq_failure?] at h ⊢
  rw [← h, rootDefect?, rootDefect?, hnode, hcount]

def conclusionDefects (f : Formula) : List Defect := f.conclusionPositions.filterMap rootDefect?

theorem conclusionDefects_eq (f : Formula) :
    f.conclusionDefects = f.rootDefect?.toList ++ f.conclusions.flatMap conclusionDefects := by
  rw [conclusionDefects, conclusionPositions_eq, List.filterMap_cons, List.filterMap_flatMap]
  cases f.rootDefect? <;> rfl

end Formula

/-- A formula fails by itself, or else as the first of its children in conclusion that fails. -/
theorem failure?_consequents_eq (f : Formula) :
    failure? (consequents f) =
      f.rootDefect?.or (f.conclusions.findSome? fun a => failure? (consequents a)) := by
  rw [consequents_eq, Formula.rootDefect?_eq_failure?]
  cases hs : f.shape with
  | error d => rfl
  | ok s =>
    cases s with
    | atom =>
      have hnone := Formula.conclusions_of_isPredicate (Formula.shape_eq_atom_iff.1 hs)
      rw [hnone]
      rfl
    | negation body =>
      cases Formula.shape_eq_negation_iff.1 hs
      simp [Formula.not, Operator.hasPremise, failure?]
    | junction j parts =>
      cases Formula.shape_eq_junction_iff.1 hs
      have hconclusions : (Formula.apply j.connective parts).conclusions = parts := by
        cases j <;> simp [Junction.connective, Operator.hasPremise]
      rw [hconclusions, ← failure?_mapM]
      exact failure?_map _ _
    | conditional premise conclusion =>
      rcases Formula.shape_eq_conditional_iff.1 hs with rfl | rfl <;>
        simp [Formula.imply, Formula.when, Operator.hasPremise, failure?]
    | quantified j declaration body =>
      cases Formula.shape_eq_quantified_iff.1 hs
      cases j <;> simp [Junction.quantifier, Operator.hasPremise, failure?]

theorem failure?_consequents (f : Formula) :
    failure? (consequents f) = f.conclusionDefects.head? := by
  induction f using Formula.induct_conclusions with
  | step f ih =>
    have hchildren : f.conclusions.findSome? (fun a => failure? (consequents a)) =
        f.conclusions.findSome? fun a => a.conclusionDefects.head? := by
      rw [← List.head?_filterMap, ← List.head?_filterMap, List.filterMap_congr ih]
    calc failure? (consequents f)
        = f.rootDefect?.or (f.conclusions.findSome? fun a => failure? (consequents a)) :=
          failure?_consequents_eq f
      _ = f.rootDefect?.or (f.conclusions.flatMap Formula.conclusionDefects).head? := by
          rw [hchildren, List.head?_flatMap]
      _ = f.conclusionDefects.head? := by
          rw [Formula.conclusionDefects_eq f, List.head?_append, Option.head?_toList]

namespace Formula

/-! ## What is not looked at -/

/-- The formula with nameless premises and declarations, and with predicates that have no arguments.
Of what is defective at its root only the word and the number of children are kept. -/
def outline (f : Formula) : Formula :=
  match _h : f.shape with
  | .error _ => ⟨f.word, f.args.map fun _ => .leaf ""⟩
  | .ok .atom => .leaf f.word
  | .ok (.negation body) => .not (outline body)
  | .ok (.junction j parts) => .apply j.connective (parts.attach.map fun a => outline a.1)
  | .ok (.conditional _ conclusion) => ⟨f.word, [.leaf "", outline conclusion]⟩
  | .ok (.quantified j _ body) => .apply j.quantifier [.leaf "", outline body]
termination_by f.size
decreasing_by
  · exact size_lt_of_mem_parts _h (List.mem_singleton.2 rfl)
  · exact size_lt_of_mem_parts _h a.2
  · exact size_lt_of_mem_parts _h (.tail _ (.head _))
  · exact size_lt_of_mem_parts _h (List.mem_singleton.2 rfl)

theorem outline_eq (f : Formula) :
    f.outline =
      match f.shape with
      | .error _ => ⟨f.word, f.args.map fun _ => .leaf ""⟩
      | .ok .atom => .leaf f.word
      | .ok (.negation body) => .not body.outline
      | .ok (.junction j parts) => .apply j.connective (parts.map outline)
      | .ok (.conditional _ conclusion) => ⟨f.word, [.leaf "", conclusion.outline]⟩
      | .ok (.quantified j _ body) => .apply j.quantifier [.leaf "", body.outline] := by
  rw [outline]
  split <;> simp only [*, List.attach_map_val]

theorem concluding_outline (f : Formula) : Concluding outline f.shape f.outline.shape := by
  rw [outline_eq]
  cases hs : f.shape with
  | error d =>
    rw [shape_eq_error_of_count hs (List.length_map _)]
    exact .error d
  | ok s =>
    cases s with
    | atom =>
      have hleaf : (leaf f.word).shape = .ok .atom := by
        rw [shape_eq_atom_iff] at hs ⊢
        exact hs
      rw [hleaf]
      exact .atom
    | negation body =>
      rw [shape_eq_negation_iff.2 rfl]
      exact .negation body
    | junction j parts =>
      rw [shape_eq_junction_iff.2 rfl]
      exact .junction j parts
    | conditional premise conclusion =>
      have hshape : (Formula.mk f.word [.leaf "", conclusion.outline]).shape =
          .ok (.conditional (.leaf "") conclusion.outline) := by
        rw [shape_eq_conditional_iff] at hs ⊢
        rcases hs with rfl | rfl
        · exact .inl rfl
        · exact .inr rfl
      rw [hshape]
      exact .conditional premise _ conclusion
    | quantified j declaration body =>
      rw [shape_eq_quantified_iff.2 rfl]
      exact .quantified j declaration _ body

end Formula

theorem consequents_outline (f : Formula) : consequents f.outline = consequents f := by
  refine consequents_eq_of_concluding Formula.concluding_outline (fun f hs => ?_) f
  rw [Formula.outline_eq, hs]
  rfl

/-- Extraction has a result iff no place of conclusion has an empty word or an operator with a
number of children that it does not take. Otherwise it reports the defect of the first such place.
Premises, declarations and arguments of predicates may be exchanged for any others: as long as the
outline is the same, so are the entries and the defect. -/
theorem first_defect_reported (f : Formula) :
    ((∃ entries, consequents f = .ok entries) ↔
        ∀ n ∈ f.conclusionPositions, n.rootDefect? = none) ∧
      (∀ d, consequents f = .error d ↔
        ∃ before n after, f.conclusionPositions = before ++ n :: after ∧
          n.rootDefect? = some d ∧ ∀ m ∈ before, m.rootDefect? = none) ∧
      ∀ g : Formula, g.outline = f.outline → consequents g = consequents f := by
  refine ⟨?_, fun d => ?_, fun g hg => ?_⟩
  · rw [← failure?_eq_none_iff, failure?_consequents, Formula.conclusionDefects,
      List.head?_filterMap, List.findSome?_eq_none_iff]
  · rw [← failure?_eq_some_iff, failure?_consequents, Formula.conclusionDefects,
      List.head?_filterMap, List.findSome?_eq_some_iff]
  · rw [← consequents_outline g, hg, consequents_outline]

/-- Two places of conclusion are defective, and the negation of nothing comes first. A nameless
premise, a declaration that cannot be read and a nameless argument stand before it, and do not
count; in `better` all of them are mended, and the same is reported. Without the two places there
are entries. -/
theorem first_defect_reported_doors :
    let rule := fun premise declaration argument choice => Formula.and
      [.when premise ⟨"open", [argument]⟩,
        .apply .forAll [declaration, .or (.leaf "shut" :: choice)]]
    let f := rule (.leaf "") (.leaf "?x") (.leaf "") [.apply .not [], .leaf ""]
    let better := rule (.leaf "night") (.leaf "?x - door") (.leaf "?x") [.apply .not [], .leaf ""]
    let sound := rule (.apply .not []) (.leaf "") (.leaf "") []
    consequents f = .error (.arity .not 0) ∧ better.outline = f.outline ∧
      consequents better = .error (.arity .not 0) ∧
      (∀ n ∈ sound.conclusionPositions, n.rootDefect? = none) ∧
      ∃ entries, consequents sound = .ok entries := by
  intro rule f better sound
  have hfirst : consequents f = .error (.arity .not 0) :=
    ((first_defect_reported f).2.1 _).2
      ⟨f.conclusionPositions.take 6, .apply .not [], [.leaf ""], by decide +kernel⟩
  have houtline : better.outline = f.outline := by decide +kernel
  have hsound : ∀ n ∈ sound.conclusionPositions, n.rootDefect? = none := by decide +kernel
  exact ⟨hfirst, houtline, ((first_defect_reported f).2.2 better houtline).trans hfirst, hsound,
    (first_defect_reported sound).1.2 hsound⟩

end PlanLogic
