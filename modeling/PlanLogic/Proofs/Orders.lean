import PlanLogic.Candidates
import PlanLogic.Fact
import PlanLogic.Proofs.ByteOrder

/-!
# PlanLogic.Proofs.Orders

The orders that sorted sets go by. A set finds its elements again, and holds none of them twice, if
its comparison calls only equal things equal, turns round with its arguments, and is transitive
(`LawfulOrder`). These laws are passed on from the values of a choice to the choices, so they hold
however deep choices are nested.

* `LawfulOrder.transOrd`, `LawfulOrder.lawfulEqOrd`: the laws are those of the standard classes.
* `compare_list_eq_lt_iff`: lists are compared lexicographically, a proper prefix first.
* `Formula.compare_eq_lt_iff`: formulas by the bytes of their words, then by their children.
* `orders_lawful`: the laws for formulas, facts and choices, and what their orders are.
-/

namespace PlanLogic

open Std

/-- The laws of a three-way comparison. -/
structure LawfulOrder (α : Type) [Ord α] : Prop where
  eq_iff (a b : α) : compare a b = .eq ↔ a = b
  swap (a b : α) : compare b a = (compare a b).swap
  lt_trans (a b c : α) : compare a b = .lt → compare b c = .lt → compare a c = .lt

namespace LawfulOrder

variable {α : Type} [Ord α]

theorem of_classes [TransOrd α] [LawfulEqOrd α] : LawfulOrder α where
  eq_iff _ _ := Std.compare_eq_iff_eq
  swap _ _ := OrientedOrd.eq_swap
  lt_trans _ _ _ := TransCmp.lt_trans

theorem lawfulEqOrd (h : LawfulOrder α) : LawfulEqOrd α where
  compare_self {a} := (h.eq_iff a a).2 rfl
  eq_of_compare {a b} := (h.eq_iff a b).1

theorem transOrd (h : LawfulOrder α) : TransOrd α where
  eq_swap {a b} := h.swap b a
  isLE_trans {a b c} hab hbc := by
    cases hab' : compare a b with
    | gt => simp [hab'] at hab
    | eq =>
      rw [(h.eq_iff a b).1 hab']
      exact hbc
    | lt =>
      cases hbc' : compare b c with
      | gt => simp [hbc'] at hbc
      | eq =>
        rw [← (h.eq_iff b c).1 hbc']
        exact hab
      | lt => rw [h.lt_trans a b c hab' hbc', Ordering.isLE_lt]

end LawfulOrder

/-- Lists are compared lexicographically, and a proper prefix comes first. -/
theorem compare_list_eq_lt_iff {α : Type} [Ord α] [LawfulEqOrd α] {as bs : List α} :
    compare as bs = .lt ↔ List.Lex (fun a b => compare a b = .lt) as bs := by
  induction as generalizing bs with
  | nil => cases bs <;> simp
  | cons a as ih =>
    cases bs with
    | nil => simp
    | cons b bs =>
      rw [List.compare_cons_cons, Ordering.then_eq_lt, Std.compare_eq_iff_eq,
        List.cons_lex_cons_iff, ih]

theorem Formula.compare_eq_lt_iff {f g : Formula} :
    compare f g = .lt ↔
      List.Lex (· < ·) (Text.bytes f.word) (Text.bytes g.word) ∨
        f.word = g.word ∧ List.Lex (fun a b => compare a b = .lt) f.args g.args := by
  rw [Formula.compare_eq, Ordering.then_eq_lt, Text.compare_eq_lt_iff_bytes,
    Std.compare_eq_iff_eq, compare_list_eq_lt_iff]

/-- Formulas, facts and choices are lawfully ordered: formulas by the bytes of their words and then
by their children, facts like their formulas, and choices, if their values are lawfully ordered,
like the ascending lists of these. -/
theorem orders_lawful :
    (LawfulOrder Formula ∧ ∀ f g : Formula, compare f g = .lt ↔
      List.Lex (· < ·) (Text.bytes f.word) (Text.bytes g.word) ∨
        f.word = g.word ∧ List.Lex (fun a b => compare a b = .lt) f.args g.args) ∧
    (LawfulOrder Fact ∧ ∀ a b : Fact, compare a b = compare a.formula b.formula) ∧
    ∀ (α : Type) [Ord α], LawfulOrder α →
      LawfulOrder (Candidates α) ∧ ∀ c d : Candidates α, compare c d = .lt ↔
        List.Lex (fun a b => compare a b = .lt) c.toList d.toList := by
  refine ⟨⟨.of_classes, fun f g => Formula.compare_eq_lt_iff⟩, ⟨.of_classes, Fact.compare_eq⟩, ?_⟩
  intro α _ h
  have := h.transOrd
  have := h.lawfulEqOrd
  refine ⟨.of_classes, fun c d => ?_⟩
  rw [Candidates.compare_eq, compare_list_eq_lt_iff]

/-- The letter `𝐚` is beyond the first sixteen bits, so it has more bytes than `ｚ` and comes later.
Of the two predicates, one has a child more. Choices of formulas are as lawful as formulas are. -/
theorem orders_lawful_letters :
    let z := Formula.leaf "ｚ"
    let a := Formula.leaf "𝐚"
    let seen := Formula.predicate "seen" ["hall"]
    let seenBy := Formula.predicate "seen" ["hall", "ann"]
    let c : Candidates Formula := .ofList [a, seen]
    let d : Candidates Formula := .ofList [seenBy, z, seenBy]
    LawfulOrder (Candidates Formula) ∧
      List.Lex (· < ·) (Text.bytes z.word) (Text.bytes a.word) ∧
      List.Lex (fun f g => compare f g = .lt) seen.args seenBy.args ∧
      c.toList = [seen, a] ∧ d.toList = [seenBy, z] ∧
      List.Lex (fun f g => compare f g = .lt) c.toList d.toList := by
  intro z a seen seenBy c d
  obtain ⟨⟨hlaws, hless⟩, -, hchoices⟩ := orders_lawful
  obtain ⟨hlaws', hless'⟩ := hchoices Formula hlaws
  have hza := (hless z a).1 (by decide +kernel)
  have hseen := (hless seen seenBy).1 (by decide +kernel)
  refine ⟨hlaws', hza.resolve_right ?_, (hseen.resolve_left ?_).2, by decide +kernel,
    by decide +kernel, (hless' c d).1 (by decide +kernel)⟩
  · rintro ⟨hword, -⟩
    exact absurd hword (by decide)
  · exact List.lex_irrefl UInt8.lt_irrefl _

end PlanLogic
