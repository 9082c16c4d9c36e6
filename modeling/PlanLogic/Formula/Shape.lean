import PlanLogic.Formula.Basic

/-!
# PlanLogic.Formula.Shape

A formula taken apart: its operator with the right number of children, or the defect at its root.
All analyses of formulas go through `Formula.shape`, so none can look for a child that is not there.

* `Defect`: the causes for which a formula has no truth value or no consequents, with their wording.
* `Formula.shape`: the parts of a well formed root.
* `shape_eq_negation_iff` and its companions: which formulas have which shape.
* `shape_eq_arity_iff`, `shape_eq_emptyWord_iff`: when the root is defective. A root never has the
  defect of a bad declaration; that is found when a quantifier is expanded.
* `size_lt_of_mem_parts`, `induct_parts`: parts are smaller than the whole, so induction on them.
-/

namespace PlanLogic

inductive Defect where
  /-- A quantifier's declaration does not read `name - type`. -/
  | declaration (text : String)
  /-- A node has the empty word. -/
  | emptyWord
  /-- An operator is applied to a number of children that it does not take. -/
  | arity (op : Operator) (found : Nat)
  deriving DecidableEq, Repr

def Defect.message : Defect → String
  | declaration text =>
    "invalid parameter declaration '" ++ text ++ "'; expected `name - type`"
  | emptyWord => "cannot evaluate empty expression"
  | arity op found =>
    "`" ++ op.word ++ "` expects " ++ op.arity.render ++ " argument(s), found " ++ toString found

namespace Formula

inductive Shape where
  /-- A predicate, to be looked up as it stands. -/
  | atom
  | negation (body : Formula)
  | junction (j : Junction) (parts : List Formula)
  /-- Material implication, under either of its two words. -/
  | conditional (premise conclusion : Formula)
  | quantified (j : Junction) (declaration body : Formula)
  deriving DecidableEq, Repr

namespace Shape

/-- The formulas that a shape is made of; a declaration is not one. -/
def parts : Shape → List Formula
  | atom => []
  | negation body => [body]
  | junction _ parts => parts
  | conditional premise conclusion => [premise, conclusion]
  | quantified _ _ body => [body]

/-- Applies `g` to the parts and leaves declarations alone. -/
def mapParts (g : Formula → Formula) : Shape → Shape
  | atom => .atom
  | negation body => .negation (g body)
  | junction j parts => .junction j (parts.map g)
  | conditional premise conclusion => .conditional (g premise) (g conclusion)
  | quantified j declaration body => .quantified j declaration (g body)

end Shape

/-- The parts of an application, or the complaint about their number. -/
def shapeOf : Operator → List Formula → Except Defect Shape
  | .not, [body] => .ok (.negation body)
  | .and, parts => .ok (.junction .all parts)
  | .or, parts => .ok (.junction .any parts)
  | .imply, [premise, conclusion] => .ok (.conditional premise conclusion)
  | .when, [premise, conclusion] => .ok (.conditional premise conclusion)
  | .forAll, [declaration, body] => .ok (.quantified .all declaration body)
  | .forSome, [declaration, body] => .ok (.quantified .any declaration body)
  | op, args => .error (.arity op args.length)

def shape (f : Formula) : Except Defect Shape :=
  match f.node with
  | .empty => .error .emptyWord
  | .predicate _ => .ok .atom
  | .operator op => shapeOf op f.args

theorem shapeOf_eq_error_iff {op : Operator} {args : List Formula} {d : Defect} :
    shapeOf op args = .error d ↔
      op.arity.admits args.length = false ∧ d = .arity op args.length := by
  cases op <;> rcases args with _ | ⟨a, _ | ⟨b, _ | ⟨c, rest⟩⟩⟩ <;>
    simp [shapeOf, Operator.arity, Arity.admits, eq_comm]

theorem admits_of_shapeOf {op : Operator} {args : List Formula} {s : Shape}
    (h : shapeOf op args = .ok s) : op.arity.admits args.length = true := by
  cases hfits : op.arity.admits args.length with
  | true => rfl
  | false =>
    rw [shapeOf_eq_error_iff.2 ⟨hfits, rfl⟩] at h
    cases h

theorem shape_eq_emptyWord_iff {f : Formula} : f.shape = .error .emptyWord ↔ f.word = "" := by
  rw [← node_eq_empty_iff]
  unfold shape
  split
  · simp [*]
  · simp [*]
  · simp [*, shapeOf_eq_error_iff]

theorem shape_eq_arity_iff {f : Formula} {op : Operator} {n : Nat} :
    f.shape = .error (.arity op n) ↔
      f.node = .operator op ∧ n = f.args.length ∧ op.arity.admits n = false := by
  unfold shape
  split
  · simp [*]
  · simp [*]
  · rename_i p hp
    rw [shapeOf_eq_error_iff, hp]
    simp only [Defect.arity.injEq, Node.operator.injEq]
    constructor
    · rintro ⟨h, rfl, rfl⟩
      exact ⟨rfl, rfl, h⟩
    · rintro ⟨rfl, rfl, h⟩
      exact ⟨h, rfl, rfl⟩

theorem shape_apply (op : Operator) (args : List Formula) :
    (apply op args).shape = shapeOf op args := by
  rw [shape, node_apply]
  rfl

theorem eq_apply_of_node {f : Formula} {op : Operator} (h : f.node = .operator op) :
    f = apply op f.args := by
  cases f
  rw [apply, ← node_eq_operator_iff.1 h]

/-- A shape other than that of an atom comes from an application. -/
theorem shape_eq_ok_iff {f : Formula} {s : Shape} (hs : s ≠ .atom) :
    f.shape = .ok s ↔ ∃ op args, f = apply op args ∧ shapeOf op args = .ok s := by
  constructor
  · intro h
    unfold shape at h
    split at h
    · cases h
    · cases h
      exact absurd rfl hs
    · exact ⟨_, _, eq_apply_of_node ‹_›, h⟩
  · rintro ⟨op, args, rfl, h⟩
    rw [shape_apply, h]

theorem shape_eq_atom_iff {f : Formula} : f.shape = .ok .atom ↔ f.isPredicate = true := by
  unfold shape isPredicate
  split
  · simp [*]
  · simp [*]
  · rename_i op h
    rw [h]
    generalize f.args = args
    cases op <;> rcases args with _ | ⟨a, _ | ⟨b, _ | ⟨c, rest⟩⟩⟩ <;> simp [shapeOf]

theorem shape_eq_negation_iff {f body : Formula} :
    f.shape = .ok (.negation body) ↔ f = .not body := by
  rw [shape_eq_ok_iff (by nofun)]
  constructor
  · rintro ⟨op, args, rfl, h⟩
    cases op <;> rcases args with _ | ⟨a, _ | ⟨b, _ | ⟨c, rest⟩⟩⟩ <;> cases h
    rfl
  · rintro rfl
    exact ⟨_, _, rfl, rfl⟩

theorem shape_eq_junction_iff {f : Formula} {j : Junction} {parts : List Formula} :
    f.shape = .ok (.junction j parts) ↔ f = .apply j.connective parts := by
  rw [shape_eq_ok_iff (by nofun)]
  constructor
  · rintro ⟨op, args, rfl, h⟩
    cases op <;> rcases args with _ | ⟨a, _ | ⟨b, _ | ⟨c, rest⟩⟩⟩ <;> cases h <;> rfl
  · rintro rfl
    cases j <;> exact ⟨_, _, rfl, rfl⟩

theorem shape_eq_conditional_iff {f premise conclusion : Formula} :
    f.shape = .ok (.conditional premise conclusion) ↔
      f = .imply premise conclusion ∨ f = .when premise conclusion := by
  rw [shape_eq_ok_iff (by nofun)]
  constructor
  · rintro ⟨op, args, rfl, h⟩
    cases op <;> rcases args with _ | ⟨a, _ | ⟨b, _ | ⟨c, rest⟩⟩⟩ <;> cases h
    · exact .inl rfl
    · exact .inr rfl
  · rintro (rfl | rfl) <;> exact ⟨_, _, rfl, rfl⟩

theorem shape_eq_quantified_iff {f declaration body : Formula} {j : Junction} :
    f.shape = .ok (.quantified j declaration body) ↔
      f = .apply j.quantifier [declaration, body] := by
  rw [shape_eq_ok_iff (by nofun)]
  constructor
  · rintro ⟨op, args, rfl, h⟩
    cases op <;> rcases args with _ | ⟨a, _ | ⟨b, _ | ⟨c, rest⟩⟩⟩ <;> cases h <;> rfl
  · rintro rfl
    cases j <;> exact ⟨_, _, rfl, rfl⟩

/-- A quantifier without a defect at its root has a declaration and a body. -/
theorem eq_apply_of_shape_quantifier {f : Formula} {j : Junction} {s : Shape}
    (hn : f.node = .operator j.quantifier) (hs : f.shape = .ok s) :
    ∃ declaration body, f = .apply j.quantifier [declaration, body] := by
  have hf := eq_apply_of_node hn
  rw [hf, shape_apply] at hs
  rcases hargs : f.args with _ | ⟨a, _ | ⟨b, _ | ⟨c, rest⟩⟩⟩ <;> rw [hargs] at hs hf
  case cons.cons.nil => exact ⟨a, b, hf⟩
  all_goals cases j <;> cases hs

theorem mem_args_of_mem_parts {f a : Formula} {s : Shape} (h : f.shape = .ok s)
    (ha : a ∈ s.parts) : a ∈ f.args := by
  unfold shape at h
  split at h
  · cases h
  · cases h
    cases ha
  · rename_i op _
    revert h
    generalize f.args = args
    intro h
    cases op <;> rcases args with _ | ⟨b, _ | ⟨c, _ | ⟨d, rest⟩⟩⟩ <;> cases h <;>
      simp_all [Shape.parts]

theorem size_lt_of_mem_parts {f a : Formula} {s : Shape} (h : f.shape = .ok s)
    (ha : a ∈ s.parts) : a.size < f.size :=
  size_lt_of_mem (mem_args_of_mem_parts h ha)

/-- Induction with a hypothesis for every part of a well formed root. -/
theorem induct_parts {motive : Formula → Prop}
    (step : ∀ f, (∀ s, f.shape = .ok s → ∀ a ∈ s.parts, motive a) → motive f) (f : Formula) :
    motive f := by
  induction f using induct with
  | step w args ih => exact step _ fun s hs a ha => ih a (mem_args_of_mem_parts hs ha)

end Formula

end PlanLogic
