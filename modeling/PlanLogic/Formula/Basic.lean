import PlanLogic.Operator

/-!
# PlanLogic.Formula.Basic

Formulas are uniform trees: a word over a list of formulas. A word without children is a leaf;
argument tokens are leaves, and a quantifier's first child is a leaf spelling its declaration.

* `Formula.induct`: induction with a hypothesis for every child.
* `Formula.size`: the number of nodes; children are smaller (`size_lt_of_mem`).
* `Formula.node`: how a formula is read at its root, decided by the word alone. Whether the number
  of children fits is a separate question (`Formula.shape`).
* `Formula.render`: the written form, in which words stand as they are. So it can be read back only
  if no word holds a parenthesis or a comma.
-/

namespace PlanLogic

structure Formula where
  word : String
  args : List Formula
  deriving Repr, Inhabited

namespace Formula

mutual

/-- Equality of trees is decided word by word, from the root down and from left to right. -/
def decEq : (f g : Formula) → Decidable (f = g)
  | ⟨w, as⟩, ⟨v, bs⟩ =>
    if hw : w = v then
      match decEqAll as bs with
      | .isTrue h => .isTrue (by rw [hw, h])
      | .isFalse h => .isFalse (by intro e; cases e; exact h rfl)
    else .isFalse (by intro e; cases e; exact hw rfl)

def decEqAll : (fs gs : List Formula) → Decidable (fs = gs)
  | [], [] => .isTrue rfl
  | [], _ :: _ => .isFalse (by intro e; cases e)
  | _ :: _, [] => .isFalse (by intro e; cases e)
  | a :: as, b :: bs =>
    match decEq a b with
    | .isFalse h => .isFalse (by intro e; cases e; exact h rfl)
    | .isTrue h =>
      match decEqAll as bs with
      | .isFalse h' => .isFalse (by intro e; cases e; exact h' rfl)
      | .isTrue h' => .isTrue (by rw [h, h'])

end

instance : DecidableEq Formula := decEq

theorem induct {motive : Formula → Prop}
    (step : ∀ word args, (∀ a ∈ args, motive a) → motive ⟨word, args⟩) (f : Formula) :
    motive f := by
  refine Formula.rec (motive_1 := motive) (motive_2 := fun fs => ∀ a ∈ fs, motive a) step ?_ ?_ f
  · intro a h
    cases h
  · intro b bs hb hbs a h
    cases h with
    | head => exact hb
    | tail _ h => exact hbs a h

/-! ## Size -/

mutual

def size : Formula → Nat
  | ⟨_, args⟩ => sizeAll args + 1

def sizeAll : List Formula → Nat
  | [] => 0
  | a :: as => size a + sizeAll as

end

theorem size_eq (f : Formula) : f.size = sizeAll f.args + 1 := by
  cases f
  rfl

theorem size_pos (f : Formula) : 0 < f.size := by
  rw [size_eq]
  omega

theorem size_le_sizeAll {a : Formula} {fs : List Formula} (h : a ∈ fs) : a.size ≤ sizeAll fs := by
  induction fs with
  | nil => cases h
  | cons b bs ih =>
    cases h with
    | head => simp [sizeAll]
    | tail _ h =>
      have := ih h
      simp only [sizeAll]
      omega

theorem size_lt_of_mem {a f : Formula} (h : a ∈ f.args) : a.size < f.size := by
  have := size_le_sizeAll h
  rw [size_eq f]
  omega

/-! ## Construction -/

def leaf (word : String) : Formula := ⟨word, []⟩

/-- A name applied to tokens. -/
def predicate (name : String) (tokens : List String) : Formula := ⟨name, tokens.map leaf⟩

/-- An operator applied to any number of children, fitting or not. -/
def apply (op : Operator) (args : List Formula) : Formula := ⟨op.word, args⟩

@[simp] theorem word_apply (op : Operator) (args : List Formula) : (apply op args).word = op.word :=
  rfl

@[simp] theorem args_apply (op : Operator) (args : List Formula) : (apply op args).args = args :=
  rfl

def not (f : Formula) : Formula := apply .not [f]

def and (fs : List Formula) : Formula := apply .and fs

def or (fs : List Formula) : Formula := apply .or fs

def imply (premise conclusion : Formula) : Formula := apply .imply [premise, conclusion]

def when (premise conclusion : Formula) : Formula := apply .when [premise, conclusion]

def forAll (declaration : String) (body : Formula) : Formula :=
  apply .forAll [leaf declaration, body]

def forSome (declaration : String) (body : Formula) : Formula :=
  apply .forSome [leaf declaration, body]

/-! ## The written form -/

mutual

/-- The word, and the children, if any, in parentheses with commas in between. -/
def render : Formula → String
  | ⟨w, []⟩ => w
  | ⟨w, a :: as⟩ => w ++ "(" ++ render a ++ renderRest as ++ ")"

/-- The children after the first, each led in by a comma and a blank. -/
def renderRest : List Formula → String
  | [] => ""
  | a :: as => ", " ++ render a ++ renderRest as

end

/-! ## Reading the root -/

def isLeaf (f : Formula) : Bool := f.args.isEmpty

inductive Node where
  | empty
  | operator (op : Operator)
  | predicate (name : String)
  deriving DecidableEq, Repr

/-- The empty word names nothing, a reserved word its operator, and any other word a predicate. -/
def node (f : Formula) : Node :=
  if f.word = "" then .empty
  else
    match Operator.ofWord? f.word with
    | some op => .operator op
    | none => .predicate f.word

def isPredicate (f : Formula) : Bool :=
  match f.node with
  | .predicate _ => true
  | _ => false

theorem node_eq_empty_iff {f : Formula} : f.node = .empty ↔ f.word = "" := by
  unfold node
  split
  · simp [*]
  · split <;> simp [*]

theorem node_eq_operator_iff {f : Formula} {op : Operator} :
    f.node = .operator op ↔ f.word = op.word := by
  unfold node
  split
  · rename_i h
    simp [h, (op.word_ne_empty).symm]
  · split
    · rename_i p hp
      rw [Operator.ofWord?_eq_some_iff] at hp
      rw [← hp]
      exact ⟨fun h => by cases h; rfl, fun h => by rw [Operator.word_inj h]⟩
    · rename_i hp
      rw [Operator.ofWord?_eq_none_iff] at hp
      simpa using fun h => hp op h.symm

theorem node_congr {f g : Formula} (h : f.word = g.word) : f.node = g.node := by
  simp [node, h]

@[simp] theorem node_apply (op : Operator) (args : List Formula) :
    (apply op args).node = .operator op :=
  node_eq_operator_iff.2 rfl

end Formula

end PlanLogic
