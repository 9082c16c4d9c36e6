import Mathlib.Control.Monad.Basic
import PlanLogic.Proofs.Outcome

/-!
# PlanLogic.Proofs.Equivalence

The equational theory of formulas. `Formula.Equiv` is the least congruence that contains the laws of
splicing, double negation and duality, and that takes `imply` for `when`. It may rewrite wherever a
formula stands for a formula, below operators with an unfitting number of children too, but neither
arguments of predicates nor declarations.

* `valueIn_connective`: what an operator other than a quantifier comes to depends on the outcomes
  of its children only.
* `valueIn_eq_of_equiv`: equivalent formulas come to the same under any bindings. Bindings are what
  carries the law below a quantifier: no substitution is ever compared.
* `outcome_eq_of_equiv`: so evaluation gives the same value or the very same defect.
-/

namespace PlanLogic

namespace Formula

inductive Equiv : Formula → Formula → Prop where
  | refl (f : Formula) : Equiv f f
  | symm {f g : Formula} : Equiv f g → Equiv g f
  | trans {f g h : Formula} : Equiv f g → Equiv g h → Equiv f h
  /-- Below an operator that is no quantifier, at any child. -/
  | child {op : Operator} {f g : Formula} (hop : op.isQuantifier = false)
      (before after : List Formula) :
      Equiv f g → Equiv (apply op (before ++ [f] ++ after)) (apply op (before ++ [g] ++ after))
  /-- Below a quantifier, at the second child. -/
  | body (j : Junction) (declaration : Formula) {f g : Formula} (after : List Formula) :
      Equiv f g →
        Equiv (apply j.quantifier (declaration :: f :: after))
          (apply j.quantifier (declaration :: g :: after))
  | splice (j : Junction) (xs ys zs : List Formula) :
      Equiv (apply j.connective (xs ++ [apply j.connective ys] ++ zs))
        (apply j.connective (xs ++ ys ++ zs))
  | single (j : Junction) (x : Formula) : Equiv (apply j.connective [x]) x
  | not_not (x : Formula) : Equiv (not (not x)) x
  | not_junction (j : Junction) (xs : List Formula) :
      Equiv (not (apply j.connective xs)) (apply j.dual.connective (xs.map not))
  | not_quantifier (j : Junction) (declaration body : Formula) :
      Equiv (not (apply j.quantifier [declaration, body]))
        (apply j.dual.quantifier [declaration, not body])
  | imply_when (premise conclusion : Formula) :
      Equiv (imply premise conclusion) (when premise conclusion)

end Formula

/-- What an operator other than a quantifier makes of the outcomes of its children. -/
def Operator.combine : Operator → List Outcome → Outcome
  | .not, [x] => x.not
  | .and, xs => Junction.all.join xs
  | .or, xs => Junction.any.join xs
  | .imply, [x, y] => x.implies y
  | .when, [x, y] => x.implies y
  | op, xs => .error (.arity op xs.length)

section

variable (w : World) (ρ : Scopes)

theorem valueIn_connective {op : Operator} (hop : op.isQuantifier = false) (args : List Formula) :
    valueIn w ρ (.apply op args) = op.combine (args.map (valueIn w ρ)) := by
  rw [valueIn_eq, Formula.shape_apply]
  cases op with
  | and => rfl
  | or => rfl
  | not => rcases args with _ | ⟨a, _ | ⟨b, rest⟩⟩ <;> simp [Formula.shapeOf, Operator.combine]
  | imply | when =>
    rcases args with _ | ⟨a, _ | ⟨b, _ | ⟨c, rest⟩⟩⟩ <;> simp [Formula.shapeOf, Operator.combine]
  | forAll | forSome => cases hop

theorem valueIn_child_congr {op : Operator} (hop : op.isQuantifier = false) {f g : Formula}
    (h : valueIn w ρ f = valueIn w ρ g) (before after : List Formula) :
    valueIn w ρ (.apply op (before ++ [f] ++ after)) =
      valueIn w ρ (.apply op (before ++ [g] ++ after)) := by
  simp only [valueIn_connective w ρ hop, List.map_append, List.map_cons, h]

theorem valueIn_body_congr (j : Junction) (declaration : Formula) {f g : Formula}
    (h : ∀ ρ, valueIn w ρ f = valueIn w ρ g) (after : List Formula) :
    valueIn w ρ (.apply j.quantifier (declaration :: f :: after)) =
      valueIn w ρ (.apply j.quantifier (declaration :: g :: after)) := by
  cases after with
  | nil => simp only [valueIn_quantifier, h]
  | cons a after =>
    -- Too many children: the defect tells their number only.
    have herr : ∀ x, (Formula.apply j.quantifier (declaration :: x :: a :: after)).shape =
        .error (.arity j.quantifier (after.length + 3)) := by
      intro x
      rw [Formula.shape_apply, Formula.shapeOf_eq_error_iff]
      cases j <;> simp [Junction.quantifier, Operator.arity, Arity.admits]
    rw [valueIn_of_shape_error w ρ (herr f), valueIn_of_shape_error w ρ (herr g)]

theorem valueIn_not_quantifier (j : Junction) (declaration body : Formula) :
    valueIn w ρ (.not (.apply j.quantifier [declaration, body])) =
      valueIn w ρ (.apply j.dual.quantifier [declaration, .not body]) := by
  rw [valueIn_not, valueIn_quantifier, valueIn_quantifier]
  cases declaration.parameter with
  | error d => rfl
  | ok p =>
    simp only [Junction.not_join, List.map_map, valueIn_not]
    rfl

theorem valueIn_not_junction (j : Junction) (xs : List Formula) :
    valueIn w ρ (.not (.apply j.connective xs)) =
      valueIn w ρ (.apply j.dual.connective (xs.map Formula.not)) := by
  have h : (valueIn w ρ ∘ Formula.not) = (Outcome.not ∘ valueIn w ρ) :=
    funext fun f => valueIn_not w ρ f
  rw [valueIn_not, valueIn_junction, valueIn_junction, Junction.not_join, List.map_map,
    List.map_map, h]

theorem valueIn_splice (j : Junction) (xs ys zs : List Formula) :
    valueIn w ρ (.apply j.connective (xs ++ [.apply j.connective ys] ++ zs)) =
      valueIn w ρ (.apply j.connective (xs ++ ys ++ zs)) := by
  simp only [valueIn_junction, List.map_append, List.map_cons, List.map_nil]
  exact j.join_splice _ _ _

end

theorem valueIn_eq_of_equiv {f g : Formula} (h : f.Equiv g) (w : World) :
    ∀ ρ, valueIn w ρ f = valueIn w ρ g := by
  induction h with
  | refl f => intro ρ; rfl
  | symm _ ih => intro ρ; exact (ih ρ).symm
  | trans _ _ ih ih' => intro ρ; exact (ih ρ).trans (ih' ρ)
  | child hop before after _ ih => intro ρ; exact valueIn_child_congr w ρ hop (ih ρ) before after
  | body j declaration after _ ih =>
    intro ρ
    exact valueIn_body_congr w ρ j declaration ih after
  | splice j xs ys zs => intro ρ; exact valueIn_splice w ρ j xs ys zs
  | single j x =>
    intro ρ
    rw [valueIn_junction]
    exact j.join_singleton _
  | not_not x =>
    intro ρ
    rw [valueIn_not, valueIn_not, Outcome.not_not]
  | not_junction j xs => intro ρ; exact valueIn_not_junction w ρ j xs
  | not_quantifier j declaration body =>
    intro ρ
    exact valueIn_not_quantifier w ρ j declaration body
  | imply_when premise conclusion =>
    intro ρ
    rw [valueIn_imply, valueIn_when]

/-- Equivalent formulas evaluate to the same value or to the same defect in every world. -/
theorem outcome_eq_of_equiv {f g : Formula} (h : f.Equiv g) (w : World) :
    (evaluate w f).outcome = (evaluate w g).outcome := by
  rw [outcome_evaluate, outcome_evaluate]
  exact valueIn_eq_of_equiv h w []

/-- Three laws in a row, two of them below the quantifier; both sides reach the nameless child of
the first copy. -/
theorem outcome_eq_of_equiv_nameless :
    let clean := Formula.predicate "clean" ["?x"]
    let open' := Formula.predicate "open" ["?x"]
    let f := Formula.not (.forAll "?x - room" (.and [clean, .and [.leaf "", open']]))
    let g := Formula.forSome "?x - room" (.or [.not clean, .not (.leaf ""), .not open'])
    let w := World.of .list [⟨"hall", "room"⟩, ⟨"attic", "room"⟩] [.ofPredicate "clean" ["hall"]]
    f.Equiv g ∧ (evaluate w f).outcome = .error .emptyWord ∧
      (evaluate w g).outcome = .error .emptyWord := by
  intro clean open' f g w
  have h₁ : f.Equiv (.forSome "?x - room" (.not (.and [clean, .and [.leaf "", open']]))) :=
    .not_quantifier .all _ _
  have h₂ : (Formula.not (.and [clean, .and [.leaf "", open']])).Equiv
      (.not (.and [clean, .leaf "", open'])) :=
    .child (show Operator.not.isQuantifier = false from rfl) [] []
      (.splice .all [clean] [.leaf "", open'] [])
  have h₃ : (Formula.not (.and [clean, .leaf "", open'])).Equiv
      (.or [.not clean, .not (.leaf ""), .not open']) :=
    .not_junction .all _
  have h : f.Equiv g := h₁.trans (.body .any _ [] (h₂.trans h₃))
  have hf : (evaluate w f).outcome = .error .emptyWord := by decide +kernel
  exact ⟨h, hf, (outcome_eq_of_equiv h w).symm.trans hf⟩

end PlanLogic
