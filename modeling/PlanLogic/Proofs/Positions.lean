import PlanLogic.Declaration
import PlanLogic.Formula.Shape
import PlanLogic.Proofs.Scopes

/-!
# PlanLogic.Proofs.Positions

Where formulas stand within a formula: at its root, at every child of a connective that stands at
such a place, whatever their number, and at the second child of a quantifier. Arguments of
predicates and declarations are elsewhere.

* `Formula.positions`: the formulas at these places, from the root down and from left to right.
* `Formula.WellFormed`: no defect at any of them.
* `Formula.binders`, `declaredNames`: what quantifiers at these places declare, and over what.
* `Formula.Unshadowed`: no quantifier declares the name of an enclosing one.
-/

namespace PlanLogic

namespace Formula

def subformulas (f : Formula) : List Formula :=
  match f.node with
  | .operator op => if op.isQuantifier then (f.args.drop 1).take 1 else f.args
  | _ => []

theorem mem_args_of_mem_subformulas {a f : Formula} (h : a ∈ f.subformulas) : a ∈ f.args := by
  unfold subformulas at h
  split at h
  · split at h
    · exact List.mem_of_mem_drop (List.mem_of_mem_take h)
    · exact h
  · cases h

theorem subformulas_eq_parts {f : Formula} {s : Shape} (h : f.shape = .ok s) :
    f.subformulas = s.parts := by
  unfold shape at h
  unfold subformulas
  split at h
  · cases h
  · rename_i hn
    cases h
    rw [hn]
    rfl
  · rename_i op hn
    rw [hn]
    revert h
    generalize f.args = args
    intro h
    cases op <;> rcases args with _ | ⟨a, _ | ⟨b, _ | ⟨c, rest⟩⟩⟩ <;> cases h <;> rfl

def positions (f : Formula) : List Formula :=
  f :: f.subformulas.attach.flatMap fun a => positions a.1
termination_by f.size
decreasing_by exact size_lt_of_mem (mem_args_of_mem_subformulas a.2)

theorem positions_eq (f : Formula) : f.positions = f :: f.subformulas.flatMap positions := by
  rw [positions]
  simp only [List.flatMap_subtype, List.unattach_attach]

theorem mem_positions_self (f : Formula) : f ∈ f.positions := by
  rw [positions_eq]
  exact .head _

theorem mem_positions_of_mem_subformulas {a f n : Formula} (ha : a ∈ f.subformulas)
    (hn : n ∈ a.positions) : n ∈ f.positions := by
  rw [positions_eq]
  exact .tail _ (List.mem_flatMap.2 ⟨a, ha, hn⟩)

/-! ## Well formed formulas -/

/-- The word is not empty, the number of children fits, and a declaration can be read. -/
def isSound (f : Formula) : Bool :=
  match f.node with
  | .empty => false
  | .predicate _ => true
  | .operator op =>
    op.arity.admits f.args.length &&
      (!op.isQuantifier || f.args.head?.any fun d => (Object.ofDeclaration? d.word).isSome)

def WellFormed (f : Formula) : Prop := ∀ n ∈ f.positions, n.isSound = true

instance (f : Formula) : Decidable f.WellFormed :=
  inferInstanceAs (Decidable (∀ n ∈ f.positions, n.isSound = true))

theorem exists_parameter_of_isSound {j : Junction} {declaration body : Formula}
    (h : (apply j.quantifier [declaration, body]).isSound = true) :
    ∃ p, declaration.parameter = .ok p := by
  have hd : (Object.ofDeclaration? declaration.word).isSome = true := by
    cases j <;> simpa [Formula.isSound, Junction.quantifier, Operator.isQuantifier,
      Operator.arity, Arity.admits] using h
  obtain ⟨p, hp⟩ := Option.isSome_iff_exists.1 hd
  exact ⟨p, by rw [parameter, hp]⟩

/-! ## Declared names -/

/-- A declared parameter with the formula over which it is declared. -/
structure Binder where
  parameter : Object
  body : Formula

def binder? (f : Formula) : Option Binder :=
  match f.shape with
  | .ok (.quantified _ declaration body) =>
    match declaration.parameter with
    | .ok p => some ⟨p, body⟩
    | .error _ => none
  | _ => none

def binders (f : Formula) : List Binder := f.positions.filterMap binder?

def declaredNames (f : Formula) : List String := f.binders.map fun b => b.parameter.name

def Unshadowed (f : Formula) : Prop := ∀ b ∈ f.binders, b.parameter.name ∉ b.body.declaredNames

instance (f : Formula) : Decidable f.Unshadowed :=
  inferInstanceAs (Decidable (∀ b ∈ f.binders, b.parameter.name ∉ b.body.declaredNames))

theorem mem_binders_of_mem_subformulas {a f : Formula} {b : Binder} (ha : a ∈ f.subformulas)
    (hb : b ∈ a.binders) : b ∈ f.binders := by
  obtain ⟨n, hn, hnb⟩ := List.mem_filterMap.1 hb
  exact List.mem_filterMap.2 ⟨n, mem_positions_of_mem_subformulas ha hn, hnb⟩

theorem mem_declaredNames_of_mem_subformulas {a f : Formula} {x : String} (ha : a ∈ f.subformulas)
    (hx : x ∈ a.declaredNames) : x ∈ f.declaredNames := by
  obtain ⟨b, hb, rfl⟩ := List.mem_map.1 hx
  exact List.mem_map.2 ⟨b, mem_binders_of_mem_subformulas ha hb, rfl⟩

theorem Unshadowed.of_mem_subformulas {a f : Formula} (h : f.Unshadowed) (ha : a ∈ f.subformulas) :
    a.Unshadowed :=
  fun b hb => h b (mem_binders_of_mem_subformulas ha hb)

theorem mem_binders_of_shape {f : Formula} {j : Junction} {declaration body : Formula} {p : Object}
    (hs : f.shape = .ok (.quantified j declaration body)) (hp : declaration.parameter = .ok p) :
    ⟨p, body⟩ ∈ f.binders := by
  have hb : f.binder? = some ⟨p, body⟩ := by simp [binder?, hs, hp]
  exact List.mem_filterMap.2 ⟨f, f.mem_positions_self, hb⟩

/-- If nothing that a body declares is bound around it, that remains so below the new binding of a
copy, provided that its object is not named like that either. -/
theorem Unshadowed.fresh_snoc {f : Formula} {b : Binder} {ρ : Scopes} {name : String}
    (hf : f.Unshadowed) (hb : b ∈ f.binders) (hname : name ∉ b.body.declaredNames)
    (hρ : ∀ x ∈ b.body.declaredNames, ρ.Fresh x) :
    ∀ x ∈ b.body.declaredNames, Scopes.Fresh (ρ ++ [⟨b.parameter.name, name⟩]) x := by
  intro x hx
  refine Scopes.fresh_snoc (hρ x hx) ?_ ?_
  · rintro rfl
    exact hf b hb hx
  · rintro rfl
    exact hname hx

end Formula

end PlanLogic
