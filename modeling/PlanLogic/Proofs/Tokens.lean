import PlanLogic.Substitution

/-!
# PlanLogic.Proofs.Tokens

Changing the arguments of predicates. Substitution exchanges some of these arguments and keeps all
else, and it is not alone in that: renaming objects does the same. What they have in common is that
one function is applied to every argument, wherever in a formula a predicate stands.

* `Formula.mapTokens`: the change that a function of arguments makes to formulas.
* `eq_mapTokens`: going child by child determines the change.
* `mapTokens_mapTokens`: two changes in a row are one. How substitution goes together with another
  change is thus a question about single arguments.
* `shape_mapTokens`: the parts of a formula are changed, and all else is kept, defects included.
* `subst_eq_mapTokens`: substitution is such a change, so all of this holds of it (`shape_subst`).
-/

namespace PlanLogic

namespace Formula

mutual

/-- Applies `g` to the arguments of predicates and of formulas with the empty word. Declarations
stay, whatever follows them. -/
def mapTokens (g : Formula → Formula) : Formula → Formula
  | ⟨w, args⟩ =>
    match Operator.ofWord? w with
    | none => ⟨w, args.map g⟩
    | some op =>
      if op.isQuantifier then
        match args with
        | [] => ⟨w, []⟩
        | declaration :: rest => ⟨w, declaration :: mapTokensAll g rest⟩
      else ⟨w, mapTokensAll g args⟩

def mapTokensAll (g : Formula → Formula) : List Formula → List Formula
  | [] => []
  | a :: as => mapTokens g a :: mapTokensAll g as

end

theorem mapTokensAll_eq_map (g : Formula → Formula) (fs : List Formula) :
    mapTokensAll g fs = fs.map (mapTokens g) := by
  induction fs with
  | nil => rfl
  | cons a as ih => rw [mapTokensAll, ih, List.map_cons]

/-- Child by child, whatever the number of children. -/
theorem mapTokens_mk (g : Formula → Formula) (w : String) (args : List Formula) :
    mapTokens g ⟨w, args⟩ =
      ⟨w, match Operator.ofWord? w with
        | none => args.map g
        | some op =>
          if op.isQuantifier then args.take 1 ++ (args.drop 1).map (mapTokens g)
          else args.map (mapTokens g)⟩ := by
  unfold mapTokens
  cases Operator.ofWord? w with
  | none => rfl
  | some op => cases args <;> cases hq : op.isQuantifier <;> simp [hq, mapTokensAll_eq_map]

/-- Whatever goes child by child in this way is the change that `g` makes. -/
theorem eq_mapTokens {g h : Formula → Formula}
    (hmk : ∀ w args, h ⟨w, args⟩ =
      ⟨w, match Operator.ofWord? w with
        | none => args.map g
        | some op =>
          if op.isQuantifier then args.take 1 ++ (args.drop 1).map h
          else args.map h⟩) (f : Formula) : h f = f.mapTokens g := by
  induction f using induct with
  | step w args ih =>
    have hrest : ∀ a ∈ args.drop 1, h a = a.mapTokens g :=
      fun a ha => ih a (List.mem_of_mem_drop ha)
    rw [hmk, mapTokens_mk, List.map_congr_left ih, List.map_congr_left hrest]

theorem mapTokens_id (f : Formula) : f.mapTokens id = f := by
  refine (eq_mapTokens (h := id) (fun w args => ?_) f).symm
  cases Operator.ofWord? w <;> simp [-List.drop_one]

theorem mapTokens_mapTokens (g h : Formula → Formula) (f : Formula) :
    (f.mapTokens g).mapTokens h = f.mapTokens (h ∘ g) := by
  refine eq_mapTokens (h := fun f => (f.mapTokens g).mapTokens h) (fun w args => ?_) f
  simp only [mapTokens_mk]
  cases Operator.ofWord? w with
  | none => simp
  | some op => cases args <;> cases hq : op.isQuantifier <;> simp [hq]

/-! ## What is kept -/

section

variable (g : Formula → Formula)

@[simp] theorem word_mapTokens (f : Formula) : (f.mapTokens g).word = f.word := by
  cases f
  rw [mapTokens_mk]

@[simp] theorem node_mapTokens (f : Formula) : (f.mapTokens g).node = f.node :=
  node_congr (word_mapTokens g f)

theorem args_mapTokens_of_operator {f : Formula} {op : Operator} (h : f.node = .operator op) :
    (f.mapTokens g).args =
      if op.isQuantifier then f.args.take 1 ++ (f.args.drop 1).map (mapTokens g)
      else f.args.map (mapTokens g) := by
  obtain ⟨w, args⟩ := f
  have hw : w = op.word := node_eq_operator_iff.1 h
  simp [mapTokens_mk, hw]

theorem mapTokens_of_predicate {f : Formula} (h : f.isPredicate = true) :
    f.mapTokens g = ⟨f.word, f.args.map g⟩ := by
  obtain ⟨w, args⟩ := f
  have hw : Operator.ofWord? w = none := by
    rw [Operator.ofWord?_eq_none_iff]
    rintro op rfl
    have hn : (Formula.mk op.word args).node = .operator op := node_apply op args
    simp [isPredicate, hn] at h
  simp [mapTokens_mk, hw]

/-- The change is made part by part. -/
theorem shape_mapTokens (f : Formula) :
    (f.mapTokens g).shape = f.shape.map (Shape.mapParts (mapTokens g)) := by
  unfold shape
  rw [node_mapTokens]
  cases h : f.node with
  | empty => rfl
  | predicate name => rfl
  | operator op =>
    simp only [args_mapTokens_of_operator g h]
    generalize f.args = args
    cases op <;> rcases args with _ | ⟨a, _ | ⟨b, _ | ⟨c, rest⟩⟩⟩ <;>
      simp [Operator.isQuantifier, shapeOf, Shape.mapParts, Except.map]

end

/-! ## Substitution -/

theorem word_substToken_single (p o : Object) (a : Formula) :
    (a.substToken (.single p o)).word = if p.name = a.word then o.name else a.word := by
  by_cases h : p.name = a.word <;> simp [substToken, Assignment.single, Object.toFormula, leaf, h]

/-- Of an image, only the name is seen. -/
theorem substToken_congr {σ τ : Assignment} {a : Formula}
    (h : (σ a.word).map Object.name = (τ a.word).map Object.name) :
    a.substToken σ = a.substToken τ := by
  unfold substToken
  cases hσ : σ a.word <;> cases hτ : τ a.word <;> simp_all [Object.toFormula]

section

variable (σ : Assignment)

theorem subst_eq_mapTokens (f : Formula) : f.subst σ = f.mapTokens (substToken σ) :=
  eq_mapTokens (subst_mk σ) f

@[simp] theorem word_subst (f : Formula) : (f.subst σ).word = f.word := by
  rw [subst_eq_mapTokens, word_mapTokens]

@[simp] theorem node_subst (f : Formula) : (f.subst σ).node = f.node :=
  node_congr (word_subst σ f)

theorem subst_of_predicate {f : Formula} (h : f.isPredicate = true) :
    f.subst σ = ⟨f.word, f.args.map (substToken σ)⟩ := by
  rw [subst_eq_mapTokens, mapTokens_of_predicate _ h]

theorem args_subst_of_operator {f : Formula} {op : Operator} (h : f.node = .operator op) :
    (f.subst σ).args =
      if op.isQuantifier then f.args.take 1 ++ (f.args.drop 1).map (subst σ)
      else f.args.map (subst σ) := by
  have hall : mapTokens (substToken σ) = subst σ := funext fun a => (subst_eq_mapTokens σ a).symm
  rw [subst_eq_mapTokens, args_mapTokens_of_operator _ h, hall]

/-- Substitution acts part by part. -/
theorem shape_subst (f : Formula) :
    (f.subst σ).shape = f.shape.map (Shape.mapParts (subst σ)) := by
  have hall : mapTokens (substToken σ) = subst σ := funext fun a => (subst_eq_mapTokens σ a).symm
  rw [subst_eq_mapTokens, shape_mapTokens, hall]

end

end Formula

end PlanLogic
