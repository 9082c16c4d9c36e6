import Mathlib.Control.Monad.Basic
import PlanLogic.Proofs.Outcome
import PlanLogic.Proofs.Positions

/-!
# PlanLogic.Proofs.Defects

Where evaluation fails. A run may end in a copy that is nowhere in the formula that was given, yet
the defect that it reports is one of that formula, found at a site: at the root, or at a part of a
site whose children fit its operator in number. Nothing below unfitting children is looked at.

* `Formula.sites`: the formulas at these places, from the root down and from left to right.
* `Formula.HasDefect`: the defect at a root, in terms of its word and its children.
* `eq_error_cases`: a defect is one at the root or comes from a part, under some bindings.
* `exists_valueIn_of_isSound`: sound sites are enough for a value.
* `Formula.shapeAt`: taking apart by index, which is safe once the number of children is checked.
* `defect_located`: every defect has a site, and without one at any site there is a value.
-/

namespace PlanLogic

namespace Formula

/-- The number of children is one that the operator takes; without an operator, any number is. -/
def fits (f : Formula) : Bool :=
  match f.node with
  | .operator op => op.arity.admits f.args.length
  | _ => true

def sites (f : Formula) : List Formula :=
  f :: if f.fits then f.subformulas.attach.flatMap fun a => sites a.1 else []
termination_by f.size
decreasing_by exact size_lt_of_mem (mem_args_of_mem_subformulas a.2)

theorem mem_sites_self (f : Formula) : f ∈ f.sites := by
  rw [sites]
  exact .head _

theorem fits_of_shape {f : Formula} {s : Shape} (h : f.shape = .ok s) : f.fits = true := by
  unfold fits
  split
  · rename_i op hop
    rw [shape, hop] at h
    exact admits_of_shapeOf h
  · rfl

theorem sites_eq (f : Formula) :
    f.sites =
      f :: match f.shape with
        | .error _ => []
        | .ok s => s.parts.flatMap sites := by
  rw [sites]
  simp only [List.flatMap_subtype, List.unattach_attach]
  cases hs : f.shape with
  | ok s => rw [if_pos (fits_of_shape hs), subformulas_eq_parts hs]
  | error d =>
    -- Children that fit mean that there is no operator, and so no subformula.
    by_cases hfits : f.fits = true
    · have hnone : f.subformulas = [] := by
        unfold fits at hfits
        unfold shape at hs
        unfold subformulas
        split at hs
        · simp [*]
        · cases hs
        · rename_i op hop
          rw [hop] at hfits
          simp [(shapeOf_eq_error_iff.1 hs).1] at hfits
      simp [hnone]
    · rw [if_neg hfits]

theorem mem_sites_of_mem_parts {f a n : Formula} {s : Shape} (hs : f.shape = .ok s)
    (ha : a ∈ s.parts) (hn : n ∈ a.sites) : n ∈ f.sites := by
  rw [sites_eq, hs]
  exact .tail _ (List.mem_flatMap.2 ⟨a, ha, hn⟩)

/-- Sites are positions. -/
theorem mem_positions_of_mem_sites {f n : Formula} (h : n ∈ f.sites) : n ∈ f.positions := by
  induction f using induct_parts with
  | step f ih =>
    rw [sites_eq] at h
    rcases List.mem_cons.1 h with rfl | h
    · exact n.mem_positions_self
    · cases hs : f.shape with
      | error d => simp [hs] at h
      | ok s =>
        rw [hs] at h
        obtain ⟨a, ha, hn⟩ := List.mem_flatMap.1 h
        have ha' : a ∈ f.subformulas := by rwa [subformulas_eq_parts hs]
        exact mem_positions_of_mem_subformulas ha' (ih s hs a ha hn)

/-- `d` is the defect at the root of `f`. -/
def HasDefect (f : Formula) : Defect → Prop
  | .emptyWord => f.word = ""
  | .arity op found => f.word = op.word ∧ f.args.length = found ∧ op.arity.admits found = false
  | .declaration text =>
    ∃ (j : Junction) (declaration body : Formula), f = apply j.quantifier [declaration, body] ∧
      declaration.word = text ∧ Object.ofDeclaration? text = none

theorem hasDefect_of_shape {f : Formula} {d : Defect} (h : f.shape = .error d) :
    f.HasDefect d := by
  cases d with
  | emptyWord => exact shape_eq_emptyWord_iff.1 h
  | arity op found =>
    obtain ⟨hop, hfound, hno⟩ := shape_eq_arity_iff.1 h
    exact ⟨node_eq_operator_iff.1 hop, hfound.symm, hno⟩
  | declaration text =>
    -- Declarations are not read before a quantifier is expanded.
    unfold shape at h
    split at h
    · cases h
    · cases h
    · cases (shapeOf_eq_error_iff.1 h).2

theorem hasDefect_of_parameter {f declaration body : Formula} {j : Junction} {d : Defect}
    (hs : f.shape = .ok (.quantified j declaration body)) (h : declaration.parameter = .error d) :
    f.HasDefect d := by
  unfold parameter at h
  split at h
  · cases h
  · rename_i hnone
    cases h
    exact ⟨j, declaration, body, shape_eq_quantified_iff.1 hs, rfl, hnone⟩

theorem not_hasDefect_of_isSound {f : Formula} {d : Defect} (h : f.isSound = true) :
    ¬ f.HasDefect d := by
  intro hd
  cases d with
  | emptyWord => simp [isSound, node_eq_empty_iff.2 hd] at h
  | arity op found =>
    obtain ⟨hword, rfl, hno⟩ := hd
    simp [isSound, node_eq_operator_iff.2 hword, hno] at h
  | declaration text =>
    obtain ⟨j, declaration, body, rfl, rfl, hnone⟩ := hd
    obtain ⟨p, hp⟩ := exists_parameter_of_isSound h
    rw [parameter, hnone] at hp
    cases hp

/-! ## Children by index -/

/-- The shape of `f`, with each child looked up where an operator has it, after the number of
children has been checked. `none` if there is no child at an index. -/
def shapeAt (f : Formula) : Option (Except Defect Shape) :=
  match f.node with
  | .empty => some (.error .emptyWord)
  | .predicate _ => some (.ok .atom)
  | .operator op =>
    if op.arity.admits f.args.length then
      match op with
      | .not => f.args[0]?.map fun body => .ok (.negation body)
      | .and => some (.ok (.junction .all f.args))
      | .or => some (.ok (.junction .any f.args))
      | .imply | .when =>
        f.args[0]?.bind fun premise =>
          f.args[1]?.map fun conclusion => .ok (.conditional premise conclusion)
      | .forAll =>
        f.args[0]?.bind fun declaration =>
          f.args[1]?.map fun body => .ok (.quantified .all declaration body)
      | .forSome =>
        f.args[0]?.bind fun declaration =>
          f.args[1]?.map fun body => .ok (.quantified .any declaration body)
    else some (.error (.arity op f.args.length))

theorem shapeAt_eq (f : Formula) : f.shapeAt = some f.shape := by
  unfold shapeAt shape
  cases f.node with
  | empty => rfl
  | predicate name => rfl
  | operator op =>
    generalize f.args = args
    cases op <;> rcases args with _ | ⟨a, _ | ⟨b, _ | ⟨c, rest⟩⟩⟩ <;>
      simp [shapeOf, Operator.arity, Arity.admits]

end Formula

/-- The root is defective, or a part is, under these or longer bindings. -/
theorem eq_error_cases {w : World} {ρ : Scopes} {f : Formula} {d : Defect}
    (h : valueIn w ρ f = .error d) :
    f.HasDefect d ∨
      ∃ s, f.shape = .ok s ∧ ∃ a ∈ s.parts, ∃ ρ', valueIn w ρ' a = .error d := by
  rw [valueIn_eq] at h
  cases hs : f.shape with
  | error e =>
    rw [hs] at h
    cases h
    exact .inl (Formula.hasDefect_of_shape hs)
  | ok s =>
    rw [hs] at h
    cases s with
    | atom => cases h
    | negation body => exact .inr ⟨_, rfl, body, .head _, ρ, Outcome.eq_error_of_not h⟩
    | junction j parts =>
      obtain ⟨a, ha, hd⟩ := List.mem_map.1 (Junction.error_mem_of_join h)
      exact .inr ⟨_, rfl, a, ha, ρ, hd⟩
    | conditional premise conclusion =>
      rcases Outcome.eq_error_of_implies h with hp | hc
      · exact .inr ⟨_, rfl, premise, .head _, ρ, hp⟩
      · exact .inr ⟨_, rfl, conclusion, .tail _ (.head _), ρ, hc⟩
    | quantified j declaration body =>
      simp only at h
      cases hp : declaration.parameter with
      | error e =>
        rw [hp] at h
        cases h
        exact .inl (Formula.hasDefect_of_parameter hs hp)
      | ok p =>
        rw [hp] at h
        obtain ⟨name, -, hd⟩ := List.mem_map.1 (Junction.error_mem_of_join h)
        exact .inr ⟨_, rfl, body, .head _, _, hd⟩

/-- The induction is on the formula as it stands, for all bindings at once, so the site is found in
it and not in a copy. -/
theorem exists_site_of_eq_error {w : World} {d : Defect} (f : Formula) :
    ∀ {ρ}, valueIn w ρ f = .error d → ∃ n ∈ f.sites, n.HasDefect d := by
  induction f using Formula.induct_parts with
  | step f ih =>
    intro ρ h
    rcases eq_error_cases h with hd | ⟨s, hs, a, ha, ρ', hd⟩
    · exact ⟨f, f.mem_sites_self, hd⟩
    · obtain ⟨n, hn, hnd⟩ := ih s hs a ha hd
      exact ⟨n, Formula.mem_sites_of_mem_parts hs ha hn, hnd⟩

theorem exists_valueIn_of_isSound {f : Formula} (h : ∀ n ∈ f.sites, n.isSound = true) (w : World)
    (ρ : Scopes) : ∃ v, valueIn w ρ f = .ok v := by
  cases hv : valueIn w ρ f with
  | ok v => exact ⟨v, rfl⟩
  | error d =>
    obtain ⟨n, hn, hd⟩ := exists_site_of_eq_error f hv
    exact absurd hd (Formula.not_hasDefect_of_isSound (h n hn))

/-- A defect that evaluation reports is found at a site of the formula, whatever the world; a
formula without a defect at any site has a value in every world; and no formula is asked for a child
that it does not have. -/
theorem defect_located (f : Formula) :
    (∀ w d, (evaluate w f).outcome = .error d → ∃ n ∈ f.sites, n.HasDefect d) ∧
      ((∀ n ∈ f.sites, ∀ d, ¬ n.HasDefect d) → ∀ w, ∃ v, (evaluate w f).outcome = .ok v) ∧
      ∀ n : Formula, n.shapeAt = some n.shape := by
  have hlocated : ∀ w d, (evaluate w f).outcome = .error d → ∃ n ∈ f.sites, n.HasDefect d := by
    intro w d h
    rw [outcome_evaluate] at h
    exact exists_site_of_eq_error f h
  refine ⟨hlocated, ?_, Formula.shapeAt_eq⟩
  intro hsound w
  cases h : (evaluate w f).outcome with
  | ok v => exact ⟨v, rfl⟩
  | error d =>
    obtain ⟨n, hn, hd⟩ := hlocated w d h
    exact absurd hd (hsound n hn d)

/-- The run of `f` ends in a copy, where `?x` has become `ann`, and the site still has `?x`. In `g`
the arguments of a predicate are no sites, so a nameless one does not matter. -/
theorem defect_located_meals :
    let eats := fun m => Formula.mk "eats" [.leaf "?x", .leaf m]
    let f := Formula.forAll "?x - person" (.or [eats "", .forSome "?m meal" (eats "?m")])
    let g := Formula.forAll "?x - person" (.or [eats "", .forSome "?m - meal" (eats "?m")])
    let w := World.of .list [⟨"ann", "person"⟩] []
    (evaluate w f).outcome = .error (.declaration "?m meal") ∧
      (∃ n ∈ f.sites, n.HasDefect (.declaration "?m meal")) ∧
      (∀ n ∈ g.sites, ∀ d, ¬ n.HasDefect d) ∧ ∀ w, ∃ v, (evaluate w g).outcome = .ok v := by
  intro eats f g w
  have hf : (evaluate w f).outcome = .error (.declaration "?m meal") := by decide +kernel
  have hsound : ∀ n ∈ g.sites, n.isSound = true := by decide +kernel
  have hg : ∀ n ∈ g.sites, ∀ d, ¬ n.HasDefect d := fun n hn _ =>
    Formula.not_hasDefect_of_isSound (hsound n hn)
  exact ⟨hf, (defect_located f).1 w _ hf, hg, (defect_located g).2.1 hg⟩

end PlanLogic
