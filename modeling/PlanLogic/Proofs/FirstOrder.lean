import Mathlib.Control.Monad.Basic
import PlanLogic.Proofs.Defects
import PlanLogic.Proofs.Satisfaction

/-!
# PlanLogic.Proofs.FirstOrder

Evaluation against first-order satisfaction, where parameters are looked up all at once and a
quantifier binds the name that it declares. Three steps:

* `exists_valueIn_of_wellFormed`: a well formed formula has a value in every world.
* `eq_ok_iff_satisfies` (in `Satisfaction`): the value is satisfaction, with arguments rewritten
  binding by binding.
* `satisfies_rewrite_iff_lookup`: rewriting and looking up come to the same if no quantifier
  shadows another and no name in the domains is a declared one. Then every binding that is added is
  fresh for those around it, which is what the induction carries.

`evaluate_iff_satisfies` puts them together.
-/

namespace PlanLogic

theorem exists_valueIn_of_wellFormed {f : Formula} (h : f.WellFormed) (w : World) (ρ : Scopes) :
    ∃ v, valueIn w ρ f = .ok v :=
  exists_valueIn_of_isSound (fun n hn => h n (Formula.mem_positions_of_mem_sites hn)) w ρ

theorem satisfies_rewrite_iff_lookup {M : Interpretation} (f : Formula) :
    f.Unshadowed → (∀ type name, M.domain type name → name ∉ f.declaredNames) →
      ∀ {ρ : Scopes}, (∀ a, Scopes.rewrite ρ a = Scopes.lookup ρ a) →
        (∀ x ∈ f.declaredNames, Scopes.Fresh ρ x) →
        (M.Satisfies Scopes.rewrite ρ f ↔ M.Satisfies Scopes.lookup ρ f) := by
  induction f using Formula.induct_parts with
  | step f ih =>
    intro hf hM ρ hρ hfresh
    rw [Interpretation.satisfies_eq, Interpretation.satisfies_eq]
    cases hs : f.shape with
    | error d => rfl
    | ok s =>
      have hsub : ∀ a ∈ s.parts, a ∈ f.subformulas := by
        intro a ha
        rwa [Formula.subformulas_eq_parts hs]
      have hnames : ∀ a ∈ s.parts, ∀ x ∈ a.declaredNames, x ∈ f.declaredNames := fun a ha x hx =>
        Formula.mem_declaredNames_of_mem_subformulas (hsub a ha) hx
      have hpart : ∀ a ∈ s.parts, ∀ {ρ : Scopes}, (∀ b, Scopes.rewrite ρ b = Scopes.lookup ρ b) →
          (∀ x ∈ a.declaredNames, Scopes.Fresh ρ x) →
          (M.Satisfies Scopes.rewrite ρ a ↔ M.Satisfies Scopes.lookup ρ a) := by
        intro a ha
        exact ih s hs a ha (hf.of_mem_subformulas (hsub a ha)) fun type name hd hx =>
          hM type name hd (hnames a ha name hx)
      have hhere : ∀ a ∈ s.parts,
          (M.Satisfies Scopes.rewrite ρ a ↔ M.Satisfies Scopes.lookup ρ a) := fun a ha =>
        hpart a ha hρ fun x hx => hfresh x (hnames a ha x hx)
      cases s with
      | atom =>
        have hargs : Scopes.rewrite ρ = Scopes.lookup ρ := funext hρ
        simp only [hargs]
      | negation body => exact not_congr (hhere body (.head _))
      | junction j parts => exact j.joins_congr hhere
      | conditional premise conclusion =>
        exact imp_congr (hhere premise (.head _)) (hhere conclusion (.tail _ (.head _)))
      | quantified j declaration body =>
        simp only
        cases hp : declaration.parameter with
        | error d => rfl
        | ok p =>
          have hb := Formula.mem_binders_of_shape hs hp
          have hpf : p.name ∈ f.declaredNames := List.mem_map.2 ⟨_, hb, rfl⟩
          -- The new parameter is not declared again below (`hf`) and the new object is no declared
          -- name (`hM`), so the longer list is fresh for all that the body declares.
          have hbody := hnames body (.head _)
          refine j.joins_congr fun name hname => hpart body (.head _) ?_ ?_
          · exact Scopes.rewrite_eq_lookup_snoc (hfresh p.name hpf) hρ
          · exact hf.fresh_snoc hb (fun hx => hM p.type name hname (hbody name hx))
              fun x hx => hfresh x (hbody x hx)

/-- A well formed formula without shadowing, over objects that are not named like parameters,
evaluates to a value, and the value is first-order satisfaction. -/
theorem evaluate_iff_satisfies (c : Container) {objects : List Object} (facts : List Fact)
    {f : Formula} (hf : f.WellFormed) (hu : f.Unshadowed)
    (ho : ∀ o ∈ objects, o.name ∉ f.declaredNames) :
    ∃ v, (evaluate (.of c objects facts) f).outcome = .ok v ∧
      (v = true ↔ (Interpretation.of objects facts).Satisfies Scopes.lookup [] f) := by
  obtain ⟨v, hv⟩ := exists_valueIn_of_wellFormed hf (.of c objects facts) []
  have hsat := eq_ok_iff_satisfies f hv
  rw [interpretation_of] at hsat
  have hM : ∀ type name, (Interpretation.of objects facts).domain type name →
      name ∉ f.declaredNames := fun type name h => ho ⟨name, type⟩ h
  have hlookup := satisfies_rewrite_iff_lookup f hu hM (fun _ => rfl) fun x _ => Scopes.fresh_nil x
  rw [outcome_evaluate]
  exact ⟨v, hv, hsat.trans hlookup⟩

/-- Nested quantifiers over two types, a premise, and an argument that has children of its own. -/
theorem evaluate_iff_satisfies_meals :
    let eats := Formula.mk "eats" [⟨"?x", [.leaf "?m"]⟩, .leaf "?m"]
    let f := Formula.forAll "?x - person" (.imply (.predicate "hungry" ["?x"])
      (.forSome "?m - meal" (.and [.not (.predicate "spoiled" ["?m"]), eats])))
    let objects : List Object := [⟨"soup", "meal"⟩, ⟨"ann", "person"⟩, ⟨"bob", "person"⟩]
    let facts : List Fact := [.ofPredicate "eats" ["ann", "soup"], .ofPredicate "hungry" ["ann"]]
    f.WellFormed ∧ f.Unshadowed ∧ (∀ o ∈ objects, o.name ∉ f.declaredNames) ∧
      (Interpretation.of objects facts).Satisfies Scopes.lookup [] f := by
  intro eats f objects facts
  have hf : f.WellFormed := by decide +kernel
  have hu : f.Unshadowed := by decide +kernel
  have ho : ∀ o ∈ objects, o.name ∉ f.declaredNames := by decide +kernel
  have htrue : (evaluate (.of .list objects facts) f).outcome = .ok true := by decide +kernel
  obtain ⟨v, hv, hsat⟩ := evaluate_iff_satisfies .list facts hf hu ho
  have hvtrue : v = true := Except.ok.inj (hv.symm.trans htrue)
  exact ⟨hf, hu, ho, hsat.1 hvtrue⟩

end PlanLogic
