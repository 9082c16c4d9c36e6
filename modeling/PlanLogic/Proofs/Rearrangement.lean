import Mathlib.Control.Monad.Basic
import PlanLogic.Proofs.Satisfaction

/-!
# PlanLogic.Proofs.Rearrangement

Values do not depend on order or repetition: of the children of junctions, of the objects, of the
facts. Where a junction is settled early, one arrangement may hide a defect that another runs into,
so outcomes differ; but two values never do, since each is the truth value of satisfaction, and that
sees no arrangement.

* `Alike`: equal up to order and repetition of the children of junctions, at any depth.
* `satisfies_iff_of_alike`: formulas that are alike are satisfied alike.
* `value_eq_of_alike`: values found for them over the same objects and facts are the same.
-/

namespace PlanLogic

mutual

inductive Alike : Formula → Formula → Prop where
  | refl (f : Formula) : Alike f f
  | junction (j : Junction) {fs gs : List Formula} : Covered fs gs → Covered gs fs →
      Alike (.apply j.connective fs) (.apply j.connective gs)
  | not {f g : Formula} : Alike f g → Alike (.not f) (.not g)
  | imply {f f' g g' : Formula} : Alike f f' → Alike g g' → Alike (.imply f g) (.imply f' g')
  | when {f f' g g' : Formula} : Alike f f' → Alike g g' → Alike (.when f g) (.when f' g')
  | quantifier (j : Junction) (declaration : Formula) {f g : Formula} : Alike f g →
      Alike (.apply j.quantifier [declaration, f]) (.apply j.quantifier [declaration, g])

/-- Each formula of the first list is alike to one of the second. -/
inductive Covered : List Formula → List Formula → Prop where
  | nil {gs : List Formula} : Covered [] gs
  | cons {f g : Formula} {fs gs : List Formula} : g ∈ gs → Alike f g → Covered fs gs →
      Covered (f :: fs) gs

end

theorem covered_iff {fs gs : List Formula} :
    Covered fs gs ↔ ∀ f ∈ fs, ∃ g ∈ gs, Alike f g := by
  constructor
  · intro h f hf
    induction fs with
    | nil => cases hf
    | cons a fs ih =>
      obtain _ | ⟨hg, ha, hs⟩ := h
      cases hf with
      | head => exact ⟨_, hg, ha⟩
      | tail _ hf => exact ih hs hf
  · intro h
    induction fs with
    | nil => exact .nil
    | cons a fs ih =>
      obtain ⟨g, hg, ha⟩ := h a (.head _)
      exact .cons hg ha (ih fun f hf => h f (.tail _ hf))

/-- The induction is on how the formulas came to be alike; for lists, each member has a counterpart
that is satisfied like it. -/
theorem satisfies_iff_of_alike (M : Interpretation) (read : Scopes → Formula → Formula)
    {f g : Formula} (h : Alike f g) :
    ∀ ρ, M.Satisfies read ρ f ↔ M.Satisfies read ρ g := by
  induction h using Alike.rec (motive_2 := fun fs gs _ => ∀ ρ f, f ∈ fs →
    ∃ g, g ∈ gs ∧ (M.Satisfies read ρ f ↔ M.Satisfies read ρ g)) with
  | refl f => intro ρ; rfl
  | junction j _ _ ih ih' =>
    intro ρ
    rw [M.satisfies_junction, M.satisfies_junction]
    exact j.joins_iff_of_correspond (ih ρ) (ih' ρ)
  | not _ ih =>
    intro ρ
    rw [M.satisfies_not, M.satisfies_not]
    exact not_congr (ih ρ)
  | imply _ _ ih ih' =>
    intro ρ
    rw [M.satisfies_imply, M.satisfies_imply]
    exact imp_congr (ih ρ) (ih' ρ)
  | when _ _ ih ih' =>
    intro ρ
    rw [M.satisfies_when, M.satisfies_when]
    exact imp_congr (ih ρ) (ih' ρ)
  | quantifier j declaration _ ih =>
    intro ρ
    rw [M.satisfies_quantifier, M.satisfies_quantifier]
    cases declaration.parameter with
    | error d => rfl
    | ok p => simp only [ih]
  | nil =>
    rename_i hf
    cases hf
  | cons hg _ _ ih ih' =>
    rename_i ρ f hf
    cases hf with
    | head => exact ⟨_, hg, ih ρ⟩
    | tail _ hf => exact ih' ρ f hf

/-- Two values for formulas that are alike, over the same objects and facts in any order and number,
are the same. -/
theorem value_eq_of_alike {f g : Formula} (h : Alike f g) {c c' : Container}
    {objects objects' : List Object} (ho : ∀ o, o ∈ objects ↔ o ∈ objects')
    {facts facts' : List Fact} (hf : ∀ fact, fact ∈ facts ↔ fact ∈ facts') {v v' : Bool}
    (hv : (evaluate (.of c objects facts) f).outcome = .ok v)
    (hv' : (evaluate (.of c' objects' facts') g).outcome = .ok v') : v = v' := by
  rw [outcome_evaluate] at hv hv'
  have hsat := eq_ok_iff_satisfies f hv
  have hsat' := eq_ok_iff_satisfies g hv'
  rw [interpretation_of] at hsat hsat'
  rw [Interpretation.of_congr ho hf] at hsat
  have halike := satisfies_iff_of_alike (.of objects' facts') Scopes.rewrite h []
  rw [Bool.eq_iff_iff]
  exact hsat.trans (halike.trans hsat'.symm)

/-- Under a quantifier, a part before the settling one is moved behind it and repeated, past a
nameless one; objects and facts are reversed and repeated. -/
theorem value_eq_of_alike_rooms :
    let open' := Formula.predicate "open" ["?x"]
    let clean := Formula.predicate "clean" ["?x"]
    let f := Formula.forAll "?x - room" (.or [clean, open', .leaf ""])
    let g := Formula.forAll "?x - room" (.or [open', .leaf "", clean, open'])
    let objects : List Object := [⟨"hall", "room"⟩, ⟨"ann", "person"⟩, ⟨"attic", "room"⟩]
    let objects' : List Object := objects.reverse ++ objects
    let facts : List Fact := [.ofPredicate "open" ["hall"], .ofPredicate "open" ["attic"]]
    let facts' : List Fact := facts.reverse ++ facts
    Alike f g ∧ (∀ o, o ∈ objects ↔ o ∈ objects') ∧ (∀ fact, fact ∈ facts ↔ fact ∈ facts') ∧
      ∃ v, (evaluate (.of .list objects facts) f).outcome = .ok v ∧
        ∃ v', (evaluate (.of .treeSet objects' facts') g).outcome = .ok v' ∧ v = v' := by
  intro open' clean f g objects objects' facts facts'
  have hfg : Covered [clean, open', .leaf ""] [open', .leaf "", clean, open'] := by
    rw [covered_iff]
    exact fun a ha => ⟨a, (by simp : [clean, open', .leaf ""] ⊆ _) ha, .refl a⟩
  have hgf : Covered [open', .leaf "", clean, open'] [clean, open', .leaf ""] := by
    rw [covered_iff]
    exact fun a ha => ⟨a, (by simp : [open', .leaf "", clean, open'] ⊆ _) ha, .refl a⟩
  have h : Alike f g := .quantifier .all _ (.junction .any hfg hgf)
  have ho : ∀ o, o ∈ objects ↔ o ∈ objects' := by simp [objects']
  have hf : ∀ fact, fact ∈ facts ↔ fact ∈ facts' := by simp [facts']
  have hv : (evaluate (.of .list objects facts) f).outcome = .ok true := by decide +kernel
  have hv' : (evaluate (.of .treeSet objects' facts') g).outcome = .ok true := by decide +kernel
  exact ⟨h, ho, hf, true, hv, true, hv', value_eq_of_alike h ho hf hv hv'⟩

end PlanLogic
