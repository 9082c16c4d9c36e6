import Mathlib.Control.Monad.Basic
import PlanLogic.Proofs.Positions
import PlanLogic.Proofs.Satisfaction

/-!
# PlanLogic.Proofs.Polarity

What growth does to truth. A formula counts towards the whole where it stands under an even number
of negations and premises, and against it elsewhere. If more is known and there are more objects
than before, but only such as count towards the whole, then what was true has not become false.

Two runs are compared that visit different formulas and may end in different defects. Satisfaction
does not: it is carried from one interpretation to a larger one where a formula counts towards the
whole, and back where it counts against it.

* `Formula.occurrences`: the formulas at positions, each with its polarity.
* `Passes`: implication in the direction that a polarity asks for.
* `satisfies_passes`: the induction, for both polarities at once.
* `ne_false_of_growth`: the same for the values of two runs.
-/

namespace PlanLogic

/-- A formula where it stands within another. -/
structure Occurrence where
  formula : Formula
  /-- It stands under an even number of negations and premises. -/
  positive : Bool
  deriving DecidableEq, Repr

namespace Formula

/-- The children at positions, each with whether it counts towards `f` or against it. -/
def signedSubformulas (f : Formula) : List Occurrence :=
  match f.node with
  | .operator .not => f.subformulas.map (⟨·, false⟩)
  | .operator .imply | .operator .when =>
    (f.subformulas.take 1).map (⟨·, false⟩) ++ (f.subformulas.drop 1).map (⟨·, true⟩)
  | _ => f.subformulas.map (⟨·, true⟩)

theorem map_formula_signedSubformulas (f : Formula) :
    f.signedSubformulas.map Occurrence.formula = f.subformulas := by
  unfold signedSubformulas
  generalize f.subformulas = fs
  split <;> cases fs <;> simp [Function.comp_def]

/-- The parts of a sound root, with their signs. -/
def Shape.signedParts : Shape → List Occurrence
  | atom => []
  | negation body => [⟨body, false⟩]
  | junction _ parts => parts.map (⟨·, true⟩)
  | conditional premise conclusion => [⟨premise, false⟩, ⟨conclusion, true⟩]
  | quantified _ _ body => [⟨body, true⟩]

theorem signedSubformulas_eq_signedParts {f : Formula} {s : Shape} (h : f.shape = .ok s) :
    f.signedSubformulas = s.signedParts := by
  unfold signedSubformulas
  rw [subformulas_eq_parts h]
  cases s with
  | atom => split <;> rfl
  | negation body =>
    cases shape_eq_negation_iff.1 h
    simp [Formula.not, Shape.parts, Shape.signedParts]
  | junction j parts =>
    cases shape_eq_junction_iff.1 h
    cases j <;> simp [Junction.connective, Shape.parts, Shape.signedParts]
  | conditional premise conclusion =>
    rcases shape_eq_conditional_iff.1 h with rfl | rfl <;>
      simp [Formula.imply, Formula.when, Shape.parts, Shape.signedParts]
  | quantified j declaration body =>
    cases shape_eq_quantified_iff.1 h
    cases j <;> simp [Junction.quantifier, Shape.parts, Shape.signedParts]

theorem mem_subformulas_of_mem_signedSubformulas {f : Formula} {a : Occurrence}
    (h : a ∈ f.signedSubformulas) : a.formula ∈ f.subformulas := by
  rw [← map_formula_signedSubformulas]
  exact List.mem_map_of_mem h

/-- The formulas at positions of `f`, where `f` itself has the given polarity. -/
def occurrencesFrom (positive : Bool) (f : Formula) : List Occurrence :=
  ⟨f, positive⟩ ::
    f.signedSubformulas.attach.flatMap fun a =>
      occurrencesFrom (bif a.1.positive then positive else !positive) a.1.formula
termination_by f.size
decreasing_by
  exact size_lt_of_mem (mem_args_of_mem_subformulas (mem_subformulas_of_mem_signedSubformulas a.2))

def occurrences (f : Formula) : List Occurrence := f.occurrencesFrom true

theorem mem_occurrencesFrom_self (positive : Bool) (f : Formula) :
    ⟨f, positive⟩ ∈ f.occurrencesFrom positive := by
  rw [occurrencesFrom]
  exact .head _

theorem mem_occurrencesFrom_of_mem_signedSubformulas {f : Formula} {a n : Occurrence}
    {positive : Bool} (ha : a ∈ f.signedSubformulas)
    (hn : n ∈ a.formula.occurrencesFrom (bif a.positive then positive else !positive)) :
    n ∈ f.occurrencesFrom positive := by
  rw [occurrencesFrom]
  exact .tail _ (List.mem_flatMap.2 ⟨⟨a, ha⟩, List.mem_attach _ _, hn⟩)

end Formula

/-! ## Implication by polarity -/

/-- `Q` follows from `P`, or for negative polarity `P` from `Q`. -/
def Passes (positive : Bool) (P Q : Prop) : Prop :=
  match positive with
  | true => P → Q
  | false => Q → P

namespace Passes

variable {positive : Bool} {P P' Q Q' : Prop}

theorem not (h : Passes (!positive) P P') : Passes positive (¬ P) (¬ P') := by
  cases positive with
  | true => exact fun hP hP' => hP (h hP')
  | false => exact fun hP' hP => hP' (h hP)

theorem imp (hP : Passes (!positive) P P') (hQ : Passes positive Q Q') :
    Passes positive (P → Q) (P' → Q') := by
  cases positive with
  | true => exact fun h p' => hQ (h (hP p'))
  | false => exact fun h p => hQ (h (hP p))

/-- What is new among the things joined is of no harm if a single thing can decide for the
polarity. -/
theorem joins {α : Type} (j : Junction) {among among' property property' : α → Prop}
    (hgrow : ∀ a, among a → among' a)
    (hnew : ∀ a, among' a → ¬ among a → j.decisive = positive)
    (h : ∀ a, among' a → Passes positive (property a) (property' a)) :
    Passes positive (j.Joins among property) (j.Joins among' property') := by
  -- Unless new things are of no harm there are none.
  have hold : j.decisive ≠ positive → ∀ a, among' a → among a := by
    intro hno a ha
    by_contra hn
    exact hno (hnew a ha hn)
  cases j <;> cases positive
  · exact fun hall a ha => h a (hgrow a ha) (hall a (hgrow a ha))
  · exact fun hall a ha => h a ha (hall a (hold nofun a ha))
  · rintro ⟨a, ha, hp⟩
    exact ⟨a, hold nofun a ha, h a ha hp⟩
  · rintro ⟨a, ha, hp⟩
    exact ⟨a, hgrow a ha, h a (hgrow a ha) hp⟩

end Passes

/-! ## Growth -/

/-- All that `M` has is in `M'`. -/
structure Interpretation.Grows (M M' : Interpretation) : Prop where
  domain : ∀ type name, M.domain type name → M'.domain type name
  known : ∀ q, M.known q → M'.known q

/-- What `M'` has beyond `M` can only turn `n` the way that its polarity asks for: a predicate to
true where it is positive, and a quantifier likewise. -/
structure Occurrence.Tolerates (n : Occurrence) (M M' : Interpretation) : Prop where
  known : n.formula.isPredicate = true →
    ∀ q, M'.known q → ¬ M.known q → q.word = n.formula.word → n.positive = true
  domain : ∀ b ∈ n.formula.binder?, ∀ name,
    M'.domain b.parameter.type name → ¬ M.domain b.parameter.type name →
      n.formula.node = .operator (if n.positive then .forSome else .forAll)

theorem Junction.decisive_eq_of_quantifier {j : Junction} {positive : Bool}
    (h : j.quantifier = if positive then .forSome else .forAll) : j.decisive = positive := by
  cases j <;> cases positive <;> simp_all [quantifier, decisive]

theorem satisfies_passes {M M' : Interpretation} (hgrow : M.Grows M')
    {read : Scopes → Formula → Formula} (f : Formula) :
    ∀ {positive ρ}, (∀ n ∈ f.occurrencesFrom positive, n.Tolerates M M') →
      Passes positive (M.Satisfies read ρ f) (M'.Satisfies read ρ f) := by
  induction f using Formula.induct_parts with
  | step f ih =>
    intro positive ρ htol
    have hroot := htol _ (Formula.mem_occurrencesFrom_self positive f)
    rw [Interpretation.satisfies_eq, Interpretation.satisfies_eq]
    cases hs : f.shape with
    | error d => cases positive <;> exact id
    | ok s =>
      have hpart : ∀ a ∈ s.signedParts, ∀ ρ,
          Passes (bif a.positive then positive else !positive)
            (M.Satisfies read ρ a.formula) (M'.Satisfies read ρ a.formula) := by
        intro a ha ρ
        rw [← Formula.signedSubformulas_eq_signedParts hs] at ha
        have hmem := Formula.mem_subformulas_of_mem_signedSubformulas ha
        rw [Formula.subformulas_eq_parts hs] at hmem
        exact ih s hs _ hmem fun n hn =>
          htol n (Formula.mem_occurrencesFrom_of_mem_signedSubformulas ha hn)
      cases s with
      | atom =>
        cases positive with
        | true => exact hgrow.known _
        | false =>
          -- A new fact of this word would need a positive occurrence.
          intro hknown
          by_contra hno
          have hpositive := hroot.known (Formula.shape_eq_atom_iff.1 hs) _ hknown hno rfl
          cases hpositive
      | negation body => exact Passes.not (hpart ⟨body, false⟩ (.head _) ρ)
      | junction j parts =>
        refine Passes.joins j (fun _ ha => ha) (fun _ ha hno => absurd ha hno) fun a ha => ?_
        exact hpart ⟨a, true⟩ (List.mem_map_of_mem ha) ρ
      | conditional premise conclusion =>
        exact Passes.imp (hpart ⟨premise, false⟩ (.head _) ρ)
          (hpart ⟨conclusion, true⟩ (.tail _ (.head _)) ρ)
      | quantified j declaration body =>
        simp only
        cases hp : declaration.parameter with
        | error d => cases positive <;> exact id
        | ok p =>
          have hbinder : f.binder? = some ⟨p, body⟩ := by simp [Formula.binder?, hs, hp]
          refine Passes.joins j (hgrow.domain p.type) ?_ fun name _ => hpart _ (.head _) _
          intro name hname hno
          have hnode := hroot.domain _ hbinder name hname hno
          cases Formula.shape_eq_quantified_iff.1 hs
          exact Junction.decisive_eq_of_quantifier (by simpa using hnode)

/-- Let objects and facts be added, so that all predicates with the word of a new fact are positive
in `f`, and all quantifiers over the type of a new object ask for one where they are positive and
for all where they are negative. Then `f` is not found false if it has been found true before. -/
theorem ne_false_of_growth (c c' : Container) {f : Formula} {objects objects' : List Object}
    {facts facts' : List Fact} (ho : objects ⊆ objects') (hf : facts ⊆ facts')
    (hpredicates : ∀ n ∈ f.occurrences, n.formula.isPredicate = true →
      ∀ fact ∈ facts', fact ∉ facts → fact.formula.word = n.formula.word → n.positive = true)
    (hquantifiers : ∀ n ∈ f.occurrences, ∀ b ∈ n.formula.binder?,
      ∀ o ∈ objects', o ∉ objects → o.type = b.parameter.type →
        n.formula.node = .operator (if n.positive then .forSome else .forAll))
    (h : (evaluate (.of c objects facts) f).outcome = .ok true) :
    (evaluate (.of c' objects' facts') f).outcome ≠ .ok false := by
  intro h'
  rw [outcome_evaluate] at h h'
  have hsat := eq_ok_iff_satisfies f h
  have hsat' := eq_ok_iff_satisfies f h'
  rw [interpretation_of] at hsat hsat'
  have hgrow : (Interpretation.of objects facts).Grows (.of objects' facts') :=
    ⟨fun _ _ ho' => ho ho', fun _ hf' => hf hf'⟩
  have htol : ∀ n ∈ f.occurrences, n.Tolerates (.of objects facts) (.of objects' facts') :=
    fun n hn => ⟨fun hp q => hpredicates n hn hp ⟨q⟩,
      fun b hb name hname hno => hquantifiers n hn b hb _ hname hno rfl⟩
  have hpasses : Passes true (Interpretation.Satisfies _ Scopes.rewrite [] f) _ :=
    satisfies_passes hgrow f htol
  exact Bool.false_ne_true (hsat'.2 (hpasses (hsat.1 rfl)))

/-- New meals and new persons: meals are asked for, and it is denied that all persons be full. There
is no new room. In the larger world the bread comes first, is not eaten, and leads to the nameless
formula. -/
theorem ne_false_of_growth_meals :
    let eats := fun m => Formula.predicate "eats" ["ann", m]
    let f := Formula.and [
      .imply (.leaf "hungry") (.forSome "?m - meal" (.or [eats "?m", .leaf ""])),
      .not (.forAll "?x - person" (.predicate "full" ["?x"])),
      .forAll "?r - room" (.predicate "clean" ["?r"])]
    let objects : List Object := [⟨"soup", "meal"⟩, ⟨"ann", "person"⟩, ⟨"hall", "room"⟩]
    let objects' : List Object := [⟨"bread", "meal"⟩, ⟨"bob", "person"⟩] ++ objects
    let facts : List Fact := [⟨.leaf "hungry"⟩, ⟨eats "soup"⟩, .ofPredicate "clean" ["hall"]]
    let facts' : List Fact := [⟨eats "cake"⟩, ⟨.leaf "rain"⟩] ++ facts
    (∀ n ∈ f.occurrences, n.formula.isPredicate = true →
      ∀ fact ∈ facts', fact ∉ facts → fact.formula.word = n.formula.word → n.positive = true) ∧
      (∀ n ∈ f.occurrences, ∀ b ∈ n.formula.binder?,
        ∀ o ∈ objects', o ∉ objects → o.type = b.parameter.type →
          n.formula.node = .operator (if n.positive then .forSome else .forAll)) ∧
      (evaluate (.of .list objects facts) f).outcome = .ok true ∧
      (evaluate (.of .hashSet objects' facts') f).outcome ≠ .ok false := by
  intro eats f objects objects' facts facts'
  have hpredicates : ∀ n ∈ f.occurrences, n.formula.isPredicate = true →
      ∀ fact ∈ facts', fact ∉ facts → fact.formula.word = n.formula.word → n.positive = true := by
    decide +kernel
  have hnew : ∀ n ∈ f.occurrences, ∀ b ∈ n.formula.binder?,
      ∀ o ∈ ([⟨"bread", "meal"⟩, ⟨"bob", "person"⟩] : List Object), o.type = b.parameter.type →
        n.formula.node = .operator (if n.positive then .forSome else .forAll) := by
    decide +kernel
  have hquantifiers : ∀ n ∈ f.occurrences, ∀ b ∈ n.formula.binder?,
      ∀ o ∈ objects', o ∉ objects → o.type = b.parameter.type →
        n.formula.node = .operator (if n.positive then .forSome else .forAll) := by
    intro n hn b hb o ho hno
    exact hnew n hn b hb o ((List.mem_append.1 ho).resolve_right hno)
  have h : (evaluate (.of .list objects facts) f).outcome = .ok true := by decide +kernel
  exact ⟨hpredicates, hquantifiers, h, ne_false_of_growth .list .hashSet
    (List.subset_append_right _ _) (List.subset_append_right _ _) hpredicates hquantifiers h⟩

end PlanLogic
