import Mathlib.Control.Monad.Basic
import PlanLogic.Proofs.Defects

/-!
# PlanLogic.Proofs.Conditionals

Doing without conditionals. A conditional says that its premise is false or its conclusion true, but
it judges both parts in any case, whereas the disjunction stops at a false premise. So the
disjunction may have a value where the conditional runs into a defect, and that is the only
difference.

* `Formula.withoutConditionals`: the translation, at all sites of a formula.
* `conditionalFree_withoutConditionals`: no conditional is left at a site of it.
* `Outcome.Below`: the one outcome is a defect, or both are the same value. All connectives keep
  this relation, and `implies_any` is the step that replaces a conditional.
* `valueIn_below`: under any bindings a formula is below its translation. Bindings carry this below
  quantifiers, so the translation is never compared with substitution.
* `withoutConditionals_refines`: the same for evaluation, where no defect at a site means equality.
-/

namespace PlanLogic

namespace Formula

/-- Every conditional at a site becomes a disjunction. What has a defect at its root stays as it is,
with all that is below. -/
def withoutConditionals (f : Formula) : Formula :=
  match _h : f.shape with
  | .error _ => f
  | .ok .atom => f
  | .ok (.negation body) => .not (withoutConditionals body)
  | .ok (.junction j parts) =>
    .apply j.connective (parts.attach.map fun a => withoutConditionals a.1)
  | .ok (.conditional premise conclusion) =>
    .or [.not (withoutConditionals premise), withoutConditionals conclusion]
  | .ok (.quantified j declaration body) =>
    .apply j.quantifier [declaration, withoutConditionals body]
termination_by f.size
decreasing_by
  · exact size_lt_of_mem_parts _h (List.mem_singleton.2 rfl)
  · exact size_lt_of_mem_parts _h a.2
  · exact size_lt_of_mem_parts _h (.head _)
  · exact size_lt_of_mem_parts _h (.tail _ (.head _))
  · exact size_lt_of_mem_parts _h (List.mem_singleton.2 rfl)

theorem withoutConditionals_eq (f : Formula) :
    f.withoutConditionals =
      match f.shape with
      | .error _ => f
      | .ok .atom => f
      | .ok (.negation body) => .not body.withoutConditionals
      | .ok (.junction j parts) => .apply j.connective (parts.map withoutConditionals)
      | .ok (.conditional premise conclusion) =>
        .or [.not premise.withoutConditionals, conclusion.withoutConditionals]
      | .ok (.quantified j declaration body) =>
        .apply j.quantifier [declaration, body.withoutConditionals] := by
  rw [withoutConditionals]
  split <;> simp only [*, List.attach_map_val]

/-- No conditional is left at a site. -/
def ConditionalFree (f : Formula) : Prop :=
  ∀ n ∈ f.sites, ∀ premise conclusion, n.shape ≠ .ok (.conditional premise conclusion)

namespace ConditionalFree

theorem of_shape_error {f : Formula} {d : Defect} (h : f.shape = .error d) :
    f.ConditionalFree := by
  intro n hn premise conclusion
  rw [sites_eq, h] at hn
  rw [List.mem_singleton.1 hn, h]
  nofun

theorem of_shape {f : Formula} {s : Shape} (hs : f.shape = .ok s)
    (hroot : ∀ premise conclusion, s ≠ .conditional premise conclusion)
    (hparts : ∀ a ∈ s.parts, a.ConditionalFree) : f.ConditionalFree := by
  intro n hn premise conclusion
  rw [sites_eq, hs] at hn
  rcases List.mem_cons.1 hn with rfl | hn
  · rw [hs]
    exact fun h => hroot premise conclusion (Except.ok.inj h)
  · obtain ⟨a, ha, hna⟩ := List.mem_flatMap.1 hn
    exact hparts a ha n hna premise conclusion

theorem not {f : Formula} (h : f.ConditionalFree) : (Formula.not f).ConditionalFree :=
  of_shape (shape_eq_negation_iff.2 rfl) nofun (List.forall_mem_singleton.2 h)

theorem junction (j : Junction) {fs : List Formula} (h : ∀ f ∈ fs, f.ConditionalFree) :
    (Formula.apply j.connective fs).ConditionalFree :=
  of_shape (shape_eq_junction_iff.2 rfl) nofun h

end ConditionalFree

theorem conditionalFree_withoutConditionals (f : Formula) :
    f.withoutConditionals.ConditionalFree := by
  induction f using induct_parts with
  | step f ih =>
    rw [withoutConditionals_eq]
    cases hs : f.shape with
    | error d => exact .of_shape_error hs
    | ok s =>
      have hparts := ih s hs
      cases s with
      | atom => exact .of_shape hs nofun nofun
      | negation body => exact .not (hparts body (.head _))
      | junction j parts => exact .junction j (List.forall_mem_map.2 hparts)
      | conditional premise conclusion =>
        have hp := (hparts premise (.head _)).not
        have hc := hparts conclusion (.tail _ (.head _))
        exact .junction .any (List.forall_mem_cons.2 ⟨hp, List.forall_mem_singleton.2 hc⟩)
      | quantified j declaration body =>
        have hbody := hparts body (.head _)
        exact .of_shape (shape_eq_quantified_iff.2 rfl) nofun (List.forall_mem_singleton.2 hbody)

end Formula

/-! ## Outcomes up to defects -/

namespace Outcome

/-- If the first outcome is a value, the second is the same. -/
def Below (x y : Outcome) : Prop := ∀ v, x = .ok v → y = .ok v

namespace Below

theorem refl (x : Outcome) : Below x x := fun _ h => h

theorem not {x y : Outcome} (h : Below x y) : Below x.not y.not := by
  intro v hv
  cases x with
  | error d => cases hv
  | ok b => rw [h b rfl, hv]

theorem join {α : Type} (j : Junction) {g g' : α → Outcome} {as : List α}
    (h : ∀ a ∈ as, Below (g a) (g' a)) : Below (j.join (as.map g)) (j.join (as.map g')) := by
  induction as with
  | nil => exact refl _
  | cons a as ih =>
    have hrest := ih fun b hb => h b (.tail _ hb)
    intro v hv
    rw [List.map_cons, Junction.join]
    rcases Junction.join_cons_eq_ok hv with ⟨ha, rfl⟩ | ⟨ha, hv'⟩
    · simp [h a (.head _) _ ha, Junction.seq]
    · simp [h a (.head _) _ ha, Junction.seq, hrest v hv']

/-- A conditional with a value has two parts with values, of which the disjunction may need one. -/
theorem implies_any {x x' y y' : Outcome} (hx : Below x x') (hy : Below y y') :
    Below (x.implies y) (Junction.any.join [x'.not, y']) := by
  intro v hv
  cases x with
  | error d => cases hv
  | ok p =>
    cases y with
    | error d => cases hv
    | ok c =>
      rw [← hv, hx p rfl, hy c rfl]
      cases p <;> cases c <;> rfl

end Below

end Outcome

theorem valueIn_below (w : World) (f : Formula) :
    ∀ ρ, (valueIn w ρ f).Below (valueIn w ρ f.withoutConditionals) := by
  induction f using Formula.induct_parts with
  | step f ih =>
    intro ρ
    rw [Formula.withoutConditionals_eq, valueIn_eq w ρ f]
    cases hs : f.shape with
    | error d =>
      rw [valueIn_of_shape_error w ρ hs]
      exact .refl _
    | ok s =>
      have hparts := ih s hs
      cases s with
      | atom =>
        simp only
        rw [valueIn_eq w ρ f, hs]
        exact .refl _
      | negation body =>
        simp only
        rw [valueIn_not]
        exact (hparts body (.head _) ρ).not
      | junction j parts =>
        simp only
        rw [valueIn_junction, List.map_map]
        exact .join j fun a ha => hparts a ha ρ
      | conditional premise conclusion =>
        have hp := hparts premise (.head _) ρ
        have hc := hparts conclusion (.tail _ (.head _)) ρ
        have hor : valueIn w ρ (.or [.not premise.withoutConditionals,
            conclusion.withoutConditionals]) = Junction.any.join
              [(valueIn w ρ premise.withoutConditionals).not,
                valueIn w ρ conclusion.withoutConditionals] := by
          rw [← valueIn_not]
          exact valueIn_junction w ρ .any _
        simp only [hor]
        exact .implies_any hp hc
      | quantified j declaration body =>
        simp only
        rw [valueIn_quantifier]
        cases declaration.parameter with
        | error d => exact .refl _
        | ok p => exact .join j fun name _ => hparts body (.head _) _

/-- A formula that has a value has it without its conditionals as well. The translation may gain a
value where the formula has a defect, never another one, and gains nothing if all sites are sound.
There are no conditionals in it. -/
theorem withoutConditionals_refines (w : World) (f : Formula) :
    (∀ v, (evaluate w f).outcome = .ok v → (evaluate w f.withoutConditionals).outcome = .ok v) ∧
      (∀ v, (evaluate w f.withoutConditionals).outcome = .ok v →
        (evaluate w f).outcome = .ok v ∨ ∃ d, (evaluate w f).outcome = .error d) ∧
      ((∀ n ∈ f.sites, n.isSound = true) →
        (evaluate w f.withoutConditionals).outcome = (evaluate w f).outcome) ∧
      f.withoutConditionals.ConditionalFree := by
  simp only [outcome_evaluate]
  have hbelow := valueIn_below w f []
  refine ⟨hbelow, ?_, ?_, f.conditionalFree_withoutConditionals⟩
  · intro v hv
    cases h : valueIn w [] f with
    | error d => exact .inr ⟨d, rfl⟩
    | ok u =>
      have huv := (hbelow u h).symm.trans hv
      exact .inl huv
  · intro hsound
    obtain ⟨u, hu⟩ := exists_valueIn_of_isSound hsound w []
    exact (hbelow u hu).trans hu.symm

/-- In `f` the premise is false, so the disjunction does not come to the nameless conclusion. All
sites of `g` are sound; its conditionals are below a quantifier and below a negation. -/
theorem withoutConditionals_refines_meals :
    let eats := fun x => Formula.mk "eats" [.leaf x]
    let f := Formula.imply (eats "bob") (.leaf "")
    let g := Formula.forAll "?x - person"
      (.when (eats "?x") (.not (.imply (eats "?x") (eats "bob"))))
    let w := World.of .list [⟨"ann", "person"⟩, ⟨"bob", "person"⟩] [⟨eats "ann"⟩]
    (evaluate w f).outcome = .error .emptyWord ∧
      (evaluate w f.withoutConditionals).outcome = .ok true ∧
      (∀ n ∈ g.sites, n.isSound = true) ∧ (evaluate w g).outcome = .ok true ∧
      (evaluate w g.withoutConditionals).outcome = .ok true := by
  intro eats f g w
  have hf : (evaluate w f).outcome = .error .emptyWord := by decide +kernel
  have hf' : (evaluate w f.withoutConditionals).outcome = .ok true := by decide +kernel
  have hsound : ∀ n ∈ g.sites, n.isSound = true := by decide +kernel
  have hg : (evaluate w g).outcome = .ok true := by decide +kernel
  have heq := (withoutConditionals_refines w g).2.2.1 hsound
  exact ⟨hf, hf', hsound, hg, heq.trans hg⟩

end PlanLogic
