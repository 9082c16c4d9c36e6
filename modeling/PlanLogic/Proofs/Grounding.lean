import Mathlib.Control.Monad.Basic
import PlanLogic.Proofs.Composition
import PlanLogic.Proofs.Outcome
import PlanLogic.Proofs.Positions

/-!
# PlanLogic.Proofs.Grounding

Doing without objects. Over a given universe each quantifier may be written out as the junction of
its copies, and the formula that results needs no universe any more. This may be done from the
outside in, where the copies are written out further, or from the inside out, where the body is
written out once and copied then.

* `Formula.groundDown`, `groundUp`: the two ways.
* `groundDown_close`: from the outside in, below bindings that are made already.
* `valueIn_groundDown`: what is written out has the value that the formula has in these bindings.
* `Separate`: the bindings, the objects and the parameters below have different names.
* `groundDown_eq_close_groundUp`: then the new binding of a quantifier may be made before all
  others or after them, and both ways write out the same.
* `grounding_agrees`: evaluation needs no objects after either.
-/

namespace PlanLogic

namespace Formula

/-- Copies are smaller than the quantifier, so they can be written out in their turn. A root that
has a defect is left alone, a bad declaration included. -/
def groundDown (objects : List Object) (f : Formula) : Formula :=
  match _h : f.shape with
  | .error _ => f
  | .ok .atom => f
  | .ok (.negation body) => .not (groundDown objects body)
  | .ok (.junction j parts) =>
    .apply j.connective (parts.attach.map fun a => groundDown objects a.1)
  | .ok (.conditional premise conclusion) =>
    ⟨f.word, [groundDown objects premise, groundDown objects conclusion]⟩
  | .ok (.quantified j declaration body) =>
    match _he : Expansion.ofBody j.quantifier declaration body objects with
    | .error _ => f
    | .ok e => .apply j.connective (e.copies.attach.map fun a => groundDown objects a.1)
termination_by f.size
decreasing_by
  · exact size_lt_of_mem_parts _h (List.mem_singleton.2 rfl)
  · exact size_lt_of_mem_parts _h a.2
  · exact size_lt_of_mem_parts _h (.head _)
  · exact size_lt_of_mem_parts _h (.tail _ (.head _))
  · exact Nat.lt_of_le_of_lt (Expansion.size_le_of_mem_copies _he a.2)
      (size_lt_of_mem_parts _h (List.mem_singleton.2 rfl))

theorem groundDown_eq (objects : List Object) (f : Formula) :
    f.groundDown objects =
      match f.shape with
      | .error _ => f
      | .ok .atom => f
      | .ok (.negation body) => .not (body.groundDown objects)
      | .ok (.junction j parts) => .apply j.connective (parts.map (groundDown objects))
      | .ok (.conditional premise conclusion) =>
        ⟨f.word, [premise.groundDown objects, conclusion.groundDown objects]⟩
      | .ok (.quantified j declaration body) =>
        match Expansion.ofBody j.quantifier declaration body objects with
        | .error _ => f
        | .ok e => .apply j.connective (e.copies.map (groundDown objects)) := by
  rw [groundDown]
  split <;> simp only [List.attach_map_val, *]
  split <;> simp only [*]

/-- The body is written out before it is copied. -/
def groundUp (objects : List Object) (f : Formula) : Formula :=
  match _h : f.shape with
  | .error _ => f
  | .ok .atom => f
  | .ok (.negation body) => .not (groundUp objects body)
  | .ok (.junction j parts) =>
    .apply j.connective (parts.attach.map fun a => groundUp objects a.1)
  | .ok (.conditional premise conclusion) =>
    ⟨f.word, [groundUp objects premise, groundUp objects conclusion]⟩
  | .ok (.quantified j declaration body) =>
    match declaration.parameter with
    | .error _ => f
    | .ok p => .apply j.connective ((groundUp objects body).copies p objects)
termination_by f.size
decreasing_by
  · exact size_lt_of_mem_parts _h (List.mem_singleton.2 rfl)
  · exact size_lt_of_mem_parts _h a.2
  · exact size_lt_of_mem_parts _h (.head _)
  · exact size_lt_of_mem_parts _h (.tail _ (.head _))
  · exact size_lt_of_mem_parts _h (List.mem_singleton.2 rfl)

theorem groundUp_eq (objects : List Object) (f : Formula) :
    f.groundUp objects =
      match f.shape with
      | .error _ => f
      | .ok .atom => f
      | .ok (.negation body) => .not (body.groundUp objects)
      | .ok (.junction j parts) => .apply j.connective (parts.map (groundUp objects))
      | .ok (.conditional premise conclusion) =>
        ⟨f.word, [premise.groundUp objects, conclusion.groundUp objects]⟩
      | .ok (.quantified j declaration body) =>
        match declaration.parameter with
        | .error _ => f
        | .ok p => .apply j.connective ((body.groundUp objects).copies p objects) := by
  rw [groundUp]
  split <;> simp only [List.attach_map_val, *]

/-- The copies of a closed body are the body closed once more, so `groundDown` goes on to the same
body below one more binding. -/
theorem groundDown_close (w : World) (ρ : Scopes) (f : Formula) :
    (f.close ρ).groundDown w.objects =
      match f.shape with
      | .error _ => f.close ρ
      | .ok .atom => f.close ρ
      | .ok (.negation body) => .not ((body.close ρ).groundDown w.objects)
      | .ok (.junction j parts) =>
        .apply j.connective (parts.map fun a => (a.close ρ).groundDown w.objects)
      | .ok (.conditional premise conclusion) =>
        ⟨f.word, [(premise.close ρ).groundDown w.objects,
          (conclusion.close ρ).groundDown w.objects]⟩
      | .ok (.quantified j declaration body) =>
        match declaration.parameter with
        | .error _ => f.close ρ
        | .ok p => .apply j.connective ((w.namesOf p.type).map fun name =>
            (body.close (ρ ++ [⟨p.name, name⟩])).groundDown w.objects) := by
  rw [groundDown_eq, shape_close]
  cases f.shape with
  | error d => rfl
  | ok s =>
    cases s with
    | atom => rfl
    | negation body => rfl
    | junction j parts =>
      simp only [Except.map, Shape.mapParts, List.map_map]
      rfl
    | conditional premise conclusion => simp [Except.map, Shape.mapParts]
    | quantified j declaration body =>
      simp only [Except.map, Shape.mapParts, Expansion.ofBody]
      cases declaration.parameter with
      | error d => rfl
      | ok p =>
        simp only [copies_close, List.map_map]
        rfl

end Formula

/-! ## Values -/

/-- The same facts, over nothing. -/
def World.withoutObjects (w : World) : World := { w with objects := [] }

theorem valueIn_conditional (w : World) (ρ : Scopes) {f premise conclusion : Formula}
    (h : f.shape = .ok (.conditional premise conclusion)) (g g' : Formula) :
    valueIn w ρ ⟨f.word, [g, g']⟩ = (valueIn w ρ g).implies (valueIn w ρ g') := by
  rcases Formula.shape_eq_conditional_iff.1 h with rfl | rfl
  · exact valueIn_imply w ρ g g'
  · exact valueIn_when w ρ g g'

theorem valueIn_groundDown (w : World) (f : Formula) :
    ∀ ρ, valueIn w.withoutObjects [] ((f.close ρ).groundDown w.objects) = valueIn w ρ f := by
  induction f using Formula.induct_parts with
  | step f ih =>
    intro ρ
    rw [Formula.groundDown_close, valueIn_eq w ρ f]
    cases hs : f.shape with
    | error d => rw [valueIn_close, valueIn_eq, hs]
    | ok s =>
      have hparts := ih s hs
      cases s with
      | atom =>
        rw [valueIn_close, valueIn_eq, hs]
        rfl
      | negation body =>
        rw [valueIn_not, hparts body (.head _)]
      | junction j parts =>
        rw [valueIn_junction, List.map_map]
        exact congrArg j.join (List.map_congr_left fun a ha => hparts a ha ρ)
      | conditional premise conclusion =>
        rw [valueIn_conditional _ _ hs, hparts premise (.head _),
          hparts conclusion (.tail _ (.head _))]
      | quantified j declaration body =>
        simp only
        cases hp : declaration.parameter with
        | error d =>
          simp only
          rw [valueIn_close, valueIn_eq, hs]
          simp only [hp]
        | ok p =>
          simp only
          rw [valueIn_junction, List.map_map]
          exact congrArg j.join (List.map_congr_left fun name _ => hparts body (.head _) _)

/-! ## Order -/

namespace Formula

/-- Nothing that `f` declares is declared again below it, and parameters that are bound around `f`,
parameters that are declared in it and objects have different names. -/
structure Separate (w : World) (ρ : Scopes) (f : Formula) : Prop where
  unshadowed : f.Unshadowed
  fresh : ∀ x ∈ f.declaredNames, ρ.Fresh x
  declared : ∀ o ∈ w.objects, o.name ∉ f.declaredNames
  bound : ∀ s ∈ ρ, ∀ o ∈ w.objects, o.name ≠ s.parameter

namespace Separate

variable {w : World} {ρ : Scopes} {f a : Formula} {s : Shape}

theorem of_mem_parts (h : Separate w ρ f) (hs : f.shape = .ok s) (ha : a ∈ s.parts) :
    Separate w ρ a := by
  rw [← subformulas_eq_parts hs] at ha
  have hnames := fun x => mem_declaredNames_of_mem_subformulas (x := x) ha
  exact ⟨h.unshadowed.of_mem_subformulas ha, fun x hx => h.fresh x (hnames x hx),
    fun o ho hx => h.declared o ho (hnames _ hx), h.bound⟩

variable {j : Junction} {declaration body : Formula} {p o : Object}

theorem of_body (h : Separate w ρ f) (hs : f.shape = .ok (.quantified j declaration body))
    (hp : declaration.parameter = .ok p) (ho : o ∈ w.objects) :
    Separate w (ρ ++ [⟨p.name, o.name⟩]) body := by
  have hbody := h.of_mem_parts hs (.head _)
  have hb := mem_binders_of_shape hs hp
  have hfresh := h.unshadowed.fresh_snoc hb (hbody.declared o ho) hbody.fresh
  refine { hbody with fresh := hfresh, bound := ?_ }
  intro s hmem o' ho'
  rcases List.mem_append.1 hmem with hmem | hmem
  · exact h.bound s hmem o' ho'
  · rw [List.mem_singleton.1 hmem]
    intro hname
    exact h.declared o' ho' (List.mem_map.2 ⟨_, hb, hname.symm⟩)

theorem apart (h : Separate w ρ f) (hs : f.shape = .ok (.quantified j declaration body))
    (hp : declaration.parameter = .ok p) (ho : o ∈ w.objects) :
    ∀ t ∈ ρ, (Scope.mk p.name o.name).Apart t := by
  intro t ht
  have hfresh := h.fresh p.name (List.mem_map.2 ⟨_, mem_binders_of_shape hs hp, rfl⟩)
  exact ⟨(hfresh t ht).1.symm, h.bound t ht o ho, (hfresh t ht).2⟩

end Separate

theorem groundDown_eq_close_groundUp {w : World} (f : Formula) :
    ∀ {ρ}, Separate w ρ f → (f.close ρ).groundDown w.objects = (f.groundUp w.objects).close ρ := by
  induction f using induct_parts with
  | step f ih =>
    intro ρ h
    rw [groundDown_close, groundUp_eq]
    cases hs : f.shape with
    | error d => rfl
    | ok s =>
      have hpart : ∀ a ∈ s.parts,
          (a.close ρ).groundDown w.objects = (a.groundUp w.objects).close ρ :=
        fun a ha => ih s hs a ha (h.of_mem_parts hs ha)
      cases s with
      | atom => rfl
      | negation body =>
        simp only [hpart body (.head _), Formula.not]
        rw [close_apply rfl]
        rfl
      | junction j parts =>
        simp only
        rw [close_apply j.isQuantifier_connective, List.map_map]
        exact congrArg _ (List.map_congr_left hpart)
      | conditional premise conclusion =>
        have hp := hpart premise (.head _)
        have hc := hpart conclusion (.tail _ (.head _))
        simp only [hp, hc]
        rcases shape_eq_conditional_iff.1 hs with rfl | rfl
        · exact (close_apply (rfl : Operator.imply.isQuantifier = false) ρ [_, _]).symm
        · exact (close_apply (rfl : Operator.when.isQuantifier = false) ρ [_, _]).symm
      | quantified j declaration body =>
        simp only
        cases hp : declaration.parameter with
        | error d => rfl
        | ok p =>
          have hcopies := copies_close w [] (body.groundUp w.objects) p
          rw [close_nil] at hcopies
          simp only [hcopies]
          rw [close_apply j.isQuantifier_connective, List.map_map]
          refine congrArg _ (List.map_congr_left fun name hname => ?_)
          have ho := mem_namesOf.1 hname
          calc (body.close (ρ ++ [⟨p.name, name⟩])).groundDown w.objects
              = (body.groundUp w.objects).close (ρ ++ [⟨p.name, name⟩]) :=
                ih _ hs body (.head _) (h.of_body hs hp ho)
            _ = (body.groundUp w.objects).close (⟨p.name, name⟩ :: ρ) :=
                (close_cons_eq_snoc (h.apart hs hp ho) _).symm

end Formula

/-- Written out from the outside in, a formula evaluates to the same over no objects at all. Written
out from the inside out it is the same formula, if no quantifier declares the name of an enclosing
one and no object is named like a parameter. -/
theorem grounding_agrees (w : World) (f : Formula) :
    (evaluate w.withoutObjects (f.groundDown w.objects)).outcome = (evaluate w f).outcome ∧
      (f.Unshadowed → (∀ o ∈ w.objects, o.name ∉ f.declaredNames) →
        f.groundDown w.objects = f.groundUp w.objects) := by
  rw [outcome_evaluate, outcome_evaluate]
  refine ⟨valueIn_groundDown w f [], fun hf ho => ?_⟩
  have hseparate : Formula.Separate w [] f :=
    ⟨hf, fun x _ => Scopes.fresh_nil x, ho, nofun⟩
  exact Formula.groundDown_eq_close_groundUp f hseparate

/-- Two persons and one meal make two copies, each with a disjunction of one. -/
theorem grounding_agrees_meals :
    let hungry := fun x => Formula.predicate "hungry" [x]
    let eats := fun x m => Formula.predicate "eats" [x, m]
    let f := Formula.forAll "?x - person"
      (.imply (hungry "?x") (.forSome "?m - meal" (eats "?x" "?m")))
    let ground := fun x => Formula.imply (hungry x) (.or [eats x "soup"])
    let w := World.of .list [⟨"soup", "meal"⟩, ⟨"ann", "person"⟩, ⟨"bob", "person"⟩]
      [⟨hungry "ann"⟩, ⟨eats "ann" "soup"⟩]
    f.Unshadowed ∧ (∀ o ∈ w.objects, o.name ∉ f.declaredNames) ∧
      f.groundUp w.objects = .and [ground "ann", ground "bob"] ∧
      f.groundDown w.objects = .and [ground "ann", ground "bob"] ∧
      (evaluate w.withoutObjects (.and [ground "ann", ground "bob"])).outcome = .ok true := by
  intro hungry eats f ground w
  have hf : f.Unshadowed := by decide +kernel
  have ho : ∀ o ∈ w.objects, o.name ∉ f.declaredNames := by decide +kernel
  have hup : f.groundUp w.objects = .and [ground "ann", ground "bob"] := by decide +kernel
  have htrue : (evaluate w f).outcome = .ok true := by decide +kernel
  obtain ⟨hvalue, htree⟩ := grounding_agrees w f
  have hdown := (htree hf ho).trans hup
  rw [hdown] at hvalue
  exact ⟨hf, ho, hup, hdown, hvalue.trans htrue⟩

-- An object named like the inner parameter is caught by it, but from the outside in only.
example :
    let near := fun x => Formula.predicate "near" [x]
    let f := Formula.forAll "?x - person" (.forAll "?y - room" (near "?x"))
    let objects : List Object := [⟨"?y", "person"⟩, ⟨"hall", "room"⟩]
    f.groundDown objects = .and [.and [near "hall"]] ∧
      f.groundUp objects = .and [.and [near "?y"]] := by decide +kernel

end PlanLogic
