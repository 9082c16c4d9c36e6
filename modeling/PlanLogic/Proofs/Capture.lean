import Mathlib.Data.List.Forall2
import Mathlib.Data.Set.Basic
import PlanLogic.Proofs.Components

/-!
# PlanLogic.Proofs.Capture

What a quantifier within the body of another one binds in the copies of that body. A copy has the
same quantifiers at the same places, and an argument is bound by such a quantifier if it has the
declared name. Arguments named like the outer parameter have become tokens of an object, so the
question is what that object is called.

* `Formula.descend`: the formula at the end of a path through subformulas; these are the positions
  (`mem_positions_iff`). Substitution keeps all paths (`descend_subst`).
* `Formula.placesOf`: where the arguments of a name stand, as paths, so that a body and its copy
  can be compared place by place.
* `mem_placesOf_subst_single`: the places of a name in a copy.
* `copies_bind_alike`: inner quantifiers bind in a copy what they bind in the body, unless the
  object of the copy is named like their parameter; then they bind the outer parameter's places too.
-/

namespace PlanLogic

namespace Formula

/-! ## Paths -/

/-- The formula to which a path leads; each step is an index among subformulas. -/
def descend : Formula → List Nat → Option Formula
  | f, [] => some f
  | f, i :: path =>
    match f.subformulas[i]? with
    | some a => a.descend path
    | none => none

theorem descend_subst (σ : Assignment) (path : List Nat) (f : Formula) :
    (f.subst σ).descend path = (f.descend path).map (subst σ) := by
  induction path generalizing f with
  | nil => rfl
  | cons i path ih =>
    simp only [descend, subformulas_subst, List.getElem?_map]
    cases f.subformulas[i]? with
    | none => rfl
    | some a => exact ih a

/-- Positions are where paths lead. -/
theorem mem_positions_iff {f n : Formula} : n ∈ f.positions ↔ ∃ path, f.descend path = some n := by
  constructor
  · intro h
    induction f using induct with
    | step w args ih =>
      rw [positions_eq] at h
      rcases List.mem_cons.1 h with rfl | h
      · exact ⟨[], rfl⟩
      · obtain ⟨a, ha, hn⟩ := List.mem_flatMap.1 h
        obtain ⟨path, hpath⟩ := ih a (mem_args_of_mem_subformulas ha) hn
        obtain ⟨i, hi⟩ := List.mem_iff_getElem?.1 ha
        exact ⟨i :: path, by rw [descend, hi, ← hpath]⟩
  · rintro ⟨path, h⟩
    induction path generalizing f with
    | nil =>
      cases h
      exact mem_positions_self _
    | cons i path ih =>
      rw [descend] at h
      split at h
      · rename_i a ha
        exact mem_positions_of_mem_subformulas (List.mem_of_getElem? ha) (ih h)
      · cases h

/-! ## Places -/

/-- A place for an argument: a path to a predicate, and an index among its arguments. -/
structure Place where
  path : List Nat
  index : Nat
  deriving DecidableEq, Repr

def argument? (f : Formula) (place : Place) : Option Formula :=
  match f.descend place.path with
  | some n => if n.isPredicate then n.args[place.index]? else none
  | none => none

/-- The places where predicates have an argument with the word `x`. -/
def placesOf (f : Formula) (x : String) : Set Place :=
  {place | (f.argument? place).map word = some x}

theorem mem_placesOf {f : Formula} {x : String} {place : Place} :
    place ∈ f.placesOf x ↔ (f.argument? place).map word = some x :=
  Iff.rfl

theorem argument?_subst (σ : Assignment) (f : Formula) (place : Place) :
    (f.subst σ).argument? place = (f.argument? place).map (substToken σ) := by
  unfold argument?
  rw [descend_subst]
  cases f.descend place.path with
  | none => rfl
  | some n =>
    have hword : (n.subst σ).isPredicate = n.isPredicate := by
      rw [isPredicate, isPredicate, node_subst]
    simp only [Option.map_some, hword]
    by_cases hn : n.isPredicate = true
    · simp [hn, subst_of_predicate σ hn]
    · simp [hn]

/-- A name other than the parameter's keeps its places, and gains those of the parameter if the
object has that name. -/
theorem mem_placesOf_subst_single {p o : Object} {x : String} (hx : x ≠ p.name) (f : Formula)
    (place : Place) :
    place ∈ (f.subst (.single p o)).placesOf x ↔
      place ∈ f.placesOf x ∨ o.name = x ∧ place ∈ f.placesOf p.name := by
  simp only [mem_placesOf, argument?_subst]
  cases f.argument? place with
  | none => simp
  | some a =>
    simp only [Option.map_some, Option.some.injEq, word_substToken_single]
    by_cases ha : p.name = a.word
    · simp [ha, ha ▸ hx.symm]
    · simp [ha, Ne.symm ha]

/-! ## Inner quantifiers -/

/-- What a quantifier declares, whatever the number of its children. -/
def declared? (f : Formula) : Option Object :=
  match f.node with
  | .operator op =>
    if op.isQuantifier then f.args.head?.bind fun d => Object.ofDeclaration? d.word else none
  | _ => none

theorem declared?_subst (σ : Assignment) (f : Formula) : (f.subst σ).declared? = f.declared? := by
  unfold declared?
  rw [node_subst]
  split
  · rename_i op hop
    rw [args_subst_of_operator σ hop]
    cases op.isQuantifier <;> cases f.args <;> simp
  · rfl

end Formula

open Formula

/-- Expanding a quantifier keeps what the quantifiers within its body bind, object by object: an
inner quantifier of another name stands at the same path of the copy, declares the same, and binds
the same places. Only in the copy for an object named like the inner parameter it also binds the
places of the outer one. -/
theorem copies_bind_alike (j : Junction) {declaration : Formula} {p : Object}
    (hp : declaration.parameter = .ok p) (body : Formula) (objects : List Object) :
    ∃ e, (Formula.apply j.quantifier [declaration, body]).expand j.quantifier objects = .ok e ∧
      List.Forall₂
        (fun o copy => ∀ path n q, body.descend path = some n → n.declared? = some q →
          q.name ≠ p.name → ∃ n', copy.descend path = some n' ∧ n'.declared? = some q ∧
            (o.name ≠ q.name → n'.placesOf q.name = n.placesOf q.name) ∧
            (o.name = q.name → n'.placesOf q.name = n.placesOf q.name ∪ n.placesOf p.name))
        (objects.filter fun o => o.type = p.type) e.copies := by
  refine ⟨_, (expand_quantifier ..).trans (Expansion.ofBody_eq_ok_iff.2 ⟨p, hp, rfl⟩), ?_⟩
  rw [Formula.copies, List.forall₂_map_right_iff, List.forall₂_same]
  intro o _ path n q hn hq hqp
  have hpath : (body.subst (.single p o)).descend path = some (n.subst (.single p o)) := by
    rw [descend_subst, hn]
    rfl
  refine ⟨_, hpath, (declared?_subst _ n).trans hq, ?_, ?_⟩
  · intro ho
    ext place
    rw [mem_placesOf_subst_single hqp]
    simp [ho]
  · intro ho
    ext place
    rw [mem_placesOf_subst_single hqp]
    simp [ho]

/-- Ann's copy leaves the inner quantifier its single place. The other person is called `?y`, and in
that copy there are two. -/
theorem copies_bind_alike_rooms :
    let inner := fun x => Formula.forSome "?y - room" (.predicate "at" [x, "?y"])
    let body := Formula.or [.leaf "rain", inner "?x"]
    let objects : List Object := [⟨"ann", "person"⟩, ⟨"hall", "room"⟩, ⟨"?y", "person"⟩]
    (Formula.leaf "?x - person").parameter = .ok ⟨"?x", "person"⟩ ∧
      body.descend [1] = some (inner "?x") ∧
      (inner "?x").declared? = some ⟨"?y", "room"⟩ ∧
      (Formula.forAll "?x - person" body).expand .forAll objects = .ok ⟨.forAll, "?x - person", 3,
        [.or [.leaf "rain", inner "ann"], .or [.leaf "rain", inner "?y"]]⟩ ∧
      (inner "ann").placesOf "?y" = (inner "?x").placesOf "?y" ∧
      (inner "?y").placesOf "?y" = (inner "?x").placesOf "?y" ∪ (inner "?x").placesOf "?x" := by
  intro inner body objects
  have hp : (Formula.leaf "?x - person").parameter = .ok ⟨"?x", "person"⟩ := by decide +kernel
  have hpath : body.descend [1] = some (inner "?x") := by decide +kernel
  have hinner : (inner "?x").declared? = some ⟨"?y", "room"⟩ := by decide +kernel
  have hexpand : (Formula.forAll "?x - person" body).expand .forAll objects = .ok ⟨.forAll,
      "?x - person", 3, [.or [.leaf "rain", inner "ann"], .or [.leaf "rain", inner "?y"]]⟩ := by
    decide +kernel
  have hpersons : objects.filter (fun o => o.type = "person") =
      [⟨"ann", "person"⟩, ⟨"?y", "person"⟩] := by decide +kernel
  obtain ⟨e, he, hcopies⟩ := copies_bind_alike .all hp body objects
  cases hexpand.symm.trans he
  rw [hpersons] at hcopies
  obtain ⟨hann, hrest⟩ := List.forall₂_cons.1 hcopies
  obtain ⟨hother, -⟩ := List.forall₂_cons.1 hrest
  obtain ⟨_, hn, -, hplaces, -⟩ := hann [1] _ _ hpath hinner (by decide +kernel)
  cases hn
  obtain ⟨_, hn, -, -, hplaces'⟩ := hother [1] _ _ hpath hinner (by decide +kernel)
  cases hn
  exact ⟨hp, hpath, hinner, hexpand, hplaces (by decide +kernel), hplaces' rfl⟩

/-- The person goes by the name that the inner quantifier declares. In the copy made for that person
the inner quantifier binds both places, and so it is not found that the person is at the hall. -/
theorem person_bound_by_inner_quantifier :
    let located := fun x y => Formula.predicate "at" [x, y]
    let body := Formula.forSome "?y - room" (located "?x" "?y")
    let copy := Formula.forSome "?y - room" (located "?y" "?y")
    let f := Formula.forAll "?x - person" body
    let objects : List Object := [⟨"?y", "person"⟩, ⟨"hall", "room"⟩]
    (Formula.leaf "?x - person").parameter = .ok ⟨"?x", "person"⟩ ∧
      (∀ n ∈ body.positions, ∀ q ∈ n.declared?, q.name ≠ "?x") ∧
      f.expand .forAll objects = .ok ⟨.forAll, "?x - person", 2, [copy]⟩ ∧
      body.declared? = some ⟨"?y", "room"⟩ ∧ copy.declared? = some ⟨"?y", "room"⟩ ∧
      copy.placesOf "?y" ≠ body.placesOf "?y" ∧
      (evaluate (.of .list objects [⟨located "?y" "hall"⟩]) f).outcome = .ok false := by
  intro located body copy f objects
  refine ⟨by decide +kernel, by decide +kernel, by decide +kernel, by decide +kernel,
    by decide +kernel, ?_, by decide +kernel⟩
  intro heq
  have hcopy : ⟨[0], 0⟩ ∈ copy.placesOf "?y" := mem_placesOf.2 (by decide +kernel)
  rw [heq] at hcopy
  have hbody : ¬ (body.argument? ⟨[0], 0⟩).map word = some "?y" := by decide +kernel
  exact hbody (mem_placesOf.1 hcopy)

end PlanLogic
