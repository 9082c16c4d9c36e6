import Mathlib.Control.Monad.Basic
import PlanLogic.Bindings
import PlanLogic.Evaluation.Basic

/-!
# PlanLogic.Proofs.Containers

Where facts and bindings are kept.

Lists and arrays keep facts in their order and as often as they came; sets keep each once, and find
it by its hash code or by its place in the order of formulas. None of this can be told from a run.

Maps keep one binding for a name, and find it by the hash code or by the order of names. Types of
parameters enter into neither, so bindings of one name cover one another whatever their types are,
and none of this can be told from what is substituted.

* `holds_of_congr`: lists of the same facts, in whatever containers, give the same answers.
* `evaluate_eq_of_same_facts`: the answers are those of the listed facts, and the runs over all
  containers are the same.
* `Assignment.LastOf`: of several bindings for a name the last one counts.
* `images_of_last`: both maps are filled so, and a single binding is the map that it fills.
-/

namespace PlanLogic

/-! ## Facts -/

namespace World

variable {facts facts' : List Fact}

theorem holds_of_iff_exists {c : Container} {objects : List Object} {q : Formula} :
    (of c objects facts).holds q = true ↔ ∃ fact ∈ facts, fact.formula = q := by
  rw [holds_of_iff]
  constructor
  · intro h
    exact ⟨⟨q⟩, h, rfl⟩
  · rintro ⟨⟨_⟩, h, rfl⟩
    exact h

theorem holds_of_congr (h : ∀ fact, fact ∈ facts ↔ fact ∈ facts') (c c' : Container)
    (objects : List Object) : (of c objects facts).holds = (of c' objects facts').holds := by
  funext q
  rw [Bool.eq_iff_iff, holds_of_iff, holds_of_iff]
  exact h ⟨q⟩

theorem of_congr (h : ∀ fact, fact ∈ facts ↔ fact ∈ facts') (c c' : Container)
    (objects : List Object) : of c objects facts = of c' objects facts' := by
  rw [← with_holds_of c' c objects facts' facts, holds_of_congr h c c' objects]

end World

/-- Let two lists hold the same facts, in any order and as often as they like. In all containers a
formula holds iff it equals a listed fact, and every formula makes the same run over all of them:
the same value or defect, the same verdicts and the same expansions. -/
theorem evaluate_eq_of_same_facts {facts facts' : List Fact}
    (h : ∀ fact, fact ∈ facts ↔ fact ∈ facts') (c c' : Container) (objects : List Object) :
    (∀ q, (World.of c objects facts).holds q = true ↔ ∃ fact ∈ facts, fact.formula = q) ∧
      (∀ q, (World.of c' objects facts').holds q = (World.of c objects facts).holds q) ∧
      ∀ f, evaluate (.of c' objects facts') f = evaluate (.of c objects facts) f := by
  have hworld := World.of_congr h c c' objects
  refine ⟨fun q => World.holds_of_iff_exists, fun q => ?_, fun f => ?_⟩
  · rw [hworld]
  · rw [hworld]

/-- Trees of which one begins like another, or holds another, stay apart in the sorted set, and a
fact that was listed twice is found in it once. -/
theorem evaluate_eq_of_same_facts_nested :
    let near := fun args => Formula.mk "near" args
    let hall := Formula.leaf "hall"
    let facts : List Fact :=
      [⟨near [hall]⟩, ⟨near [hall, hall]⟩, ⟨near []⟩, ⟨near [near [hall]]⟩]
    let facts' : List Fact :=
      [⟨near [near [hall]]⟩, ⟨near []⟩, ⟨near [hall]⟩, ⟨near []⟩, ⟨near [hall, hall]⟩]
    let objects : List Object := [⟨"hall", "room"⟩, ⟨"yard", "room"⟩]
    let f := Formula.forSome "?r - room" (.not (near [.leaf "?r", hall]))
    (∀ fact, fact ∈ facts ↔ fact ∈ facts') ∧
      (World.of .treeSet objects facts').holds (near [hall, hall]) = true ∧
      (World.of .treeSet objects facts').holds (near [hall, hall, hall]) = false ∧
      (evaluate (.of .list objects facts) f).outcome = .ok true ∧
      (evaluate (.of .treeSet objects facts') f).outcome = .ok true ∧
      (evaluate (.of .hashSet objects facts') f).verdicts =
        (evaluate (.of .array objects facts) f).verdicts := by
  intro near hall facts facts' objects f
  have hsub : ∀ fact ∈ facts, fact ∈ facts' := by decide +kernel
  have hsub' : ∀ fact ∈ facts', fact ∈ facts := by decide +kernel
  have h : ∀ fact, fact ∈ facts ↔ fact ∈ facts' := fun fact => ⟨hsub fact, hsub' fact⟩
  have hvalue : (evaluate (.of .list objects facts) f).outcome = .ok true := by decide +kernel
  obtain ⟨-, hsorted, hrun⟩ := evaluate_eq_of_same_facts h .list .treeSet objects
  obtain ⟨-, -, hrun'⟩ := evaluate_eq_of_same_facts h .array .hashSet objects
  refine ⟨h, ?_, ?_, hvalue, ?_, ?_⟩
  · rw [hsorted]
    decide +kernel
  · rw [hsorted]
    decide +kernel
  · rw [hrun, hvalue]
  · rw [hrun']

/-! ## Bindings -/

namespace Assignment

/-- A token has the image of the last binding for it, and none if there is no binding for it. -/
structure LastOf (bs : List Binding) (σ : Assignment) : Prop where
  eq_some_iff : ∀ token o, σ token = some o ↔
    ∃ before b after, bs = before ++ b :: after ∧ b.parameter.name = token ∧ b.image = o ∧
      ∀ c ∈ after, c.parameter.name ≠ token
  eq_none_iff : ∀ token, σ token = none ↔ ∀ b ∈ bs, b.parameter.name ≠ token

/-- Looking for the first one from the end. -/
theorem ofBindings_eq_some_iff {bs : List Binding} {token : String} {o : Object} :
    ofBindings bs token = some o ↔
      ∃ before b after, bs = before ++ b :: after ∧ b.parameter.name = token ∧ b.image = o ∧
        ∀ c ∈ after, c.parameter.name ≠ token := by
  rw [ofBindings, Option.map_eq_some_iff]
  constructor
  · rintro ⟨b, hfind, rfl⟩
    obtain ⟨hname, after, before, hbs, hlast⟩ := List.find?_eq_some_iff_append.1 hfind
    refine ⟨before.reverse, b, after.reverse, ?_, by simpa using hname, rfl, fun c hc => ?_⟩
    · rw [← List.reverse_reverse bs, hbs]
      simp
    · simpa using hlast c (List.mem_reverse.1 hc)
  · rintro ⟨before, b, after, rfl, hname, rfl, hlast⟩
    refine ⟨b, List.find?_eq_some_iff_append.2 ⟨by simpa using hname, after.reverse,
      before.reverse, by simp, fun c hc => ?_⟩, rfl⟩
    simpa using hlast c (List.mem_reverse.1 hc)

theorem lastOf_ofBindings (bs : List Binding) : LastOf bs (ofBindings bs) where
  eq_some_iff _ _ := ofBindings_eq_some_iff
  eq_none_iff token := by simp [ofBindings]

-- A robot's parameter covers a person's of the same name.
example :
    let bs : List Binding := [⟨⟨"?x", "person"⟩, ⟨"ann", "person"⟩⟩,
      ⟨⟨"?x", "robot"⟩, ⟨"rex", "robot"⟩⟩, ⟨⟨"?y", "person"⟩, ⟨"bob", "person"⟩⟩]
    ofBindings bs "?x" = some ⟨"rex", "robot"⟩ ∧ ofBindings bs "person" = none := by decide

end Assignment

namespace Bindings

/-- Bindings are put into a hash map and into a sorted map, one after another. In both a token then
has the image of the last binding for its name, whatever the types of the parameters are; so has it
with a single binding, which is all that there is to look through. Substitution thus makes the same
of every formula, be it with the one map or the other, or with a single binding instead of the maps
that it fills. -/
theorem images_of_last (bs : List Binding) :
    (Assignment.LastOf bs (image (toHashMap bs)) ∧ Assignment.LastOf bs (image (toTreeMap bs)) ∧
        ∀ f : Formula, f.subst (image (toHashMap bs)) = f.subst (image (toTreeMap bs))) ∧
      ∀ b : Binding, Assignment.LastOf [b] (image b) ∧
        ∀ f : Formula, f.subst (image b) = f.subst (image (toHashMap [b])) ∧
          f.subst (image b) = f.subst (image (toTreeMap [b])) := by
  constructor
  · rw [image_toHashMap, image_toTreeMap]
    have hlast := Assignment.lastOf_ofBindings bs
    exact ⟨hlast, hlast, fun _ => rfl⟩
  · intro b
    rw [image_toHashMap, image_toTreeMap, image_single]
    exact ⟨Assignment.lastOf_ofBindings [b], fun _ => ⟨rfl, rfl⟩⟩

end Bindings

end PlanLogic
