import Mathlib.Control.Monad.Basic
import Mathlib.Logic.Equiv.Basic
import PlanLogic.Proofs.Simulation

/-!
# PlanLogic.Proofs.Renaming

Objects under other names. Evaluation compares names, to find arguments that a parameter stands for
and to look up facts, and does nothing else with them. So if all objects are renamed at once, in the
world and in the formula, and no two names become one, then the run is the same under the new names.
Only the names of parameters must stay, since declarations do.

* `Formula.rename`: renaming, wherever substitution would look; likewise for objects, facts and
  events.
* `rename_subst`: renaming after substitution is substitution of the renamed object after renaming.
  This comes down to single arguments.
* `World.Renames`: one world is the other under new names; `renames_of` says this of lists.
* `evaluate_rename_eq_view`: the run is the other run, event by event under the new names.
* `evaluate_rename`: the same for values and verdicts.
-/

namespace PlanLogic

variable {r : String → String}

/-! ## New names -/

namespace Formula

/-- An argument under a new name, with the children that it has. -/
def renameToken (r : String → String) (a : Formula) : Formula := ⟨r a.word, a.args⟩

def rename (r : String → String) (f : Formula) : Formula := f.mapTokens (renameToken r)

theorem renameToken_injective (hr : Function.Injective r) :
    Function.Injective (renameToken r) := by
  rintro ⟨v, as⟩ ⟨w, bs⟩ h
  simp only [renameToken, mk.injEq] at h
  rw [hr h.1, h.2]

theorem shape_rename (f : Formula) :
    (f.rename r).shape = f.shape.map (Shape.mapParts (rename r)) :=
  shape_mapTokens _ f

theorem rename_of_predicate {f : Formula} (h : f.isPredicate = true) :
    f.rename r = ⟨f.word, f.args.map (renameToken r)⟩ :=
  mapTokens_of_predicate _ h

end Formula

def Object.rename (r : String → String) (o : Object) : Object := { o with name := r o.name }

/-- The direct arguments under new names, whatever the fact is headed by. -/
def Fact.rename (r : String → String) (fact : Fact) : Fact :=
  ⟨⟨fact.formula.word, fact.formula.args.map (Formula.renameToken r)⟩⟩

theorem Fact.rename_injective (hr : Function.Injective r) : Function.Injective (Fact.rename r) := by
  rintro ⟨v, as⟩ ⟨w, bs⟩ h
  simp only [rename, mk.injEq, Formula.mk.injEq] at h
  have hargs : as = bs := (Formula.renameToken_injective hr).list_map h.2
  rw [h.1, hargs]

def Verdict.rename (r : String → String) (v : Verdict) : Verdict :=
  { v with formula := v.formula.rename r }

def Expansion.rename (r : String → String) (e : Expansion) : Expansion :=
  { e with copies := e.copies.map (Formula.rename r) }

def Event.rename (r : String → String) : Event → Event
  | expanded e => expanded (e.rename r)
  | judged v => judged (v.rename r)

/-! ## Copies -/

namespace Formula

/-- An argument has the parameter's name iff it has it after renaming, since the name stays and no
other name becomes the same. -/
theorem renameToken_substToken (hr : Function.Injective r) {p : Object} (hp : r p.name = p.name)
    (o : Object) (a : Formula) :
    renameToken r (substToken (.single p o) a) =
      substToken (.single p (o.rename r)) (renameToken r a) := by
  by_cases h : p.name = a.word
  · have h' : p.name = r a.word := by rw [← h, hp]
    simp [substToken, Assignment.single, renameToken, Object.toFormula, Object.rename, leaf, h,
      ← h']
  · have h' : p.name ≠ r a.word := by
      rw [← hp]
      exact fun e => h (hr e)
    simp [substToken, Assignment.single, renameToken, h, h']

theorem rename_subst (hr : Function.Injective r) {p : Object} (hp : r p.name = p.name) (o : Object)
    (f : Formula) :
    (f.subst (.single p o)).rename r = (f.rename r).subst (.single p (o.rename r)) := by
  have htokens : renameToken r ∘ substToken (.single p o) =
      substToken (.single p (o.rename r)) ∘ renameToken r :=
    funext (renameToken_substToken hr hp o)
  simp only [rename, subst_eq_mapTokens, mapTokens_mapTokens, htokens]

theorem copies_rename (hr : Function.Injective r) {p : Object} (hp : r p.name = p.name)
    (body : Formula) (objects : List Object) :
    (body.rename r).copies p (objects.map (Object.rename r)) =
      (body.copies p objects).map (rename r) := by
  have htype : (fun o : Object => decide (o.type = p.type)) ∘ Object.rename r =
      fun o => decide (o.type = p.type) := rfl
  simp only [copies, List.filter_map, htype, List.map_map]
  exact List.map_congr_left fun o _ => (rename_subst hr hp o body).symm

end Formula

theorem Expansion.ofBody_rename (hr : Function.Injective r) (q : Operator)
    {declaration : Formula} (h : ∀ p, declaration.parameter = .ok p → r p.name = p.name)
    (body : Formula) (objects : List Object) :
    ofBody q declaration (body.rename r) (objects.map (Object.rename r)) =
      (ofBody q declaration body objects).map (Expansion.rename r) := by
  unfold ofBody
  cases hp : declaration.parameter with
  | error d => rfl
  | ok p => simp [Except.map, Expansion.rename, Formula.copies_rename hr (h p hp)]

/-! ## Worlds -/

/-- `w'` is `w` under new names, as far as evaluation can see. -/
structure World.Renames (r : String → String) (w w' : World) : Prop where
  objects : w'.objects = w.objects.map (Object.rename r)
  holds : ∀ q : Formula, q.isPredicate = true → w'.holds (q.rename r) = w.holds q

theorem World.renames_of (hr : Function.Injective r) (c c' : Container) (objects : List Object)
    (facts : List Fact) :
    World.Renames r (.of c objects facts)
      (.of c' (objects.map (Object.rename r)) (facts.map (Fact.rename r))) where
  objects := by rw [World.objects_of, World.objects_of]
  holds := by
    intro q hq
    have hfact : Fact.mk (q.rename r) = Fact.rename r ⟨q⟩ := by
      rw [Fact.rename, Formula.rename_of_predicate hq]
    rw [Bool.eq_iff_iff, World.holds_of_iff, World.holds_of_iff, hfact]
    exact List.mem_map_of_injective (Fact.rename_injective hr)

/-! ## Runs -/

/-- Copies of what is renamed are renamed copies, as long as the names of parameters stay. -/
def World.Renames.simulation (hr : Function.Injective r) {w w' : World} (hw : w.Renames r w') :
    Simulation w w' where
  formula := Formula.rename r
  expansion := Expansion.rename r
  Covers f := ∀ x ∈ f.declaredNames, r x = x
  covers_component hf ha := fun x hx => hf x (mem_declaredNames_of_component ha hx)
  shape_formula := Formula.shape_rename
  holds_formula _ hpred := hw.holds _ hpred
  copies_expansion _ := rfl
  ofBody_formula := by
    intro f j declaration body hf hs
    have hdeclared : ∀ p, declaration.parameter = .ok p → r p.name = p.name := fun p hp =>
      hf p.name (List.mem_map.2 ⟨_, Formula.mem_binders_of_shape hs hp, rfl⟩)
    rw [hw.objects]
    exact Expansion.ofBody_rename hr j.quantifier hdeclared body w.objects

theorem evaluate_rename_eq_view (hr : Function.Injective r) {w w' : World} (hw : w.Renames r w')
    (f : Formula) (hf : ∀ x ∈ f.declaredNames, r x = x) :
    evaluate w' (f.rename r) = (evaluate w f).view (some ∘ Event.rename r) := by
  have hevent : (hw.simulation hr).event = Event.rename r := by
    funext e
    cases e <;> rfl
  rw [← hevent]
  exact (hw.simulation hr).evaluate_eq_view f hf

/-- Rename all objects, in the world and in the formula, so that no two names become one and the
names that the formula declares stay. Then the value or the defect is the same as before, and so are
the verdicts, under the new names. -/
theorem evaluate_rename (hr : Function.Injective r) {f : Formula}
    (hf : ∀ x ∈ f.declaredNames, r x = x) (c c' : Container) (objects : List Object)
    (facts : List Fact) :
    let w := World.of c objects facts
    let w' := World.of c' (objects.map (Object.rename r)) (facts.map (Fact.rename r))
    (evaluate w' (f.rename r)).outcome = (evaluate w f).outcome ∧
      (evaluate w' (f.rename r)).verdicts = (evaluate w f).verdicts.map (Verdict.rename r) := by
  intro w w'
  have h := evaluate_rename_eq_view hr (World.renames_of hr c c' objects facts) f hf
  rw [h]
  refine ⟨rfl, ?_⟩
  have hverdict : ∀ e : Event, (e.rename r).verdict? = e.verdict?.map (Verdict.rename r) := by
    intro e
    cases e <;> rfl
  simp only [Run.verdicts, Traced.view, List.filterMap_filterMap, List.map_filterMap]
  congr 1
  funext e
  exact hverdict e

/-- Ann and Bob change names. In the formula this reaches a compound argument, whose own child
stays, but neither the parameter nor the predicate called `ann`. Both runs come to the nameless
formula, in the copy for the second person. -/
theorem evaluate_rename_swap :
    let r : String → String := Equiv.swap "ann" "bob"
    let likes := fun x y => Formula.predicate "likes" [x, y]
    let wears := fun x y => Formula.mk "wears" [.leaf x, ⟨y, [.leaf "ann"]⟩]
    let body := fun x y => Formula.or [likes x y, wears x y, .predicate "ann" [x], .leaf ""]
    let f := Formula.forAll "?x - person" (body "?x" "ann")
    let objects : List Object := [⟨"ann", "person"⟩, ⟨"hall", "room"⟩, ⟨"bob", "person"⟩]
    let facts : List Fact := [⟨wears "ann" "ann"⟩, ⟨likes "ann" "bob"⟩]
    let w' := World.of .treeSet [⟨"bob", "person"⟩, ⟨"hall", "room"⟩, ⟨"ann", "person"⟩]
      [⟨wears "bob" "bob"⟩, ⟨likes "bob" "ann"⟩]
    (∀ x ∈ f.declaredNames, r x = x) ∧
      (evaluate (.of .list objects facts) f).outcome = .error .emptyWord ∧
      (evaluate (.of .list objects facts) f).verdicts = [⟨likes "ann" "ann", false⟩,
        ⟨wears "ann" "ann", true⟩, ⟨body "ann" "ann", true⟩, ⟨likes "bob" "ann", false⟩,
        ⟨wears "bob" "ann", false⟩, ⟨.predicate "ann" ["bob"], false⟩] ∧
      (evaluate w' (.forAll "?x - person" (body "?x" "bob"))).outcome = .error .emptyWord ∧
      (evaluate w' (.forAll "?x - person" (body "?x" "bob"))).verdicts = [⟨likes "bob" "bob", false⟩,
        ⟨wears "bob" "bob", true⟩, ⟨body "bob" "bob", true⟩, ⟨likes "ann" "bob", false⟩,
        ⟨wears "ann" "bob", false⟩, ⟨.predicate "ann" ["ann"], false⟩] := by
  intro r likes wears body f objects facts w'
  have hf : ∀ x ∈ f.declaredNames, r x = x := by decide +kernel
  have hdefect : (evaluate (.of .list objects facts) f).outcome = .error .emptyWord := by
    decide +kernel
  have hverdicts : (evaluate (.of .list objects facts) f).verdicts = [⟨likes "ann" "ann", false⟩,
      ⟨wears "ann" "ann", true⟩, ⟨body "ann" "ann", true⟩, ⟨likes "bob" "ann", false⟩,
      ⟨wears "bob" "ann", false⟩, ⟨.predicate "ann" ["bob"], false⟩] := by decide +kernel
  have hobjects : objects.map (Object.rename r) =
      [⟨"bob", "person"⟩, ⟨"hall", "room"⟩, ⟨"ann", "person"⟩] := by decide +kernel
  have hfacts : facts.map (Fact.rename r) = [⟨wears "bob" "bob"⟩, ⟨likes "bob" "ann"⟩] := by
    decide +kernel
  have hformula : f.rename r = .forAll "?x - person" (body "?x" "bob") := by decide +kernel
  obtain ⟨houtcome, hnames⟩ :=
    evaluate_rename (Equiv.swap "ann" "bob").injective hf .list .treeSet objects facts
  rw [hdefect, hobjects, hfacts, hformula] at houtcome
  rw [hverdicts, hobjects, hfacts, hformula] at hnames
  refine ⟨hf, hdefect, hverdicts, houtcome, hnames.trans ?_⟩
  decide +kernel

end PlanLogic
