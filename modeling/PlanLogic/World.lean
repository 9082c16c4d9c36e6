import PlanLogic.Snapshot

/-!
# PlanLogic.World

What formulas are about: typed objects, for quantifiers to range over in their order, and which
formulas hold as facts.

* `World.of`: a world from a list of facts, by way of a container.
* `holds_of_iff`: the container does not matter.
* `WorldState`: objects and facts as they are kept, for objects to leave and facts to be forgotten.
-/

namespace PlanLogic

structure World where
  objects : List Object
  /-- Which formulas hold as facts. -/
  holds : Formula → Bool

/-- Where facts are kept. -/
inductive Container where
  | array
  | list
  | hashSet
  | treeSet
  deriving DecidableEq, Repr

namespace World

def ofStore {σ : Type} [Snapshot σ] (objects : List Object) (facts : σ) : World :=
  ⟨objects, Snapshot.holds facts⟩

def of (c : Container) (objects : List Object) (facts : List Fact) : World :=
  match c with
  | .array => ofStore objects facts.toArray
  | .list => ofStore objects facts
  | .hashSet => ofStore objects (Std.HashSet.ofList facts)
  | .treeSet => ofStore objects (Std.TreeSet.ofList facts)

@[simp] theorem objects_of (c : Container) (objects : List Object) (facts : List Fact) :
    (of c objects facts).objects = objects := by
  cases c <;> rfl

/-- Worlds over the same objects differ in what holds, and in nothing else. -/
theorem with_holds_of (c c' : Container) (objects : List Object) (facts facts' : List Fact) :
    { of c objects facts with holds := (of c' objects facts').holds } = of c' objects facts' := by
  cases c <;> cases c' <;> rfl

theorem holds_of_iff {c : Container} {objects : List Object} {facts : List Fact} {f : Formula} :
    (of c objects facts).holds f = true ↔ ⟨f⟩ ∈ facts := by
  cases c with
  | array => exact Snapshot.holds_array_iff
  | list => exact Snapshot.holds_list_iff
  | hashSet => exact Snapshot.holds_hashSet_iff
  | treeSet => exact Snapshot.holds_treeSet_iff

end World

/-- Both are kept in the order in which they came, and facts may be there more than once. -/
structure WorldState where
  facts : List Fact
  objects : List Object
  deriving Repr, Inhabited

namespace WorldState

/-- Removes the facts that mention one of some objects. -/
def forget (s : WorldState) (objects : List Object) : WorldState :=
  { s with facts := s.facts.filter (fun fact => !fact.mentionsAny objects) }

/-- Removes every object of the name of `o`. -/
def removeObject (s : WorldState) (o : Object) : WorldState :=
  { s with objects := s.objects.filter (· != o) }

/-- What evaluation sees of the state. -/
def world (c : Container) (s : WorldState) : World := .of c s.objects s.facts

end WorldState

end PlanLogic
