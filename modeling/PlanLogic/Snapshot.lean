import Std.Data.HashSet.Lemmas
import Std.Data.TreeSet.Lemmas
import PlanLogic.Fact

/-!
# PlanLogic.Snapshot

What is believed at one moment, as far as evaluation can see: which formulas hold as facts. A
formula holds iff it equals a stored fact, tree for tree.

* `Snapshot`: the containers that answer this. Lists and arrays are scanned, hashed and sorted sets
  are looked up.
* `holds_list_iff` and its companions: each container answers for the list that it was made from, so
  order and repetition of facts do not count.
-/

namespace PlanLogic

class Snapshot (σ : Type) where
  holds : σ → Formula → Bool

namespace Snapshot

instance : Snapshot (List Fact) := ⟨fun facts f => facts.any (fun fact => fact.formula == f)⟩

instance : Snapshot (Array Fact) := ⟨fun facts f => facts.any (fun fact => fact.formula == f)⟩

instance : Snapshot (Std.HashSet Fact) := ⟨fun facts f => facts.contains ⟨f⟩⟩

instance : Snapshot (Std.TreeSet Fact) := ⟨fun facts f => facts.contains ⟨f⟩⟩

theorem holds_list_iff {facts : List Fact} {f : Formula} :
    holds facts f = true ↔ ⟨f⟩ ∈ facts := by
  simp only [holds, List.any_eq_true, beq_iff_eq]
  constructor
  · rintro ⟨⟨_⟩, h, rfl⟩
    exact h
  · exact fun h => ⟨_, h, rfl⟩

theorem holds_array_iff {facts : List Fact} {f : Formula} :
    holds facts.toArray f = true ↔ ⟨f⟩ ∈ facts := by
  rw [← holds_list_iff]
  simp [holds]

theorem holds_hashSet_iff {facts : List Fact} {f : Formula} :
    holds (Std.HashSet.ofList facts) f = true ↔ ⟨f⟩ ∈ facts := by
  simp [holds, Std.HashSet.contains_ofList]

theorem holds_treeSet_iff {facts : List Fact} {f : Formula} :
    holds (Std.TreeSet.ofList facts) f = true ↔ ⟨f⟩ ∈ facts := by
  simp [holds, Std.TreeSet.contains_ofList]

end Snapshot

end PlanLogic
