import Mathlib.Data.List.Dedup
import PlanLogic.Candidates

/-!
# PlanLogic.Proofs.Choices

Choices are sets, however they came about. One may start from settled values and from lists of
values, and merge choices again and again; what remains of all this are the values that went in,
each once and in their order.

* `Construction`: such a history, with the choice that results and the values that went in.
* `Construction.contains_build`, `size_build`: the result holds these values and no others.
* `eq_iff_contains`, `compare_eq_iff_contains`: nothing but what it holds tells a choice apart.
* `constructions_canonical`: all this together with the laws of merging.
-/

namespace PlanLogic

open Std

namespace SortedSet

variable {α : Type} [Ord α] [TransOrd α]

theorem nodup_toList (s : SortedSet α) : s.toList.Nodup := by
  refine s.ascending.imp fun {a b} hlt hab => ?_
  rw [hab, ReflOrd.compare_self] at hlt
  cases hlt

/-- A set has as many elements as there are distinct ones in a list of them. -/
theorem size_eq_of_mem_iff [DecidableEq α] {s : SortedSet α} {as : List α}
    (h : ∀ a, a ∈ s ↔ a ∈ as) : s.size = as.dedup.length := by
  have hperm : s.toList.Perm as.dedup := by
    refine (List.perm_ext_iff_of_nodup s.nodup_toList as.nodup_dedup).2 fun a => ?_
    rw [List.mem_dedup]
    exact h a
  exact hperm.length_eq

end SortedSet

namespace Candidates

variable {α : Type} [Ord α] [LawfulEqOrd α]

theorem contains_iff {c : Candidates α} {a : α} : c.contains a = true ↔ a ∈ c.values :=
  SortedSet.contains_iff

variable [TransOrd α]

/-! ## Comparison -/

theorem eq_iff_contains {c d : Candidates α} : c = d ↔ ∀ a, c.contains a = d.contains a := by
  constructor
  · rintro rfl a
    rfl
  · intro h
    refine ext_values fun a => ?_
    rw [← contains_iff, ← contains_iff, h a]

theorem compare_eq_iff_contains {c d : Candidates α} :
    compare c d = .eq ↔ ∀ a, c.contains a = d.contains a := by
  rw [Std.compare_eq_iff_eq, eq_iff_contains]

/-! ## Merging -/

theorem contains_merge {cs : List (Candidates α)} {a : α} :
    (merge cs).contains a = true ↔ ∃ c ∈ cs, c.contains a = true := by
  simp only [contains_iff, mem_values_merge]

theorem merge_congr {cs ds : List (Candidates α)} (h : ∀ c, c ∈ cs ↔ c ∈ ds) :
    merge cs = merge ds := by
  refine ext_values fun a => ?_
  simp only [mem_values_merge, h]

theorem merge_map_merge (groups : List (List (Candidates α))) :
    merge (groups.map merge) = merge groups.flatten := by
  refine ext_values fun a => ?_
  simp only [mem_values_merge, List.mem_flatten]
  constructor
  · rintro ⟨c, hc, ha⟩
    obtain ⟨cs, hcs, rfl⟩ := List.mem_map.1 hc
    obtain ⟨d, hd, ha⟩ := mem_values_merge.1 ha
    exact ⟨d, ⟨cs, hcs, hd⟩, ha⟩
  · rintro ⟨d, ⟨cs, hcs, hd⟩, ha⟩
    exact ⟨merge cs, List.mem_map_of_mem hcs, mem_values_merge.2 ⟨d, hd, ha⟩⟩

theorem ofList_eq_merge (as : List α) : ofList as = merge (as.map single) := by
  refine ext_values fun a => ?_
  rw [mem_values_ofList, mem_values_merge]
  constructor
  · intro ha
    exact ⟨single a, List.mem_map_of_mem ha, mem_values_single.2 rfl⟩
  · rintro ⟨c, hc, ha⟩
    obtain ⟨b, hb, rfl⟩ := List.mem_map.1 hc
    rwa [mem_values_single.1 ha]

end Candidates

/-! ## Constructions -/

/-- How a choice comes about: from a settled value, from values in a list, or out of choices. -/
inductive Construction (α : Type) where
  | single (a : α)
  | ofList (as : List α)
  | merge (parts : List (Construction α))

namespace Construction

variable {α : Type}

section Build

variable [Ord α] [TransOrd α]

mutual

def build : Construction α → Candidates α
  | single a => .single a
  | ofList as => .ofList as
  | merge parts => .merge (buildAll parts)

def buildAll : List (Construction α) → List (Candidates α)
  | [] => []
  | c :: cs => build c :: buildAll cs

end

end Build

mutual

/-- The values that go in, as often as they do. -/
def given : Construction α → List α
  | single a => [a]
  | ofList as => as
  | merge parts => givenAll parts

def givenAll : List (Construction α) → List α
  | [] => []
  | c :: cs => given c ++ givenAll cs

end

mutual

theorem mem_build [Ord α] [TransOrd α] [LawfulEqOrd α] (a : α) :
    (c : Construction α) → (a ∈ c.build.values ↔ a ∈ c.given)
  | single b => by
    rw [build, given, Candidates.mem_values_single, List.mem_singleton]
  | ofList as => by
    rw [build, given, Candidates.mem_values_ofList]
  | merge parts => by
    rw [build, given, Candidates.mem_values_merge, mem_buildAll a parts]

theorem mem_buildAll [Ord α] [TransOrd α] [LawfulEqOrd α] (a : α) :
    (cs : List (Construction α)) → ((∃ c ∈ buildAll cs, a ∈ c.values) ↔ a ∈ givenAll cs)
  | [] => by simp [buildAll, givenAll]
  | c :: cs => by
    rw [buildAll, givenAll, List.mem_append, ← mem_build a c, ← mem_buildAll a cs]
    simp

end

variable [Ord α] [TransOrd α] [LawfulEqOrd α]

theorem contains_build {c : Construction α} {a : α} :
    c.build.contains a = true ↔ a ∈ c.given := by
  rw [Candidates.contains_iff, mem_build]

theorem size_build [DecidableEq α] (c : Construction α) :
    c.build.size = c.given.dedup.length :=
  SortedSet.size_eq_of_mem_iff fun a => mem_build a c

end Construction

/-- Let values be totally ordered, and only equal ones compare equal. Whatever the construction, the
values of the resulting choice ascend strictly, they are those that went in, and there are as many
as distinct ones went in; two results are equal, and compare equal, iff they hold the same. Merging
is a union: its order and repetitions do not matter, merging what was merged is merging all at once,
and a list of values is the merger of its settled values, be these values choices themselves. -/
theorem constructions_canonical {α : Type} [Ord α] [TransOrd α] [LawfulEqOrd α] [DecidableEq α] :
    (∀ c : Construction α,
        c.build.toList.Pairwise (fun a b => compare a b = .lt) ∧
          (∀ a, c.build.contains a = true ↔ a ∈ c.given) ∧
          c.build.size = c.given.dedup.length ∧
          ∀ d : Construction α,
            (c.build = d.build ↔ ∀ a, c.build.contains a = d.build.contains a) ∧
              (compare c.build d.build = .eq ↔ ∀ a, c.build.contains a = d.build.contains a)) ∧
      (∀ (cs : List (Candidates α)) (a : α),
        (Candidates.merge cs).contains a = true ↔ ∃ c ∈ cs, c.contains a = true) ∧
      (∀ cs ds : List (Candidates α), (∀ c, c ∈ cs ↔ c ∈ ds) →
        Candidates.merge cs = Candidates.merge ds) ∧
      (∀ groups : List (List (Candidates α)),
        Candidates.merge (groups.map Candidates.merge) = Candidates.merge groups.flatten) ∧
      (∀ as : List α, Candidates.ofList as = Candidates.merge (as.map Candidates.single)) ∧
      ∀ cs : List (Candidates α),
        Candidates.ofList cs = Candidates.merge (cs.map Candidates.single) := by
  refine ⟨fun c => ⟨c.build.values.ascending, fun a => Construction.contains_build,
    c.size_build, fun d => ⟨Candidates.eq_iff_contains, Candidates.compare_eq_iff_contains⟩⟩,
    fun cs a => Candidates.contains_merge, fun cs ds => Candidates.merge_congr,
    Candidates.merge_map_merge, Candidates.ofList_eq_merge, Candidates.ofList_eq_merge⟩

/-- Choices between choices. Of the four values that go into the first construction two are settled
and two are one set, put together in two ways; merging nothing adds nothing. -/
theorem constructions_canonical_nested :
    let one := Candidates.single "at"
    let two := Candidates.ofList ["near", "at", "near"]
    let two' := Candidates.merge [one, Candidates.ofList ["at", "near"]]
    let c : Construction (Candidates String) :=
      .merge [.single two, .merge [.ofList [one, two', one], .merge []]]
    let d : Construction (Candidates String) := .ofList [two, one]
    c.given.length = 4 ∧ c.build.size = 2 ∧ c.build.contains two' = true ∧
      c.build.contains (.single "near") = false ∧ c.build = d.build ∧
      compare c.build d.build = .eq ∧
      Candidates.merge [c.build, c.build, d.build] = Candidates.merge [d.build, c.build] := by
  intro one two two' c d
  obtain ⟨hbuild, -, hmerge, -⟩ := constructions_canonical (α := Candidates String)
  obtain ⟨-, hcontains, hsize, hcompare⟩ := hbuild c
  have hbuilt : c.build = d.build := by decide +kernel
  have hsame := (hcompare d).1.1 hbuilt
  refine ⟨rfl, ?_, (hcontains two').2 (by decide +kernel), ?_, hbuilt, (hcompare d).2.2 hsame,
    hmerge _ _ fun e => by grind⟩
  · rw [hsize]
    decide +kernel
  · rw [← Bool.not_eq_true, hcontains]
    decide +kernel

end PlanLogic
