import Mathlib.Control.Monad.Basic
import PlanLogic.Proofs.Certificate
import PlanLogic.Proofs.Mentions
import PlanLogic.Proofs.Universe

/-!
# PlanLogic.Proofs.Forgetting

What becomes of a run when an object leaves the world, with every fact that mentions it. A formula
reaches an object in two ways: a predicate has its name as an argument, or a quantifier ranges over
its type. If neither is the case, nothing happens.

The two changes are made one after the other.

* `namesOf_removeObject`: the objects of another type keep their names and their order, which is all
  that a run takes from them (`view_evaluate_congr`).
* `Formula.Avoids`: no predicate has an argument of a given name. Over objects that do not have this
  name either, all copies are of that kind, and so is all that is ever looked up
  (`avoids_of_judged`).
* `holds_forget`: a predicate without that argument is no fact that mentions the object, so it is
  not forgotten.
* `forgotten_unreachable`: both together.
-/

namespace PlanLogic

/-! ## Objects -/

theorem mem_objects_removeObject {s : WorldState} {o u : Object} :
    u ∈ (s.removeObject o).objects ↔ u ∈ s.objects ∧ u.name ≠ o.name := by
  rw [WorldState.removeObject, List.mem_filter, bne, Bool.not_eq_true', Bool.eq_false_iff, ne_eq,
    Object.beq_iff]

theorem namesOf_removeObject {s : WorldState} {o : Object} {type : String} (c : Container)
    (h : ∀ u ∈ s.objects, u.name = o.name → u.type ≠ type) :
    ((s.removeObject o).world c).namesOf type = (s.world c).namesOf type := by
  simp only [World.namesOf, WorldState.world, WorldState.removeObject, World.objects_of,
    List.filter_filter]
  congr 1
  refine List.filter_congr fun u hu => ?_
  by_cases htype : u.type = type
  · have hname : ¬ (u == o) = true := fun e => h u hu (Object.beq_iff.1 e) htype
    simp [htype, bne, hname]
  · simp [htype]

/-! ## Facts -/

/-- No predicate has an argument with the word `x`. -/
def Formula.Avoids (x : String) (f : Formula) : Prop :=
  ∀ n ∈ f.positions, n.isPredicate = true → ∀ a ∈ n.args, a.word ≠ x

instance (x : String) (f : Formula) : Decidable (f.Avoids x) :=
  inferInstanceAs (Decidable (∀ n ∈ f.positions, n.isPredicate = true → ∀ a ∈ n.args, a.word ≠ x))

theorem Formula.Avoids.of_component {x : String} {w : World} {f c : Formula} (h : f.Avoids x)
    (hw : ∀ o ∈ w.objects, o.name ≠ x) (hc : c ∈ components w f) : c.Avoids x := by
  intro n hn hpred a ha
  obtain ⟨m, hm, rfl | ⟨p, o, ho, rfl⟩⟩ := position_cases_of_component hc hn
  · exact h n hm hpred a ha
  · have hmpred : m.isPredicate = true := by rwa [isPredicate_congr (word_subst _ m)] at hpred
    rw [subst_of_predicate _ hmpred] at ha
    obtain ⟨b, hb, rfl⟩ := List.mem_map.1 ha
    rw [word_substToken_single]
    split
    · exact hw o ho
    · exact h m hm hmpred b hb

theorem avoids_of_judged {w : World} {x : String} (hw : ∀ o ∈ w.objects, o.name ≠ x) {v : Verdict}
    (f : Formula) : f.Avoids x → .judged v ∈ (evaluate w f).events → v.formula.Avoids x := by
  induction f using induct_components w with
  | step f ih =>
    intro hf hv
    rcases judged_cases hv with rfl | ⟨a, ha, hva⟩
    · exact hf
    · exact ih a ha (hf.of_component hw ha) hva

theorem holds_forget (c c' : Container) (s : WorldState) {o : Object} {q : Formula}
    (hpred : q.isPredicate = true) (h : ∀ a ∈ q.args, a.word ≠ o.name) :
    ((s.forget [o]).world c').holds q = (s.world c).holds q := by
  have hword : q.word ≠ Operator.word .not := ((Formula.isPredicate_iff.1 hpred).2 .not).symm
  have hkept : ¬ Fact.mentions ⟨q⟩ o = true := by
    rw [Fact.mentions_iff_name, Fact.argumentWords_of_word_ne hword]
    intro hname
    obtain ⟨a, ha, hargument⟩ := List.mem_map.1 hname
    exact h a ha hargument
  rw [Bool.eq_iff_iff, WorldState.world, WorldState.world, World.holds_of_iff, World.holds_of_iff,
    WorldState.mem_facts_forget]
  exact and_iff_left hkept

/-! ## Both -/

/-- Let no predicate of the formula have the object's name as an argument, and no quantifier range
over the type of an object of this name. Then the object may leave, with all facts that mention it,
and the formula still has the same value or defect and the same verdicts. -/
theorem forgotten_unreachable (c c' : Container) {s : WorldState} {o : Object} {f : Formula}
    (hf : f.Avoids o.name)
    (hq : ∀ b ∈ f.binders, ∀ u ∈ s.objects, u.name = o.name → u.type ≠ b.parameter.type) :
    let s' := (s.forget [o]).removeObject o
    (evaluate (s'.world c') f).outcome = (evaluate (s.world c) f).outcome ∧
      (evaluate (s'.world c') f).verdicts = (evaluate (s.world c) f).verdicts := by
  intro s'
  have hobjects : (evaluate ((s.removeObject o).world c) f).view Event.verdict? =
      (evaluate (s.world c) f).view Event.verdict? := by
    refine view_evaluate_congr ?_ fun b hb => namesOf_removeObject c (hq b hb)
    cases c <;> rfl
  have hnames : ∀ u ∈ ((s.removeObject o).world c).objects, u.name ≠ o.name := by
    intro u hu
    rw [WorldState.world, World.objects_of] at hu
    exact (mem_objects_removeObject.1 hu).2
  -- Without the object, no predicate that is looked up has its name as an argument.
  have hfacts : evaluate (s'.world c') f = evaluate ((s.removeObject o).world c) f := by
    rw [WorldState.world, ← World.with_holds_of c]
    apply forcedBy_evaluate
    intro e he
    cases e with
    | expanded e => trivial
    | judged v =>
      intro hpred
      have hv := avoids_of_judged hnames f hf he v.formula v.formula.mem_positions_self hpred
      rw [← holds_of_judged he hpred]
      exact holds_forget c c' (s.removeObject o) hpred hv
  have houtcome := congrArg Traced.outcome hobjects
  have hverdicts := congrArg Traced.events hobjects
  rw [hfacts]
  exact ⟨houtcome, hverdicts⟩

/-- Bob leaves, as a person and as a guest, and three facts with him, one of them a denial. Only
rooms are asked about, and the run ends in the same defect after the same verdicts. -/
theorem forgotten_unreachable_bob :
    let clean := fun x => Formula.predicate "clean" [x]
    let kept : List Fact := [⟨clean "hall"⟩, ⟨.not (.not (clean "bob"))⟩, .ofPredicate "bob" ["ann"]]
    let s : WorldState :=
      ⟨[⟨.not (clean "bob")⟩, .ofPredicate "likes" ["ann", "bob"],
          ⟨⟨"seen", [.leaf "hall", .predicate "bob" ["ann"]]⟩⟩] ++ kept,
        [⟨"bob", "person"⟩, ⟨"hall", "room"⟩, ⟨"bob", "guest"⟩]⟩
    let o : Object := ⟨"bob", "person"⟩
    let f := Formula.and [.forAll "?r - room" (.or [clean "?r", .predicate "bob" ["?r"]]), .leaf ""]
    let s' := (s.forget [o]).removeObject o
    s'.facts = kept ∧ s'.objects = [⟨"hall", "room"⟩] ∧ f.Avoids o.name ∧
      (∀ b ∈ f.binders, ∀ u ∈ s.objects, u.name = o.name → u.type ≠ b.parameter.type) ∧
      (evaluate (s.world .list) f).outcome = .error .emptyWord ∧
      (evaluate (s'.world .treeSet) f).outcome = .error .emptyWord ∧
      (evaluate (s'.world .treeSet) f).verdicts = (evaluate (s.world .list) f).verdicts := by
  intro clean kept s o f s'
  have hfacts : s'.facts = kept := by decide +kernel
  have hobjects : s'.objects = [⟨"hall", "room"⟩] := by decide +kernel
  have hf : f.Avoids o.name := by decide +kernel
  have hq : ∀ b ∈ f.binders, ∀ u ∈ s.objects, u.name = o.name → u.type ≠ b.parameter.type := by
    decide +kernel
  have hdefect : (evaluate (s.world .list) f).outcome = .error .emptyWord := by decide +kernel
  obtain ⟨houtcome, hverdicts⟩ := forgotten_unreachable .list .treeSet hf hq
  exact ⟨hfacts, hobjects, hf, hq, hdefect, houtcome.trans hdefect, hverdicts⟩

end PlanLogic
