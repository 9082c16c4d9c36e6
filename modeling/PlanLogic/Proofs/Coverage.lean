import PlanLogic.Proofs.Certificate
import PlanLogic.Proofs.Conclusions

/-!
# PlanLogic.Proofs.Coverage

What is extracted covers what is looked up. Evaluation goes through copies that it makes on the way,
extraction through the formula as it stands, and of all places only premises are judged and not
concluded. So in a formula without conditionals both come to the same words: an index that was made
from the entries knows every predicate that a run can ask for, in every world.

* `conclusionPositions_eq_positions`: without conditionals a formula concludes wherever a formula
  stands in it.
* `concludedWords_eq_predicateWords`: then its predicates are all concluded.
* `judged_predicates_extracted`: so every predicate that is judged is a candidate of some entry.
-/

namespace PlanLogic

namespace Formula

/-- A conditional, whatever the number of its children. -/
def isConditional (f : Formula) : Bool :=
  f.node == .operator .imply || f.node == .operator .when

theorem conclusions_eq_subformulas {f : Formula} (h : f.isConditional = false) :
    f.conclusions = f.subformulas := by
  unfold isConditional at h
  unfold conclusions subformulas
  cases hn : f.node with
  | empty => rfl
  | predicate name => rfl
  | operator op =>
    rw [hn] at h
    cases op with
    | imply => simp at h
    | when => simp at h
    | _ => rfl

theorem conclusionPositions_eq_positions (f : Formula) :
    (∀ n ∈ f.positions, n.isConditional = false) → f.conclusionPositions = f.positions := by
  induction f using induct_conclusions with
  | step f ih =>
    intro h
    have hroot : f.conclusions = f.subformulas :=
      conclusions_eq_subformulas (h f f.mem_positions_self)
    rw [conclusionPositions_eq, positions_eq, hroot]
    refine congrArg (f :: ·) (List.flatMap_congr fun a ha => ih a (by rwa [hroot]) fun n hn => ?_)
    exact h n (mem_positions_of_mem_subformulas ha hn)

theorem concludedWords_eq_predicateWords {f : Formula}
    (h : ∀ n ∈ f.positions, n.isConditional = false) : f.concludedWords = f.predicateWords := by
  rw [concludedWords, predicateWords, conclusionPositions_eq_positions f h]

end Formula

/-- Let no formula that stands in `f` be a conditional, and let extraction have a result. Then every
predicate that is judged in a run of `f`, in any world and whether the run ends in a value or in a
defect, has a word among the candidates of some entry. -/
theorem judged_predicates_extracted {f : Formula} {entries : Entries}
    (hf : ∀ n ∈ f.positions, n.isConditional = false) (h : consequents f = .ok entries)
    (w : World) :
    ∀ v ∈ (evaluate w f).verdicts, v.formula.isPredicate = true →
      ∃ c ∈ entries, v.formula.word ∈ c.values := by
  intro v hv hpred
  have hword : v.formula.word ∈ f.predicateWords :=
    word_mem_predicateWords (Run.mem_verdicts.1 hv) hpred
  rw [← Formula.concludedWords_eq_predicateWords hf] at hword
  exact (exists_mem_values_iff f h v.formula.word).2 hword

/-- Three predicates in one entry, two of them below quantifiers. Ann has seen a room, so the last
part of her copy is not looked at; Bob has not, and in his the run comes to a declaration that
cannot be read. Until then only candidates of the entry have been judged. -/
theorem judged_predicates_extracted_rooms :
    let seen := fun x r => Formula.predicate "seen" [x, r]
    let f := Formula.forAll "?x - person" (.or [.and [.predicate "away" ["?x"]],
      .not (.forAll "?r - room" (.not (seen "?x" "?r"))), .forSome "?y" (.leaf "lost")])
    let w := World.of .list [⟨"ann", "person"⟩, ⟨"hall", "room"⟩, ⟨"bob", "person"⟩]
      [⟨seen "ann" "hall"⟩]
    let entries : Entries := .single (.ofList ["away", "lost", "seen"])
    consequents f = .ok entries ∧ (∀ n ∈ f.positions, n.isConditional = false) ∧
      (evaluate w f).outcome = .error (.declaration "?y") ∧
      ⟨seen "bob" "hall", false⟩ ∈ (evaluate w f).verdicts ∧
      ∀ v ∈ (evaluate w f).verdicts, v.formula.isPredicate = true →
        v.formula.word ∈ ["away", "lost", "seen"] := by
  intro seen f w entries
  have hentries : consequents f = .ok entries := by decide +kernel
  have hf : ∀ n ∈ f.positions, n.isConditional = false := by decide +kernel
  have hdefect : (evaluate w f).outcome = .error (.declaration "?y") := by decide +kernel
  have hbob : ⟨seen "bob" "hall", false⟩ ∈ (evaluate w f).verdicts := by decide +kernel
  refine ⟨hentries, hf, hdefect, hbob, fun v hv hpred => ?_⟩
  obtain ⟨c, hc, hword⟩ := judged_predicates_extracted hf hentries w v hv hpred
  rw [SortedSet.mem_single.1 hc] at hword
  exact Candidates.mem_values_ofList.1 hword

-- The premise of a conditional is judged like its conclusion, but it is not extracted.
example :
    let f := Formula.imply (.leaf "paid") (.leaf "fed")
    consequents f = .ok (.single (.single "fed")) ∧
      (evaluate (.of .list [] []) f).verdicts =
        [⟨.leaf "paid", false⟩, ⟨.leaf "fed", false⟩, ⟨f, true⟩] := by decide +kernel

end PlanLogic
