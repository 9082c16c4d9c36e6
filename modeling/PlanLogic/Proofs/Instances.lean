import PlanLogic.Expansion
import PlanLogic.Proofs.Conclusions
import PlanLogic.Proofs.Tokens

/-!
# PlanLogic.Proofs.Instances

What a rule concludes, its instances conclude. Extraction reads the words of predicates and stops
above their arguments, and the arguments are all that an instance has exchanged. So entries that
were found once for a rule need not be found again for the copies that it expands to.

* `consequents_mapTokens`: changing the arguments of predicates in any way leaves the entries, and
  if there is a defect, this defect.
* `consequents_of_instance`: substitution is such a change, and copies of a body are substituted.
-/

namespace PlanLogic

open Formula

theorem consequents_mapTokens (g : Formula → Formula) (f : Formula) :
    consequents (f.mapTokens g) = consequents f := by
  refine consequents_eq_of_concluding (fun f => ?_) (fun f _ => word_mapTokens g f) f
  rw [shape_mapTokens]
  cases f.shape with
  | error d => exact .error d
  | ok s =>
    cases s with
    | atom => exact .atom
    | negation body => exact .negation body
    | junction j parts => exact .junction j parts
    | conditional premise conclusion => exact .conditional premise _ conclusion
    | quantified j declaration body => exact .quantified j declaration _ body

theorem consequents_subst (σ : Assignment) (f : Formula) :
    consequents (f.subst σ) = consequents f := by
  rw [subst_eq_mapTokens, consequents_mapTokens]

theorem consequents_quantifier (j : Junction) (declaration body : Formula) :
    consequents (.apply j.quantifier [declaration, body]) = consequents body := by
  rw [consequents_eq, shape_eq_quantified_iff.2 rfl]

theorem consequents_of_mem_copies {body c : Formula} {p : Object} {objects : List Object}
    (h : c ∈ body.copies p objects) : consequents c = consequents body := by
  obtain ⟨o, -, rfl⟩ := List.mem_map.1 h
  exact consequents_subst _ body

/-- Extraction gives the same for a formula and for what substitution makes of it, and the same for
a quantifier and for each copy that it expands to. Where it fails, it fails with the same defect. -/
theorem consequents_of_instance (f : Formula) :
    (∀ σ : Assignment, consequents (f.subst σ) = consequents f) ∧
      ∀ (i j : Junction) (objects : List Object) (e : Expansion),
        f.node = .operator i.quantifier → f.expand j.quantifier objects = .ok e →
          ∀ c ∈ e.copies, consequents c = consequents f := by
  refine ⟨fun σ => consequents_subst σ f, ?_⟩
  intro i j objects e hn he c hc
  obtain ⟨declaration, body, hargs, hbody⟩ := expand_eq_ok_iff.1 he
  obtain ⟨p, -, rfl⟩ := Expansion.ofBody_eq_ok_iff.1 hbody
  calc consequents c
      = consequents body := consequents_of_mem_copies hc
    _ = consequents (.apply i.quantifier [declaration, body]) :=
        (consequents_quantifier i declaration body).symm
    _ = consequents f := by rw [← hargs, ← eq_apply_of_node hn]

/-- A rule whose inner declaration cannot be read, which extraction does not mind. Of its choice
nothing is changed but arguments; the name `?x` of a predicate is no argument. A negation with
nothing below it is refused in the rule and in what it is substituted to alike. -/
theorem consequents_of_instance_doors :
    let conclusion := fun x => Formula.or [.predicate "open" [x], .predicate "?x" [x, "?y"]]
    let rule := Formula.forAll "?x - door" (.forSome "?y" (.when (.leaf "") (conclusion "?x")))
    let copy := fun x => Formula.forSome "?y" (.when (.leaf "") (conclusion x))
    let objects : List Object := [⟨"front", "door"⟩, ⟨"hall", "room"⟩, ⟨"back", "door"⟩]
    let e : Expansion := ⟨.forAll, "?x - door", 3, [copy "front", copy "back"]⟩
    let broken := Formula.and [rule, .apply .not []]
    rule.expand .forAll objects = .ok e ∧
      (∀ c ∈ e.copies, consequents c = .ok (.single (.ofList ["?x", "open"]))) ∧
      ∀ σ, consequents (broken.subst σ) = .error (.arity .not 0) := by
  intro conclusion rule copy objects e broken
  have he : rule.expand .forAll objects = .ok e := by decide +kernel
  have hrule : consequents rule = .ok (.single (.ofList ["?x", "open"])) := by decide +kernel
  have hbroken : consequents broken = .error (.arity .not 0) := by decide +kernel
  refine ⟨he, fun c hc => ?_, fun σ => ?_⟩
  · rw [← hrule]
    exact (consequents_of_instance rule).2 .all .all objects e (node_apply _ _) he c hc
  · rw [← hbroken]
    exact (consequents_of_instance broken).1 σ

end PlanLogic
