import Mathlib.Data.List.Basic
import PlanLogic.World

/-!
# PlanLogic.Proofs.Mentions

Which objects a fact mentions, told without the set of names that the test goes by. The words that
count are those of the direct arguments of the fact's statement, and an object is mentioned if it
has one of them as its name.

A negation is unwrapped once. Under a second one the arguments are formulas themselves, and their
words are read like tokens: first the name of the predicate, then the word of negation. An object of
such a name is mentioned by a fact that does not speak of it, and takes that fact along when it
leaves.

* `Fact.statement`, `Fact.argumentWords`: what a fact states or denies, and the words that count.
* `mentionsAny_iff_name`: the test is membership of a name.
* `mentionsAny_exact`: several objects against single ones, in parts, and under a negation.
* `argumentWords_negatedTimes`: the words that count after any number of negations.
* `falsely_mentioned_iff`: when a predicate is found to mention what is none of its tokens.
-/

namespace PlanLogic

namespace Fact

/-- The first child of a negation that has one, otherwise the whole formula. -/
def statement : Fact → Formula
  | ⟨⟨w, a :: rest⟩⟩ => if w = Operator.word .not then a else ⟨w, a :: rest⟩
  | ⟨f⟩ => f

/-- The words of the direct arguments of the statement. -/
def argumentWords (fact : Fact) : List String := fact.statement.args.map Formula.word

theorem positive_eq_statement (fact : Fact) : fact.positive = fact.statement := by
  obtain ⟨⟨w, args⟩⟩ := fact
  have hneg := @isNegated_iff ⟨⟨w, args⟩⟩
  cases args with
  | nil => simp [positive, statement]
  | cons a rest => simp [positive, statement, hneg]

theorem argumentWords_of_word_ne {fact : Fact} (h : fact.formula.word ≠ Operator.word .not) :
    fact.argumentWords = fact.formula.args.map Formula.word := by
  obtain ⟨⟨w, args⟩⟩ := fact
  cases args with
  | nil => rfl
  | cons a rest => rw [argumentWords, statement, if_neg h]

theorem argumentWords_negated (fact : Fact) :
    fact.negated.argumentWords = fact.formula.args.map Formula.word := by
  rw [argumentWords, ← positive_eq_statement, positive_negated]

theorem mentionsAny_iff_name {fact : Fact} {objects : List Object} :
    fact.mentionsAny objects = true ↔ ∃ o ∈ objects, o.name ∈ fact.argumentWords := by
  rw [mentionsAny_iff, positive_eq_statement]
  constructor
  · rintro ⟨a, ha, o, ho, hname⟩
    exact ⟨o, ho, List.mem_map.2 ⟨a, ha, hname.symm⟩⟩
  · rintro ⟨o, ho, hname⟩
    obtain ⟨a, ha, hword⟩ := List.mem_map.1 hname
    exact ⟨a, ha, o, ho, hword.symm⟩

theorem mentions_iff_name {fact : Fact} {o : Object} :
    fact.mentions o = true ↔ o.name ∈ fact.argumentWords := by
  rw [mentions, mentionsAny_iff_name]
  simp

/-- Order, repetition and types of the objects do not count. -/
theorem mentionsAny_eq_of_names {fact : Fact} {objects others : List Object}
    (h : ∀ name, (∃ o ∈ objects, o.name = name) ↔ ∃ o ∈ others, o.name = name) :
    fact.mentionsAny objects = fact.mentionsAny others := by
  have hsub : ∀ {os us : List Object}, (∀ name, (∃ o ∈ os, o.name = name) →
      ∃ o ∈ us, o.name = name) → fact.mentionsAny os = true → fact.mentionsAny us = true := by
    intro os us hnames hos
    obtain ⟨o, ho, hword⟩ := mentionsAny_iff_name.1 hos
    obtain ⟨u, hu, hname⟩ := hnames o.name ⟨o, ho, rfl⟩
    exact mentionsAny_iff_name.2 ⟨u, hu, hname ▸ hword⟩
  rw [Bool.eq_iff_iff]
  exact ⟨hsub fun name => (h name).1, hsub fun name => (h name).2⟩

/-- The test for several objects finds what the test for one of them finds, which is whether its
name is the word of a direct argument of the statement. So it can be made in parts, in any order and
for other objects of the same names. Of a negation it sees the direct arguments of what is denied,
and hence makes no difference between a denial and a formula that is none itself. -/
theorem mentionsAny_exact (fact : Fact) (objects others : List Object) :
    (fact.mentionsAny objects = true ↔ ∃ o ∈ objects, fact.mentions o = true) ∧
      (fact.mentionsAny objects = true ↔ ∃ o ∈ objects, o.name ∈ fact.argumentWords) ∧
      fact.mentionsAny (objects ++ others) =
        (fact.mentionsAny objects || fact.mentionsAny others) ∧
      ((∀ name, (∃ o ∈ objects, o.name = name) ↔ ∃ o ∈ others, o.name = name) →
        fact.mentionsAny objects = fact.mentionsAny others) ∧
      (fact.negated.mentionsAny objects = true ↔
        ∃ o ∈ objects, o.name ∈ fact.formula.args.map Formula.word) ∧
      (fact.formula.word ≠ Operator.word .not →
        fact.negated.mentionsAny objects = fact.mentionsAny objects) := by
  refine ⟨?_, mentionsAny_iff_name, ?_, mentionsAny_eq_of_names, ?_, ?_⟩
  · simp only [mentionsAny_iff_name, mentions_iff_name]
  · rw [Bool.eq_iff_iff, Bool.or_eq_true]
    simp only [mentionsAny_iff_name, List.mem_append, or_and_right, exists_or]
  · rw [mentionsAny_iff_name, argumentWords_negated]
  · intro h
    rw [Bool.eq_iff_iff, mentionsAny_iff_name, mentionsAny_iff_name, argumentWords_negated,
      argumentWords_of_word_ne h]

/-- The fact has an argument with arguments of its own, which counts by its word. The same two names
come in another order, once more, and under other types. -/
theorem mentionsAny_exact_bob :
    let fact : Fact := ⟨⟨"likes", [.leaf "ann", .predicate "bob" ["cat"]]⟩⟩
    let objects : List Object := [⟨"cat", "animal"⟩, ⟨"bob", "person"⟩]
    let others : List Object := [⟨"bob", "guest"⟩, ⟨"cat", "pet"⟩, ⟨"bob", "person"⟩]
    fact.formula.word ≠ Operator.word .not ∧
      (∀ name, (∃ o ∈ objects, o.name = name) ↔ ∃ o ∈ others, o.name = name) ∧
      fact.mentionsAny objects = true ∧ fact.mentionsAny others = true ∧
      fact.negated.mentionsAny objects = true ∧ fact.mentionsAny [⟨"cat", "animal"⟩] = false := by
  intro fact objects others
  have hword : fact.formula.word ≠ Operator.word .not := by decide
  have hnames : ∀ name, (∃ o ∈ objects, o.name = name) ↔ ∃ o ∈ others, o.name = name := by
    intro name
    simp only [objects, others, List.exists_mem_cons_iff, List.not_mem_nil, false_and, exists_false]
    tauto
  have hobjects : fact.mentionsAny objects = true := by decide +kernel
  obtain ⟨-, -, -, hothers, -, hnegated⟩ := mentionsAny_exact fact objects others
  exact ⟨hword, hnames, hobjects, (hothers hnames).symm.trans hobjects,
    (hnegated hword).trans hobjects, by decide +kernel⟩

/-! ## Repeated negation -/

theorem negatedTimes_succ (n : Nat) (fact : Fact) :
    fact.negatedTimes (n + 1) = (fact.negatedTimes n).negated := by
  induction n generalizing fact with
  | zero => rfl
  | succ n ih => exact ih fact.negated

/-- One negation is unwrapped. What the second one denies is read as an argument, and from the third
on that argument is a negation. -/
theorem argumentWords_negatedTimes (n : Nat) (fact : Fact) :
    (fact.negatedTimes n).argumentWords =
      match n with
      | 0 => fact.argumentWords
      | 1 => fact.formula.args.map Formula.word
      | 2 => [fact.formula.word]
      | _ + 3 => [Operator.word .not] := by
  rcases n with _ | _ | _ | n
  · rfl
  · exact argumentWords_negated fact
  · exact argumentWords_negated fact.negated
  · rw [negatedTimes_succ, argumentWords_negated, negatedTimes_succ, negatedTimes_succ]
    rfl

theorem map_word_ofPredicate (name : String) (tokens : List String) :
    (ofPredicate name tokens).formula.args.map Formula.word = tokens := by
  simp [ofPredicate, Formula.predicate, Formula.leaf, Function.comp_def]

end Fact

theorem WorldState.mem_facts_forget {s : WorldState} {fact : Fact} {objects : List Object} :
    fact ∈ (s.forget objects).facts ↔ fact ∈ s.facts ∧ ¬ fact.mentionsAny objects = true := by
  simp [forget, List.mem_filter]

/-- Let no object be named like one of the tokens. A predicate under `n` negations mentions one of
the objects only if `n` is two and an object has the name of the predicate, or if `n` is more and an
object is named like the operator of negation. In these two cases it is forgotten with that object,
otherwise it stays. -/
theorem falsely_mentioned_iff {name : String} {tokens : List String} (n : Nat)
    {objects : List Object} (hname : ∀ op : Operator, op.word ≠ name)
    (htokens : ∀ o ∈ objects, o.name ∉ tokens) :
    let fact := (Fact.ofPredicate name tokens).negatedTimes n
    let mistaken := (n = 2 ∧ ∃ o ∈ objects, o.name = name) ∨
      3 ≤ n ∧ ∃ o ∈ objects, o.name = Operator.word .not
    (fact.mentionsAny objects = true ↔ mistaken) ∧
      ∀ s : WorldState, fact ∈ s.facts → (fact ∈ (s.forget objects).facts ↔ ¬ mistaken) := by
  intro fact mistaken
  have hnone : ¬ ∃ o ∈ objects, o.name ∈ tokens := by
    rintro ⟨o, ho, htoken⟩
    exact htokens o ho htoken
  have hmentions : fact.mentionsAny objects = true ↔ mistaken := by
    rw [Fact.mentionsAny_iff_name, Fact.argumentWords_negatedTimes]
    rcases n with _ | _ | _ | n
    · have hword : (Fact.ofPredicate name tokens).formula.word ≠ Operator.word .not :=
        (hname .not).symm
      simp [mistaken, Fact.argumentWords_of_word_ne hword, Fact.map_word_ofPredicate, hnone]
    · simp [mistaken, Fact.map_word_ofPredicate, hnone]
    · simp [mistaken, Fact.ofPredicate, Formula.predicate]
    · simp [mistaken]
  refine ⟨hmentions, fun s hs => ?_⟩
  rw [WorldState.mem_facts_forget, hmentions]
  exact and_iff_right hs

/-- Carol and an object named like the predicate leave. The fact under three negations stays, since
nothing is called like the operator; when such an object leaves, it goes. -/
theorem falsely_mentioned_iff_carol :
    let objects : List Object := [⟨"carol", "person"⟩, ⟨"likes", "verb"⟩]
    let particle : List Object := [⟨"not", "particle"⟩]
    let fact := (Fact.ofPredicate "likes" ["alice", "bob"]).negatedTimes 3
    let s : WorldState := ⟨[fact], objects ++ particle⟩
    (∀ op : Operator, op.word ≠ "likes") ∧ (∀ o ∈ objects, o.name ∉ ["alice", "bob"]) ∧
      (∀ o ∈ particle, o.name ∉ ["alice", "bob"]) ∧
      fact ∈ (s.forget objects).facts ∧ fact ∉ (s.forget particle).facts := by
  intro objects particle fact s
  have hname : ∀ op : Operator, op.word ≠ "likes" := by
    intro op
    cases op <;> decide
  have hobjects : ∀ o ∈ objects, o.name ∉ ["alice", "bob"] := by decide
  have hparticle : ∀ o ∈ particle, o.name ∉ ["alice", "bob"] := by decide
  have hs : fact ∈ s.facts := .head _
  obtain ⟨-, hstays⟩ := falsely_mentioned_iff 3 hname hobjects
  obtain ⟨-, hgoes⟩ := falsely_mentioned_iff 3 hname hparticle
  refine ⟨hname, hobjects, hparticle, (hstays s hs).2 (by decide), ?_⟩
  rw [hgoes s hs]
  decide

/-- An object that merely has the name of the predicate is mentioned by the fact that is denied
twice, and takes it along. -/
theorem likes_forgotten_with_its_name :
    let likes := Fact.ofPredicate "likes" ["alice", "bob"]
    let verb : Object := ⟨"likes", "verb"⟩
    let s : WorldState := ⟨[likes, likes.negatedTimes 1, likes.negatedTimes 2], [verb]⟩
    (∀ op : Operator, op.word ≠ "likes") ∧ verb.name ∉ ["alice", "bob"] ∧
      (likes.negatedTimes 2).mentionsAny [verb] = true ∧
      (s.forget [verb]).facts = [likes, likes.negatedTimes 1] := by
  intro likes verb s
  refine ⟨?_, by decide, by decide +kernel, by decide +kernel⟩
  intro op
  cases op <;> decide

end PlanLogic
