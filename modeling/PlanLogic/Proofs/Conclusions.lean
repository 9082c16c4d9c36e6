import Mathlib.Control.Monad.Basic
import PlanLogic.Consequents

/-!
# PlanLogic.Proofs.Conclusions

Where formulas conclude. The places of conclusion are the root, the children of negations and
junctions at such places, and the second children of conditionals and quantifiers at such places;
premises and declarations are elsewhere. The entries that are extracted from a formula can be told
by these places alone, however its operators are nested.

* `Formula.conclusions`: the children of a formula that are places of conclusion.
* `Formula.induct_conclusions`: induction on these children.
* `Formula.conclusionsPast`: the places reached from the root, going on past certain formulas only.
  Past all of them these are the places of conclusion, and past all but disjunctions those with no
  disjunction above.
* `consequents_cases`: what extraction makes of the entries of these children.
* `consequents_eq_of_concluding`: what is done to premises and declarations, it does not see.
* `exists_mem_values_iff`: the candidates together are the words of the predicates concluded.
* `mem_consequents_iff`: each predicate with no disjunction above is an entry of its own, and each
  outermost disjunction is one entry of all words below it.
-/

namespace PlanLogic

/-- The first child is a premise or a declaration. -/
def Operator.hasPremise : Operator → Bool
  | imply | when | forAll | forSome => true
  | not | and | or => false

namespace Formula

/-- The children by which `f` concludes something. -/
def conclusions (f : Formula) : List Formula :=
  match f.node with
  | .operator op => if op.hasPremise then (f.args.drop 1).take 1 else f.args
  | _ => []

def isDisjunction (f : Formula) : Bool := f.node == .operator .or

theorem mem_args_of_mem_conclusions {a f : Formula} (h : a ∈ f.conclusions) : a ∈ f.args := by
  unfold conclusions at h
  split at h
  · split at h
    · exact List.mem_of_mem_drop (List.mem_of_mem_take h)
    · exact h
  · cases h

/-- Induction with a hypothesis for every child in conclusion. -/
theorem induct_conclusions {motive : Formula → Prop}
    (step : ∀ f, (∀ a ∈ f.conclusions, motive a) → motive f) (f : Formula) : motive f := by
  induction f using induct with
  | step w args ih => exact step _ fun a ha => ih a (mem_args_of_mem_conclusions ha)

@[simp] theorem conclusions_apply (op : Operator) (args : List Formula) :
    (apply op args).conclusions = if op.hasPremise then (args.drop 1).take 1 else args := by
  simp [conclusions]

@[simp] theorem isDisjunction_apply (op : Operator) (args : List Formula) :
    (apply op args).isDisjunction = decide (op = .or) := by
  simp [isDisjunction, Bool.beq_eq_decide_eq]

@[simp] theorem isPredicate_apply (op : Operator) (args : List Formula) :
    (apply op args).isPredicate = false := by
  simp [isPredicate]

theorem isDisjunction_of_isPredicate {f : Formula} (h : f.isPredicate = true) :
    f.isDisjunction = false := by
  unfold isPredicate at h
  unfold isDisjunction
  split at h
  · simp [*]
  · cases h

theorem conclusions_of_isPredicate {f : Formula} (h : f.isPredicate = true) :
    f.conclusions = [] := by
  unfold isPredicate at h
  unfold conclusions
  split at h
  · simp [*]
  · cases h

/-- The places of conclusion from the root down and from left to right, where nothing below a
formula outside `past` is visited. -/
def conclusionsPast (past : Formula → Bool) (f : Formula) : List Formula :=
  f :: if past f then f.conclusions.attach.flatMap fun a => conclusionsPast past a.1 else []
termination_by f.size
decreasing_by exact size_lt_of_mem (mem_args_of_mem_conclusions a.2)

/-- The places of conclusion. -/
def conclusionPositions (f : Formula) : List Formula := f.conclusionsPast fun _ => true

/-- The places of conclusion with no disjunction above. -/
def certainPositions (f : Formula) : List Formula := f.conclusionsPast fun n => !n.isDisjunction

/-- The words of the predicates at places of conclusion. -/
def concludedWords (f : Formula) : List String :=
  (f.conclusionPositions.filter isPredicate).map word

theorem conclusionPositions_eq (f : Formula) :
    f.conclusionPositions = f :: f.conclusions.flatMap conclusionPositions := by
  rw [conclusionPositions, conclusionsPast]
  simp only [List.flatMap_subtype, List.unattach_attach, if_true]
  rfl

theorem mem_conclusionsPast {past : Formula → Bool} {f n : Formula} :
    n ∈ f.conclusionsPast past ↔
      n = f ∨ past f = true ∧ ∃ a ∈ f.conclusions, n ∈ a.conclusionsPast past := by
  rw [conclusionsPast]
  cases past f <;> simp

theorem mem_concludedWords {f : Formula} {w : String} :
    w ∈ f.concludedWords ↔
      (f.isPredicate = true ∧ w = f.word) ∨ ∃ a ∈ f.conclusions, w ∈ a.concludedWords := by
  simp only [concludedWords, conclusionPositions, List.mem_map, List.mem_filter]
  constructor
  · rintro ⟨n, ⟨hn, hp⟩, rfl⟩
    rcases mem_conclusionsPast.1 hn with rfl | ⟨-, a, ha, hna⟩
    · exact .inl ⟨hp, rfl⟩
    · exact .inr ⟨a, ha, n, ⟨hna, hp⟩, rfl⟩
  · rintro (⟨hp, rfl⟩ | ⟨a, ha, n, ⟨hn, hp⟩, rfl⟩)
    · exact ⟨f, ⟨mem_conclusionsPast.2 (.inl rfl), hp⟩, rfl⟩
    · exact ⟨n, ⟨mem_conclusionsPast.2 (.inr ⟨rfl, a, ha, hn⟩), hp⟩, rfl⟩

theorem mem_certainPositions {f n : Formula} :
    n ∈ f.certainPositions ↔
      n = f ∨ f.isDisjunction = false ∧ ∃ a ∈ f.conclusions, n ∈ a.certainPositions := by
  rw [certainPositions, mem_conclusionsPast, Bool.not_eq_true']
  rfl

/-- The entry that `f` makes by itself: a predicate its word, a disjunction all words below it. -/
def ownEntry (f : Formula) : Option (Candidates String) :=
  if f.isPredicate then some (.single f.word)
  else if f.isDisjunction then some (.ofList f.concludedWords)
  else none

theorem ownEntry_eq_some_iff {f : Formula} {c : Candidates String} :
    f.ownEntry = some c ↔
      (f.isPredicate = true ∧ c = .single f.word) ∨
        (f.isDisjunction = true ∧ c = .ofList f.concludedWords) := by
  unfold ownEntry
  split
  · rename_i hp
    simp [hp, isDisjunction_of_isPredicate hp, eq_comm]
  · rename_i hp
    split <;> simp [*, eq_comm]

theorem exists_ownEntry_iff {f : Formula} {c : Candidates String} :
    (∃ n ∈ f.certainPositions, n.ownEntry = some c) ↔
      f.ownEntry = some c ∨ f.isDisjunction = false ∧
        ∃ a ∈ f.conclusions, ∃ n ∈ a.certainPositions, n.ownEntry = some c := by
  constructor
  · rintro ⟨n, hn, hc⟩
    rcases mem_certainPositions.1 hn with rfl | ⟨hd, a, ha, hna⟩
    · exact .inl hc
    · exact .inr ⟨hd, a, ha, n, hna, hc⟩
  · rintro (hc | ⟨hd, a, ha, n, hn, hc⟩)
    · exact ⟨f, mem_certainPositions.2 (.inl rfl), hc⟩
    · exact ⟨n, mem_certainPositions.2 (.inr ⟨hd, a, ha, hn⟩), hc⟩

end Formula

/-! ## Lists of results -/

section

variable {ε α β : Type} {g h : α → Except ε β} {as : List α}

theorem mapM_congr (hgh : ∀ a ∈ as, g a = h a) : as.mapM g = as.mapM h := by
  induction as with
  | nil => rfl
  | cons a as ih =>
    have hrest := ih fun b hb => hgh b (.tail _ hb)
    rw [List.mapM_cons, List.mapM_cons, hgh a (.head _), hrest]

/-- There are results for all elements iff each has one. -/
theorem mapM_eq_ok_iff {bs : List β} : as.mapM g = .ok bs ↔ as.map g = bs.map .ok := by
  induction as generalizing bs with
  | nil => cases bs <;> simp [pure, Except.pure]
  | cons a as ih =>
    rw [List.mapM_cons, List.map_cons]
    cases g a with
    | error e => cases bs <;> simp [bind, Except.bind]
    | ok b =>
      cases bs with
      | nil => cases as.mapM g <;> simp [bind, Except.bind, pure, Except.pure]
      | cons c cs =>
        rw [List.map_cons, List.cons.injEq, ← ih]
        cases as.mapM g <;> simp [bind, Except.bind, pure, Except.pure]

theorem mem_of_mapM {bs : List β} (h : as.mapM g = .ok bs) :
    (∀ b ∈ bs, ∃ a ∈ as, g a = .ok b) ∧ ∀ a ∈ as, ∃ b ∈ bs, g a = .ok b := by
  have hmap := mapM_eq_ok_iff.1 h
  constructor
  · intro b hb
    have hb' : .ok b ∈ as.map g := hmap ▸ List.mem_map_of_mem hb
    exact List.mem_map.1 hb'
  · intro a ha
    have ha' : g a ∈ bs.map .ok := hmap ▸ List.mem_map_of_mem ha
    obtain ⟨b, hb, hab⟩ := List.mem_map.1 ha'
    exact ⟨b, hb, hab.symm⟩

end

/-! ## Entries -/

namespace Junction

variable {parts : List Entries} {c : Candidates String} {w : String}

theorem mem_entries_all : c ∈ all.entries parts ↔ ∃ entries ∈ parts, c ∈ entries :=
  SortedSet.mem_union

theorem mem_entries_any : c ∈ any.entries parts ↔ c = .merge (parts.flatMap SortedSet.toList) :=
  SortedSet.mem_single

/-- Joining entries, in either way, neither adds candidates nor loses any. -/
theorem exists_mem_entries (j : Junction) :
    (∃ c ∈ j.entries parts, w ∈ c.values) ↔ ∃ entries ∈ parts, ∃ c ∈ entries, w ∈ c.values := by
  cases j with
  | all =>
    simp only [mem_entries_all]
    constructor
    · rintro ⟨c, ⟨entries, he, hc⟩, hw⟩
      exact ⟨entries, he, c, hc, hw⟩
    · rintro ⟨entries, he, c, hc, hw⟩
      exact ⟨c, ⟨entries, he, hc⟩, hw⟩
  | any =>
    simp only [mem_entries_any, exists_eq_left, Candidates.mem_values_merge, List.mem_flatMap]
    constructor
    · rintro ⟨c, ⟨entries, he, hc⟩, hw⟩
      exact ⟨entries, he, c, hc, hw⟩
    · rintro ⟨entries, he, c, hc, hw⟩
      exact ⟨c, ⟨entries, he, hc⟩, hw⟩

end Junction

/-- A predicate is an entry of its own; otherwise the entries of the children in conclusion are
joined, into one choice below a disjunction and side by side below all else. -/
theorem consequents_cases {f : Formula} {entries : Entries} (h : consequents f = .ok entries) :
    (f.isPredicate = true ∧ entries = .single (.single f.word)) ∨
      f.isPredicate = false ∧ ∃ parts, f.conclusions.mapM consequents = .ok parts ∧
        entries = (if f.isDisjunction then Junction.any else .all).entries parts := by
  rw [consequents_eq] at h
  cases hs : f.shape with
  | error d => simp [hs] at h
  | ok s =>
    rw [hs] at h
    cases s with
    | atom =>
      cases h
      exact .inl ⟨Formula.shape_eq_atom_iff.1 hs, rfl⟩
    | negation body =>
      have hbody : consequents body = .ok entries := h
      cases Formula.shape_eq_negation_iff.1 hs
      refine .inr ⟨Formula.isPredicate_apply _ _, [entries], ?_⟩
      simp [Formula.not, Operator.hasPremise, Junction.entries, hbody]
    | junction j parts =>
      cases Formula.shape_eq_junction_iff.1 hs
      simp only at h
      cases hparts : parts.mapM consequents with
      | error d => simp [hparts, Except.map] at h
      | ok es =>
        rw [hparts] at h
        cases h
        refine .inr ⟨Formula.isPredicate_apply _ _, es, ?_⟩
        cases j <;> simpa [Junction.connective, Operator.hasPremise] using hparts
    | conditional premise conclusion =>
      have hconclusion : consequents conclusion = .ok entries := h
      rcases Formula.shape_eq_conditional_iff.1 hs with rfl | rfl <;>
        refine .inr ⟨Formula.isPredicate_apply _ _, [entries], ?_⟩ <;>
        simp [Formula.imply, Formula.when, Operator.hasPremise, Junction.entries, hconclusion]
    | quantified j declaration body =>
      have hbody : consequents body = .ok entries := h
      cases Formula.shape_eq_quantified_iff.1 hs
      refine .inr ⟨Formula.isPredicate_apply _ _, [entries], ?_⟩
      cases j <;> simp [Junction.quantifier, Operator.hasPremise, Junction.entries, hbody]

namespace Formula

/-- The second root is the first, with `t` applied to its parts in conclusion and anything in place
of its premise or declaration. -/
inductive Concluding (t : Formula → Formula) :
    Except Defect Shape → Except Defect Shape → Prop where
  | error (d : Defect) : Concluding t (.error d) (.error d)
  | atom : Concluding t (.ok .atom) (.ok .atom)
  | negation (body : Formula) : Concluding t (.ok (.negation body)) (.ok (.negation (t body)))
  | junction (j : Junction) (parts : List Formula) :
      Concluding t (.ok (.junction j parts)) (.ok (.junction j (parts.map t)))
  | conditional (premise premise' conclusion : Formula) :
      Concluding t (.ok (.conditional premise conclusion))
        (.ok (.conditional premise' (t conclusion)))
  | quantified (j : Junction) (declaration declaration' body : Formula) :
      Concluding t (.ok (.quantified j declaration body))
        (.ok (.quantified j declaration' (t body)))

end Formula

/-- A change that is of this kind at every root, and keeps the words of predicates, leaves entries
and defects as they are. -/
theorem consequents_eq_of_concluding {t : Formula → Formula}
    (hshape : ∀ f, Formula.Concluding t f.shape (t f).shape)
    (hword : ∀ f, f.shape = .ok .atom → (t f).word = f.word) (f : Formula) :
    consequents (t f) = consequents f := by
  induction f using Formula.induct_parts with
  | step f ih =>
    have hroot := hshape f
    rw [consequents_eq, consequents_eq f]
    generalize hs : f.shape = shape at hroot ih
    generalize (t f).shape = shape' at hroot
    cases hroot with
    | error d => rfl
    | atom => simp only [hword f hs]
    | negation body => exact ih _ rfl body (.head _)
    | junction j parts =>
      have hparts : (parts.map t).mapM consequents = parts.mapM consequents := by
        rw [List.mapM_map]
        exact mapM_congr (ih _ rfl)
      simp only [hparts]
    | conditional premise premise' conclusion => exact ih _ rfl conclusion (.tail _ (.head _))
    | quantified j declaration declaration' body => exact ih _ rfl body (.head _)

theorem exists_mem_values_iff (f : Formula) :
    ∀ {entries}, consequents f = .ok entries →
      ∀ w, (∃ c ∈ entries, w ∈ c.values) ↔ w ∈ f.concludedWords := by
  induction f using Formula.induct_conclusions with
  | step f ih =>
    intro entries h w
    rw [Formula.mem_concludedWords]
    rcases consequents_cases h with ⟨hp, rfl⟩ | ⟨hp, parts, hparts, rfl⟩
    · simp [SortedSet.mem_single, Candidates.mem_values_single, hp,
        Formula.conclusions_of_isPredicate hp]
    · obtain ⟨hsource, hresult⟩ := mem_of_mapM hparts
      rw [Junction.exists_mem_entries]
      constructor
      · rintro ⟨e, he, hw⟩
        obtain ⟨a, ha, hae⟩ := hsource e he
        exact .inr ⟨a, ha, (ih a ha hae w).1 hw⟩
      · rintro (⟨hp', -⟩ | ⟨a, ha, hw⟩)
        · simp [hp] at hp'
        · obtain ⟨e, he, hae⟩ := hresult a ha
          exact ⟨e, he, (ih a ha hae w).2 hw⟩

/-- A disjunction has one entry, and which candidates that holds is known from the lemma before; so
the induction goes on only where there is no disjunction. -/
theorem mem_consequents_iff (f : Formula) :
    ∀ {entries}, consequents f = .ok entries →
      ∀ c, c ∈ entries ↔ ∃ n ∈ f.certainPositions, n.ownEntry = some c := by
  induction f using Formula.induct_conclusions with
  | step f ih =>
    intro entries h c
    have hwords := exists_mem_values_iff _ h
    rw [Formula.exists_ownEntry_iff]
    rcases consequents_cases h with ⟨hp, rfl⟩ | ⟨hp, parts, hparts, rfl⟩
    · simp [SortedSet.mem_single, Formula.ownEntry_eq_some_iff, hp,
        Formula.isDisjunction_of_isPredicate hp, Formula.conclusions_of_isPredicate hp]
    · cases hd : f.isDisjunction with
      | true =>
        simp only [hd, if_true, Junction.mem_entries_any, exists_eq_left] at hwords ⊢
        have hentry : Candidates.merge (parts.flatMap SortedSet.toList) =
            .ofList f.concludedWords :=
          Candidates.ext_values fun w => (hwords w).trans Candidates.mem_values_ofList.symm
        simp [Formula.ownEntry_eq_some_iff, hp, hd, hentry]
      | false =>
        obtain ⟨hsource, hresult⟩ := mem_of_mapM hparts
        have hself : f.ownEntry = none := by simp [Formula.ownEntry, hp, hd]
        rw [hself]
        constructor
        · intro hc
          obtain ⟨e, he, hce⟩ := Junction.mem_entries_all.1 hc
          obtain ⟨a, ha, hae⟩ := hsource e he
          exact .inr ⟨rfl, a, ha, (ih a ha hae c).1 hce⟩
        · rintro (hno | ⟨-, a, ha, hn⟩)
          · cases hno
          · obtain ⟨e, he, hae⟩ := hresult a ha
            have hce := (ih a ha hae c).2 hn
            exact Junction.mem_entries_all.2 ⟨e, he, hce⟩

/-- What is extracted from a formula, by place: an entry for each predicate that is concluded with
no disjunction above, and for each outermost disjunction one entry with the words of all predicates
that are concluded below it. All candidates together are the words of all predicates concluded. -/
theorem entries_located {f : Formula} {entries : Entries} (h : consequents f = .ok entries) :
    (∀ c, c ∈ entries ↔
      (∃ n ∈ f.certainPositions, n.isPredicate = true ∧ c = .single n.word) ∨
        ∃ n ∈ f.certainPositions, n.isDisjunction = true ∧ c = .ofList n.concludedWords) ∧
      ∀ w, (∃ c ∈ entries, w ∈ c.values) ↔ w ∈ f.concludedWords := by
  refine ⟨fun c => ?_, exists_mem_values_iff f h⟩
  rw [mem_consequents_iff f h]
  simp only [Formula.ownEntry_eq_some_iff, and_or_left, exists_or]

/-- The offer holds a conjunction and another disjunction, and is one entry all the same. The
disjunction of nothing is an entry without candidates. The premises, a nameless one among them, add
nothing. -/
theorem entries_located_meals :
    let offer := Formula.or [.and [.leaf "soup", .leaf "bread"], .or [.leaf "cake", .leaf "soup"]]
    let f := Formula.forAll "?x" (.and [.not (.leaf "hungry"), .imply (.leaf "") offer, .or [],
      .when (.leaf "paid") (.leaf "full")])
    let entries : Entries := .ofList
      [.single "hungry", .ofList ["bread", "cake", "soup"], .ofList [], .single "full"]
    consequents f = .ok entries ∧
      offer ∈ f.certainPositions ∧ .ofList offer.concludedWords ∈ entries ∧
      ∀ w, (∃ c ∈ entries, w ∈ c.values) ↔
        w ∈ ["hungry", "soup", "bread", "cake", "soup", "full"] := by
  intro offer f entries
  have h : consequents f = .ok entries := by decide +kernel
  have hoffer : offer ∈ f.certainPositions := by decide +kernel
  have hwords : f.concludedWords = ["hungry", "soup", "bread", "cake", "soup", "full"] := by
    decide +kernel
  obtain ⟨hentries, hall⟩ := entries_located h
  rw [hwords] at hall
  have hentry := (hentries (.ofList offer.concludedWords)).2
    (.inr ⟨offer, hoffer, Formula.isDisjunction_apply _ _, rfl⟩)
  exact ⟨h, hoffer, hentry, hall⟩

end PlanLogic
