import PlanLogic.Proofs.Simulation

/-!
# PlanLogic.Proofs.Universe

What a run takes from the objects of the world. A quantifier ranges over the objects of exactly its
type, in their order, and its copies have the names of these objects and nothing else of them. So of
each declared type the list of names counts. How objects of several types are mixed, whether one
name is found under several types, and what other objects there are, leaves no trace but their
number in the events of expansion.

* `copies_congr`: the same names give the same copies.
* `Event.among`: an event with another number of objects in the world.
* `evaluate_eq_among`: with the same names of each declared type, the events are the same but for
  this number.
* `run_eq_of_names`: the same for values and verdicts, in which it does not appear.
-/

namespace PlanLogic

theorem copies_congr {w w' : World} {p : Object} (h : w'.namesOf p.type = w.namesOf p.type)
    (body : Formula) : body.copies p w'.objects = body.copies p w.objects := by
  have hnames := copies_close w [] body p
  have hnames' := copies_close w' [] body p
  rw [Formula.close_nil] at hnames hnames'
  rw [hnames, hnames', h]

/-- The expansion, as if it had been made among `n` objects. -/
def Expansion.among (n : Nat) (e : Expansion) : Expansion := { e with candidates := n }

def Event.among (n : Nat) : Event → Event
  | expanded e => expanded (e.among n)
  | judged v => judged v

/-- The worlds have the same names of each type that the formula declares. -/
def World.SameNames (w w' : World) (f : Formula) : Prop :=
  ∀ b ∈ f.binders, w'.namesOf b.parameter.type = w.namesOf b.parameter.type

instance (w w' : World) (f : Formula) : Decidable (w.SameNames w' f) :=
  inferInstanceAs (Decidable (∀ b ∈ f.binders, _ = _))

theorem World.SameNames.of_component {w w' : World} {f a : Formula} (h : w.SameNames w' f)
    (ha : a ∈ components w f) : w.SameNames w' a := by
  intro b hb
  obtain ⟨c, hc, hcb⟩ := exists_binder_of_component ha hb
  rw [← hcb]
  exact h c hc

/-- Every formula goes over into itself, since its copies are the same in both worlds. -/
def World.sameNamesSimulation {w w' : World} (hholds : w'.holds = w.holds) :
    Simulation w w' where
  formula f := f
  expansion := Expansion.among w'.objects.length
  Covers := w.SameNames w'
  covers_component := World.SameNames.of_component
  shape_formula f := by
    cases hs : f.shape with
    | error d => rfl
    | ok s => simp [Except.map, Formula.mapParts_id]
  holds_formula _ _ := by rw [hholds]
  copies_expansion e := (List.map_id' _).symm
  ofBody_formula := by
    intro f j declaration body hf hs
    unfold Expansion.ofBody
    cases hp : declaration.parameter with
    | error d => rfl
    | ok p =>
      have hnames : w'.namesOf p.type = w.namesOf p.type :=
        hf _ (Formula.mem_binders_of_shape hs hp)
      simp only [Except.map, Expansion.among, copies_congr hnames]

theorem evaluate_eq_among {w w' : World} (hholds : w'.holds = w.holds) {f : Formula}
    (hnames : w.SameNames w' f) :
    evaluate w' f = (evaluate w f).view (some ∘ Event.among w'.objects.length) := by
  have hevent : (World.sameNamesSimulation hholds).event = Event.among w'.objects.length := by
    funext e
    cases e <;> rfl
  rw [← hevent]
  exact (World.sameNamesSimulation hholds).evaluate_eq_view f hnames

theorem view_evaluate_congr {w w' : World} (hholds : w'.holds = w.holds) {f : Formula}
    (hnames : w.SameNames w' f) :
    (evaluate w' f).view Event.verdict? = (evaluate w f).view Event.verdict? := by
  rw [evaluate_eq_among hholds hnames]
  simp only [Traced.view, List.filterMap_filterMap]
  congr 2
  funext e
  cases e <;> rfl

/-- Let the same hold in two worlds, and let them have the same objects of each type that is
declared in the formula: the same names in the same order, however they are mixed with objects of
other types and whatever these are called. Then the formula has the same value or the same defect in
both, after the same verdicts and the same expansions. Only the number of all objects, which is
noted with an expansion, is that of each world. -/
theorem run_eq_of_names {w w' : World} (hholds : w'.holds = w.holds) {f : Formula}
    (hnames : w.SameNames w' f) :
    (evaluate w' f).outcome = (evaluate w f).outcome ∧
      (evaluate w' f).verdicts = (evaluate w f).verdicts ∧
      (evaluate w' f).expansions =
        (evaluate w f).expansions.map (Expansion.among w'.objects.length) := by
  have hview := view_evaluate_congr hholds hnames
  have houtcome := congrArg Traced.outcome hview
  have hverdicts := congrArg Traced.events hview
  refine ⟨houtcome, hverdicts, ?_⟩
  rw [evaluate_eq_among hholds hnames]
  simp only [Run.expansions, Traced.view, List.filterMap_filterMap, List.map_filterMap]
  congr 1
  funext e
  cases e <;> rfl

/-- In the second world the rooms come first, a dog has a name that a person has, and `ann` is still
both a person and a room. The run comes to the same nameless formula, in the copy for Bob, and what
it has found on the way is the same. -/
theorem run_eq_of_names_ann :
    let clean := fun x r => Formula.predicate "clean" [x, r]
    let f := Formula.forAll "?x - person" (.or [.forSome "?r - room" (clean "?x" "?r"), .leaf ""])
    let facts : List Fact := [⟨clean "ann" "ann"⟩, ⟨clean "bob" "rex"⟩]
    let w := World.of .list
      [⟨"ann", "person"⟩, ⟨"hall", "room"⟩, ⟨"bob", "person"⟩, ⟨"ann", "room"⟩] facts
    let w' := World.of .list [⟨"hall", "room"⟩, ⟨"rex", "dog"⟩, ⟨"ann", "room"⟩,
      ⟨"ann", "person"⟩, ⟨"bob", "dog"⟩, ⟨"bob", "person"⟩] facts
    w.SameNames w' f ∧ (evaluate w f).outcome = .error .emptyWord ∧
      (evaluate w' f).outcome = .error .emptyWord ∧
      ⟨clean "bob" "ann", false⟩ ∈ (evaluate w f).verdicts ∧
      (evaluate w' f).verdicts = (evaluate w f).verdicts ∧
      (evaluate w' f).expansions = (evaluate w f).expansions.map (.among 6) := by
  intro clean f facts w w'
  have hnames : w.SameNames w' f := by decide +kernel
  have hdefect : (evaluate w f).outcome = .error .emptyWord := by decide +kernel
  have hbob : ⟨clean "bob" "ann", false⟩ ∈ (evaluate w f).verdicts := by decide +kernel
  have hholds : w'.holds = w.holds := rfl
  obtain ⟨houtcome, hverdicts, hexpansions⟩ := run_eq_of_names hholds hnames
  exact ⟨hnames, hdefect, houtcome.trans hdefect, hbob, hverdicts, hexpansions⟩

end PlanLogic
