import Mathlib.Control.Monad.Basic
import PlanLogic.Proofs.Trace

/-!
# PlanLogic.Proofs.Brackets

How expansions and verdicts nest. An expansion is on record before the runs of its copies, and the
verdict on its quantifier after them, so the two enclose these runs like a pair of brackets. A
defect cuts a run short: then the quantifiers that it was in the middle of are never judged, and
only their expansions remain open.

* `Bracket`, `unmatched`: the blocks that expansions begin, and the expansions that begin none.
* `unmatched_append_of_ok`: a run with a value leaves no expansion open, whatever follows it.
* `failurePath`, `unmatched_of_error`: a run with a defect leaves those open on the way to it.
* `events_bracketed`: all of this, with what is told of each quantifier.
-/

namespace PlanLogic

open Traced

/-! ## Brackets -/

/-- The events `es` start with the expansion of a quantifier, end in its verdict `v`, and in between
are the complete runs of its first copies. -/
def Bracket (w : World) (e : Expansion) (v : Verdict) (es : List Event) : Prop :=
  expansion? w v.formula = some e ∧
    ∃ first, first <+: e.copies ∧ (∀ c ∈ first, ∃ b, (evaluate w c).outcome = .ok b) ∧
      es = .expanded e :: first.flatMap (fun c => (evaluate w c).events) ++ [.judged v]

open Classical in
/-- The expansions that no bracket begins with, in their order. -/
noncomputable def unmatched (w : World) : List Event → List Expansion
  | [] => []
  | .judged _ :: es => unmatched w es
  | .expanded e :: es =>
    if ∃ v block, Bracket w e v block ∧ block <+: .expanded e :: es then unmatched w es
    else e :: unmatched w es

theorem unmatched_of_bracket {w : World} {e : Expansion} {v : Verdict} {block es : List Event}
    (h : Bracket w e v block) (hblock : block <+: .expanded e :: es) :
    unmatched w (.expanded e :: es) = unmatched w es :=
  if_pos ⟨v, block, h, hblock⟩

theorem unmatched_of_no_bracket {w : World} {e : Expansion} {es : List Event}
    (h : ¬ ∃ v block, Bracket w e v block ∧ block <+: .expanded e :: es) :
    unmatched w (.expanded e :: es) = e :: unmatched w es :=
  if_neg h

/-- The run of a quantifier with a value is a bracket. -/
theorem bracket_evaluate {w : World} {f : Formula} {e : Expansion} {b : Bool}
    (he : expansion? w f = some e) (hb : (evaluate w f).outcome = .ok b) :
    Bracket w e ⟨f, b⟩ (evaluate w f).events := by
  obtain ⟨r, hr, hrb, hevents⟩ := visits_of_ok hb
  obtain ⟨first, hfirst, hvalues, hruns⟩ := hr.events_of_ok hrb
  rw [components_of_expansion he] at hfirst
  refine ⟨he, first, hfirst, hvalues, ?_⟩
  rw [hevents, he, hruns]
  rfl

/-- If no component leaves an expansion open, a visit of components does not either. -/
theorem Traced.Visits.unmatched_of_ok {w : World} {as : List Formula} {r : Run Bool} {b : Bool}
    (hr : Visits (evaluate w) as r)
    (has : ∀ a ∈ as, ∀ v, (evaluate w a).outcome = .ok v →
      ∀ rest, unmatched w ((evaluate w a).events ++ rest) = unmatched w rest)
    (h : r.outcome = .ok b) (rest : List Event) :
    unmatched w (r.events ++ rest) = unmatched w rest := by
  induction hr with
  | stop b => rfl
  | fail hd => cases h
  | @next a as v r hv _ ih =>
    have hrest := ih (fun c hc => has c (.tail _ hc)) h
    calc unmatched w ((r.after (evaluate w a).events).events ++ rest)
        = unmatched w ((evaluate w a).events ++ (r.events ++ rest)) := by
          rw [← List.append_assoc]
          rfl
      _ = unmatched w (r.events ++ rest) := has a (.head _) v hv _
      _ = unmatched w rest := hrest

/-- All expansions within a run with a value are matched within it. -/
theorem unmatched_append_of_ok {w : World} (f : Formula) :
    ∀ b, (evaluate w f).outcome = .ok b →
      ∀ rest, unmatched w ((evaluate w f).events ++ rest) = unmatched w rest := by
  induction f using induct_components w with
  | step f ih =>
    intro b hb rest
    obtain ⟨r, hr, hrb, hevents⟩ := visits_of_ok hb
    have hopen := hr.unmatched_of_ok ih hrb (.judged ⟨f, b⟩ :: rest)
    cases he : expansion? w f with
    | none =>
      rw [hevents, he, List.append_assoc, List.append_assoc]
      exact hopen
    | some e =>
      have hes : (evaluate w f).events ++ rest =
          .expanded e :: (r.events ++ .judged ⟨f, b⟩ :: rest) := by simp [hevents, he]
      have hblock : (evaluate w f).events <+:
          .expanded e :: (r.events ++ .judged ⟨f, b⟩ :: rest) := ⟨rest, hes⟩
      rw [hes, unmatched_of_bracket (bracket_evaluate he hb) hblock]
      exact hopen

/-! ## Failures -/

/-- The first component without a value. -/
def failing? (w : World) (f : Formula) : Option Formula :=
  (components w f).find? fun a => !(evaluate w a).outcome.isOk

/-- The formulas in the middle of which a defect ends the run of `f`, outermost first. The last one
is where the defect is. -/
def failurePath (w : World) (f : Formula) : List Formula :=
  f :: match _h : failing? w f with
    | none => []
    | some a => failurePath w a
termination_by f.size
decreasing_by exact size_lt_of_mem_components (List.mem_of_find?_eq_some _h)

theorem failurePath_eq (w : World) (f : Formula) :
    failurePath w f =
      f :: match failing? w f with
        | none => []
        | some a => failurePath w a := by
  rw [failurePath]
  congr 1
  split <;> simp only [*]

/-- A defect is passed on by the first component that has it, and only the run of that component
leaves expansions open. -/
theorem Traced.Visits.unmatched_of_error {w : World} {as : List Formula} {r : Run Bool} {d : Defect}
    (hr : Visits (evaluate w) as r) (h : r.outcome = .error d) :
    ∃ a, as.find? (fun a => !(evaluate w a).outcome.isOk) = some a ∧
      (evaluate w a).outcome = .error d ∧
      unmatched w r.events = unmatched w (evaluate w a).events := by
  induction hr with
  | stop b => cases h
  | @fail a as d' hd =>
    cases h
    exact ⟨a, by simp [hd, Except.isOk, Except.toBool], hd, rfl⟩
  | @next a as v r hv _ ih =>
    obtain ⟨c, hfind, hc, hopen⟩ := ih h
    refine ⟨c, by simpa [hv, Except.isOk, Except.toBool] using hfind, hc, ?_⟩
    exact (unmatched_append_of_ok a v hv r.events).trans hopen

/-- Before its own verdict, no quantifier with the same expansion as `f` is judged: those that are
judged are no larger than one of its copies. -/
theorem no_bracket_of_error {w : World} {f : Formula} {e : Expansion} {d : Defect}
    {es : List Event} (he : expansion? w f = some e) (hd : (evaluate w f).outcome = .error d)
    (hes : (evaluate w f).events = .expanded e :: es) :
    ¬ ∃ v block, Bracket w e v block ∧ block <+: .expanded e :: es := by
  rintro ⟨v, block, ⟨hv, first, -, -, rfl⟩, hblock⟩
  have hmem : .judged v ∈ .expanded e :: es := hblock.subset (by simp)
  rw [← hes, events_of_error hd] at hmem
  obtain ⟨a, ha, hva⟩ := exists_component_of_judged hmem
  rw [components_of_expansion he, ← components_of_expansion hv] at ha
  exact Nat.lt_irrefl _
    (Nat.lt_of_lt_of_le (size_lt_of_mem_components ha) (size_le_of_judged a hva))

/-- What a run with a defect leaves open are the expansions of the quantifiers around the formula
that has the defect. -/
theorem unmatched_of_error {w : World} {d : Defect} (f : Formula) :
    (evaluate w f).outcome = .error d →
      ∃ enclosing n, failurePath w f = enclosing ++ [n] ∧ n.HasDefect d ∧
        unmatched w (evaluate w f).events = enclosing.filterMap (expansion? w) := by
  induction f using induct_components w with
  | step f ih =>
    intro hd
    rw [failurePath_eq]
    rcases visits_of_error hd with ⟨hdefect, hnone, hevents⟩ | ⟨r, hr, hrd, hevents⟩
    · exact ⟨[], f, by simp [failing?, hnone], hdefect, by rw [hevents]; rfl⟩
    · obtain ⟨a, hfind, ha, hopen⟩ := hr.unmatched_of_error hrd
      have hfailing : failing? w f = some a := hfind
      obtain ⟨enclosing, n, hpath, hn, hrest⟩ := ih a (List.mem_of_find?_eq_some hfind) ha
      refine ⟨f :: enclosing, n, by simp [hfailing, hpath], hn, ?_⟩
      cases he : expansion? w f with
      | none =>
        rw [he] at hevents
        rw [hevents, List.filterMap_cons_none he, ← hrest]
        exact hopen
      | some e =>
        have hes : (evaluate w f).events = .expanded e :: r.events := by
          rw [hevents, he]
          rfl
        rw [hes, unmatched_of_no_bracket (no_bracket_of_error he hd hes),
          List.filterMap_cons_some he, hopen, hrest]

/-! ## The whole stream -/

theorem debug_eq_verdicts (es : List Event) :
    (es.filter fun e => e.level = .debug).map (fun e => (e.message, e.holds?)) =
      (es.filterMap Event.verdict?).map fun v => (v.render, some v.holds) := by
  induction es with
  | nil => rfl
  | cons e es ih =>
    cases e with
    | expanded e =>
      rw [List.filter_cons_of_neg (by simp [Event.level]), ih]
      rfl
    | judged v =>
      rw [List.filter_cons_of_pos (by simp [Event.level]), List.map_cons, ih]
      rfl

theorem close_quantifier (j : Junction) (declaration body : Formula) (ρ : Scopes) :
    (Formula.apply j.quantifier [declaration, body]).close ρ =
      .apply j.quantifier [declaration, body.close ρ] := by
  rw [← Formula.shape_eq_quantified_iff, Formula.shape_close, Formula.shape_eq_quantified_iff.2 rfl]
  rfl

theorem expansion_quantifier (w : World) (j : Junction) {declaration : Formula} {p : Object}
    (hp : declaration.parameter = .ok p) (body : Formula) :
    expansion? w (.apply j.quantifier [declaration, body]) =
      some ⟨j.quantifier, declaration.word, w.objects.length, body.copies p w.objects⟩ := by
  unfold expansion?
  rw [Formula.shape_eq_quantified_iff.2 rfl]
  simp only [Expansion.ofBody, hp]
  rfl

/-- A quantifier that comes to a value under bindings is well formed as it stands. -/
theorem exists_parameter_of_value {w : World} {ρ : Scopes} {n : Formula} {j : Junction} {b : Bool}
    (hn : (n.close ρ).node = .operator j.quantifier)
    (hb : (evaluate w (n.close ρ)).outcome = .ok b) :
    ∃ declaration body p, n = .apply j.quantifier [declaration, body] ∧
      declaration.parameter = .ok p := by
  rw [outcome_evaluate_close, valueIn_eq] at hb
  rw [Formula.node_congr (Formula.word_close ρ n)] at hn
  cases hs : n.shape with
  | error d => simp [hs] at hb
  | ok s =>
    obtain ⟨declaration, body, rfl⟩ := Formula.eq_apply_of_shape_quantifier hn hs
    rw [Formula.shape_eq_quantified_iff.2 rfl] at hb
    cases hp : declaration.parameter with
    | error d => simp [hp] at hb
    | ok p => exact ⟨declaration, body, p, rfl, hp⟩

/-- The events of a run are well bracketed. The debugging events report the verdicts, in order. Each
verdict on a quantifier ends a bracket, and the expansion that begins it tells the size of the
universe, has one copy per object of the declared type, and names the declaration as it stands in
the formula that was given. A run with a value leaves no expansion unmatched, and a run with a
defect just those of the quantifiers around the formula that has the defect, outermost first. -/
theorem events_bracketed (w : World) (f : Formula) :
    ((evaluate w f).events.filter fun e => e.level = .debug).map (fun e => (e.message, e.holds?)) =
        (evaluate w f).verdicts.map (fun v => (v.render, some v.holds)) ∧
      (∀ before v after (j : Junction), (evaluate w f).events = before ++ .judged v :: after →
        v.formula.node = .operator j.quantifier →
        ∃ declaration body ρ p block,
          .apply j.quantifier [declaration, body] ∈ f.positions ∧
          v.formula = .apply j.quantifier [declaration, body.close ρ] ∧
          declaration.parameter = .ok p ∧
          Bracket w ⟨j.quantifier, declaration.word, w.objects.length,
            (body.close ρ).copies p w.objects⟩ v block ∧
          ((body.close ρ).copies p w.objects).length =
            (w.objects.filter fun o => o.type = p.type).length ∧
          block <:+ before ++ [.judged v]) ∧
      (∀ b, (evaluate w f).outcome = .ok b → unmatched w (evaluate w f).events = []) ∧
      ∀ d, (evaluate w f).outcome = .error d →
        ∃ enclosing n, failurePath w f = enclosing ++ [n] ∧ n.HasDefect d ∧
          unmatched w (evaluate w f).events = enclosing.filterMap (expansion? w) := by
  refine ⟨debug_eq_verdicts _, ?_, ?_, fun d => unmatched_of_error f⟩
  · intro before v after j hevents hj
    have hv : .judged v ∈ (evaluate w f).events := by simp [hevents]
    obtain ⟨n, hn, ρ, hρ⟩ := exists_close_of_judged f hv
    obtain ⟨hvalue, hsuffix⟩ := replayable_evaluate w f before v after hevents
    obtain ⟨declaration, body, p, rfl, hp⟩ :=
      exists_parameter_of_value (hρ ▸ hj) (hρ ▸ hvalue)
    rw [close_quantifier] at hρ
    have hexpansion := expansion_quantifier w j hp (body.close ρ)
    rw [← hρ] at hexpansion
    exact ⟨declaration, body, ρ, p, _, hn, hρ, hp, bracket_evaluate hexpansion hvalue,
      by simp [Formula.copies], hsuffix⟩
  · intro b hb
    have h := unmatched_append_of_ok f b hb []
    rwa [List.append_nil] at h

/-- Ann is found at the hall, which closes the search for her. The search for Bob comes to the
nameless formula, so it stays open, and so does the round of all persons. -/
theorem events_bracketed_rooms :
    let located := fun x => Formula.or [.predicate "at" [x, "hall"], .leaf ""]
    let search := fun x =>
      Formula.forSome "?r - room" (.or [.predicate "at" [x, "?r"], .leaf ""])
    let rooms := fun x => Expansion.mk .forSome "?r - room" 3 [located x]
    let persons := Expansion.mk .forAll "?x - person" 3 [search "ann", search "bob"]
    let f := Formula.forAll "?x - person" (search "?x")
    let w := World.of .list [⟨"ann", "person"⟩, ⟨"hall", "room"⟩, ⟨"bob", "person"⟩]
      [.ofPredicate "at" ["ann", "hall"]]
    let before := [.expanded persons, .expanded (rooms "ann"),
      .judged ⟨.predicate "at" ["ann", "hall"], true⟩, .judged ⟨located "ann", true⟩]
    let after := [.expanded (rooms "bob"), .judged ⟨.predicate "at" ["bob", "hall"], false⟩]
    (evaluate w f).outcome = .error .emptyWord ∧
      (evaluate w f).events = before ++ .judged ⟨search "ann", true⟩ :: after ∧
      (∃ block, Bracket w (rooms "ann") ⟨search "ann", true⟩ block ∧
        block <:+ before ++ [.judged ⟨search "ann", true⟩]) ∧
      unmatched w (evaluate w f).events = [persons, rooms "bob"] ∧
      (evaluate w (search "ann")).outcome = .ok true ∧
      unmatched w (evaluate w (search "ann")).events = [] := by
  intro located search rooms persons f w before after
  have hdefect : (evaluate w f).outcome = .error .emptyWord := by decide +kernel
  have hevents : (evaluate w f).events = before ++ .judged ⟨search "ann", true⟩ :: after := by
    decide +kernel
  have hann : (evaluate w (search "ann")).outcome = .ok true := by decide +kernel
  have hrooms : expansion? w (search "ann") = some (rooms "ann") := by decide +kernel
  have hfailure : failurePath w f = [f, search "bob", located "bob"] ++ [.leaf ""] := by
    decide +kernel
  obtain ⟨-, hblocks, -, hopen⟩ := events_bracketed w f
  obtain ⟨_, _, _, _, block, -, -, -, hbracket, -, hblock⟩ :=
    hblocks before _ after .any hevents (Formula.node_apply _ _)
  rw [Option.some.inj (hbracket.1.symm.trans hrooms)] at hbracket
  obtain ⟨enclosing, n, hpath, -, hunmatched⟩ := hopen _ hdefect
  obtain ⟨rfl, -⟩ := List.append_inj' (hpath.symm.trans hfailure) rfl
  refine ⟨hdefect, hevents, ⟨block, hbracket, hblock⟩, hunmatched.trans ?_, hann,
    (events_bracketed w (search "ann")).2.2.1 true hann⟩
  decide +kernel

end PlanLogic
