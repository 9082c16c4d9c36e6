import Mathlib.Data.List.Basic
import PlanLogic.Proofs.Defects

/-!
# PlanLogic.Proofs.Components

What a run is made of. The components of a formula in a world are what evaluation turns to next: its
parts, or for a quantifier the copies of its body. They are smaller than the formula, so there is an
induction on them, and the events before the formula's own verdict are its expansion, if it has one,
and those of its first components in a row.

* `components`, `induct_components`: what evaluation turns to, and the induction.
* `evaluateParts_congr`: only how the components are judged makes a difference to one level.
* `position_cases_of_component`: positions of components are those of the formula, copied or not.
* `Traced.Visits`: a run made of the runs of the first elements of a list, up to a value or defect.
* `evaluateParts_cases`: a formula fails by itself or visits its components.
* `visits_of_ok`, `visits_of_error`: the same of its whole run, by its outcome.
* `Traced.Cumulative`: properties that pass from lists of events to longer ones.
* `events_evaluateParts`: a cumulative property of the runs of all components is one of the run.
* `judged_cases`: a verdict is the formula's own, or one of a component's run.
* `exists_close_of_judged`: whatever is judged is at some position of the formula, under bindings.
  Since these change no word there, it has the word of that position (`exists_position_of_judged`).
-/

namespace PlanLogic

/-! ## Positions under substitution -/

namespace Formula

theorem subformulas_subst (σ : Assignment) (f : Formula) :
    (f.subst σ).subformulas = f.subformulas.map (subst σ) := by
  unfold subformulas
  rw [node_subst]
  cases h : f.node with
  | empty => rfl
  | predicate name => rfl
  | operator op =>
    simp only [args_subst_of_operator σ h]
    cases op.isQuantifier <;> rcases f.args with _ | ⟨a, _ | ⟨b, rest⟩⟩ <;> simp

theorem positions_subst (σ : Assignment) (f : Formula) :
    (f.subst σ).positions = f.positions.map (subst σ) := by
  induction f using induct with
  | step w args ih =>
    rw [positions_eq, positions_eq ⟨w, args⟩, subformulas_subst, List.map_cons, List.flatMap_map,
      List.map_flatMap]
    congr 1
    exact List.flatMap_congr fun a ha => ih a (mem_args_of_mem_subformulas ha)

theorem binder?_subst (σ : Assignment) (f : Formula) :
    (f.subst σ).binder? = f.binder?.map fun b => ⟨b.parameter, b.body.subst σ⟩ := by
  unfold binder?
  rw [shape_subst]
  cases f.shape with
  | error d => rfl
  | ok s =>
    cases s with
    | quantified j declaration body =>
      simp only [Except.map, Shape.mapParts]
      cases declaration.parameter <;> rfl
    | _ => rfl

end Formula

/-! ## Components -/

/-- What the evaluation of `f` may turn to before its verdict. -/
def components (w : World) (f : Formula) : List Formula :=
  match f.shape with
  | .error _ => []
  | .ok (.quantified j declaration body) =>
    match Expansion.ofBody j.quantifier declaration body w.objects with
    | .error _ => []
    | .ok e => e.copies
  | .ok s => s.parts

theorem evaluateParts_congr {w : World} {f : Formula} {judge judge' : Formula → Run Bool}
    (h : ∀ a ∈ components w f, judge a = judge' a) :
    evaluateParts w judge f = evaluateParts w judge' f := by
  unfold evaluateParts
  unfold components at h
  cases hs : f.shape with
  | error d => rfl
  | ok s =>
    rw [hs] at h
    cases s with
    | atom => rfl
    | negation body => simp only [h body (.head _)]
    | junction j parts => exact Traced.settle_congr h
    | conditional premise conclusion =>
      simp only [h premise (.head _), h conclusion (.tail _ (.head _))]
    | quantified j declaration body =>
      cases he : Expansion.ofBody j.quantifier declaration body w.objects with
      | error d => simp only [he]
      | ok e =>
        simp only [he] at h ⊢
        rw [Traced.settle_congr h]

/-- A predicate is looked up as it stands, and nothing else happens. -/
theorem evaluate_of_atom {f : Formula} (h : f.shape = .ok .atom) (w : World) :
    evaluate w f = ⟨[.judged ⟨f, w.holds f⟩], .ok (w.holds f)⟩ := by
  rw [evaluate_eq, evaluateParts, h]
  rfl

/-- A component is a part, or a copy of a part for an object. -/
theorem eq_part_or_copy {w : World} {f a : Formula} (ha : a ∈ components w f) :
    ∃ s, f.shape = .ok s ∧
      ∃ b ∈ s.parts, a = b ∨ ∃ p, ∃ o ∈ w.objects, a = b.subst (.single p o) := by
  unfold components at ha
  split at ha
  · cases ha
  · rename_i j declaration body hs
    split at ha
    · cases ha
    · rename_i e he
      obtain ⟨p, -, rfl⟩ := Expansion.ofBody_eq_ok_iff.1 he
      obtain ⟨o, ho, rfl⟩ := List.mem_map.1 ha
      exact ⟨_, hs, body, .head _, .inr ⟨p, o, (List.mem_filter.1 ho).1, rfl⟩⟩
  · rename_i s _ hs
    exact ⟨s, hs, a, ha, .inl rfl⟩

theorem size_lt_of_mem_components {w : World} {f a : Formula} (ha : a ∈ components w f) :
    a.size < f.size := by
  obtain ⟨s, hs, b, hb, rfl | ⟨p, o, -, rfl⟩⟩ := eq_part_or_copy ha
  · exact Formula.size_lt_of_mem_parts hs hb
  · exact Nat.lt_of_le_of_lt (Formula.size_subst_le _ b) (Formula.size_lt_of_mem_parts hs hb)

/-- Induction with a hypothesis for everything that evaluation may turn to. -/
theorem induct_components (w : World) {motive : Formula → Prop}
    (step : ∀ f, (∀ a ∈ components w f, motive a) → motive f) (f : Formula) : motive f := by
  induction hn : f.size using Nat.strongRecOn generalizing f with
  | ind n ih =>
    refine step f fun a ha => ih a.size ?_ a rfl
    rw [← hn]
    exact size_lt_of_mem_components ha

/-- A position of a component is one of the formula, or a copy of one for an object. -/
theorem position_cases_of_component {w : World} {f a n : Formula} (ha : a ∈ components w f)
    (hn : n ∈ a.positions) :
    ∃ m ∈ f.positions, n = m ∨ ∃ p, ∃ o ∈ w.objects, n = m.subst (.single p o) := by
  obtain ⟨s, hs, b, hb, h⟩ := eq_part_or_copy ha
  have hbf : b ∈ f.subformulas := by rwa [Formula.subformulas_eq_parts hs]
  rcases h with rfl | ⟨p, o, ho, rfl⟩
  · exact ⟨n, Formula.mem_positions_of_mem_subformulas hbf hn, .inl rfl⟩
  · rw [Formula.positions_subst] at hn
    obtain ⟨m, hm, rfl⟩ := List.mem_map.1 hn
    exact ⟨m, Formula.mem_positions_of_mem_subformulas hbf hm, .inr ⟨p, o, ho, rfl⟩⟩

theorem exists_position_of_component {w : World} {f a n : Formula} (ha : a ∈ components w f)
    (hn : n ∈ a.positions) : ∃ m ∈ f.positions, m.word = n.word := by
  obtain ⟨m, hm, rfl | ⟨p, o, -, rfl⟩⟩ := position_cases_of_component ha hn
  · exact ⟨n, hm, rfl⟩
  · exact ⟨m, hm, (Formula.word_subst _ m).symm⟩

/-- Expansion makes no new declarations, whatever it does to the formulas below them. -/
theorem exists_binder_of_component {w : World} {f a : Formula} {b : Formula.Binder}
    (ha : a ∈ components w f) (hb : b ∈ a.binders) :
    ∃ c ∈ f.binders, c.parameter = b.parameter := by
  obtain ⟨n, hn, hnb⟩ := List.mem_filterMap.1 hb
  obtain ⟨m, hm, rfl | ⟨p, o, -, rfl⟩⟩ := position_cases_of_component ha hn
  · exact ⟨b, List.mem_filterMap.2 ⟨n, hm, hnb⟩, rfl⟩
  · rw [Formula.binder?_subst] at hnb
    obtain ⟨c, hc, rfl⟩ := Option.map_eq_some_iff.1 hnb
    exact ⟨c, List.mem_filterMap.2 ⟨m, hm, hc⟩, rfl⟩

theorem mem_declaredNames_of_component {w : World} {f a : Formula} {x : String}
    (ha : a ∈ components w f) (hx : x ∈ a.declaredNames) : x ∈ f.declaredNames := by
  obtain ⟨b, hb, rfl⟩ := List.mem_map.1 hx
  obtain ⟨c, hc, hcb⟩ := exists_binder_of_component ha hb
  exact List.mem_map.2 ⟨c, hc, by rw [hcb]⟩

/-! ## Visits -/

namespace Traced

variable {ε α β : Type} {judge : α → Traced ε Bool}

/-- The run `r` is made of the runs of the first elements of a list. It may stop before any element
with a value, and it ends with the first element that has a defect. -/
inductive Visits (judge : α → Traced ε Bool) : List α → Traced ε β → Prop where
  | stop {as : List α} (b : β) : Visits judge as (pure b)
  | fail {a : α} {as : List α} {d : Defect} :
      (judge a).outcome = .error d → Visits judge (a :: as) ⟨(judge a).events, .error d⟩
  | next {a : α} {as : List α} {v : Bool} {r : Traced ε β} :
      (judge a).outcome = .ok v → Visits judge as r →
        Visits judge (a :: as) (r.after (judge a).events)

namespace Visits

theorem bind {a : α} {as : List α} {next : Bool → Traced ε β}
    (h : ∀ v, Visits judge as (next v)) : Visits judge (a :: as) ((judge a).bind next) := by
  unfold Traced.bind
  split
  · rename_i d hd
    exact .fail hd
  · rename_i v hv
    exact .next hv (h v)

theorem map (a : α) (g : Bool → β) : Visits judge [a] ((judge a).map g) :=
  bind fun v => .stop (g v)

theorem settle (j : Junction) (as : List α) : Visits judge as (settle j judge as) := by
  induction as with
  | nil => exact .stop _
  | cons a as ih =>
    refine bind fun v => ?_
    split
    · exact .stop v
    · exact ih

/-- A value comes after complete runs only. -/
theorem events_of_ok {as : List α} {r : Traced ε β} {b : β} (hr : Visits judge as r)
    (h : r.outcome = .ok b) :
    ∃ first, first <+: as ∧ (∀ a ∈ first, ∃ v, (judge a).outcome = .ok v) ∧
      r.events = first.flatMap fun a => (judge a).events := by
  induction hr with
  | stop b => exact ⟨[], List.nil_prefix, nofun, rfl⟩
  | fail hd => cases h
  | @next a as v r hv _ ih =>
    obtain ⟨first, hfirst, hvalues, hevents⟩ := ih h
    refine ⟨a :: first, List.prefix_cons_inj a |>.2 hfirst, ?_, ?_⟩
    · intro c hc
      rcases List.mem_cons.1 hc with rfl | hc
      · exact ⟨v, hv⟩
      · exact hvalues c hc
    · rw [List.flatMap_cons, ← hevents]
      rfl

end Visits

end Traced

/-- The expansion that the run of `f` begins with. -/
def expansion? (w : World) (f : Formula) : Option Expansion :=
  match f.shape with
  | .ok (.quantified j declaration body) =>
    (Expansion.ofBody j.quantifier declaration body w.objects).toOption
  | _ => none

theorem components_of_expansion {w : World} {f : Formula} {e : Expansion}
    (h : expansion? w f = some e) : components w f = e.copies := by
  unfold expansion? at h
  unfold components
  split at h
  · rename_i j declaration body hs
    rw [hs]
    cases he : Expansion.ofBody j.quantifier declaration body w.objects with
    | error d => simp [he, Except.toOption] at h
    | ok e' =>
      rw [he] at h
      cases h
      simp only [he]
  · cases h

/-- Before its verdict a formula fails by itself, or its expansion is noted, if it has one, and its
components are visited. -/
theorem evaluateParts_cases (w : World) (judge : Formula → Run Bool) (f : Formula) :
    (∃ d, f.HasDefect d ∧ evaluateParts w judge f = .fail d ∧ components w f = []) ∨
      ∃ r, Traced.Visits judge (components w f) r ∧
        evaluateParts w judge f = r.after ((expansion? w f).toList.map .expanded) := by
  unfold evaluateParts components expansion?
  cases hs : f.shape with
  | error d => exact .inl ⟨d, Formula.hasDefect_of_shape hs, rfl, rfl⟩
  | ok s =>
    cases s with
    | atom => exact .inr ⟨_, .stop _, rfl⟩
    | negation body => exact .inr ⟨_, .map body _, rfl⟩
    | junction j parts => exact .inr ⟨_, .settle j parts, rfl⟩
    | conditional premise conclusion => exact .inr ⟨_, .bind fun p => .map conclusion _, rfl⟩
    | quantified j declaration body =>
      cases he : Expansion.ofBody j.quantifier declaration body w.objects with
      | error d =>
        have hp := Expansion.ofBody_eq_error_iff.1 he
        refine .inl ⟨d, Formula.hasDefect_of_parameter hs hp, ?_, ?_⟩ <;> simp only [he]
      | ok e =>
        simp only [he]
        exact .inr ⟨_, .settle j e.copies, rfl⟩

/-! ## Events -/

namespace Traced

variable {ε α β : Type}

/-- What is true of no events, and of any two lists of events in a row if it is true of both. -/
structure Cumulative (P : List ε → Prop) : Prop where
  nil : P []
  append {es es' : List ε} : P es → P es' → P (es ++ es')

theorem cumulative_forall (p : ε → Prop) : Cumulative fun es => ∀ e ∈ es, p e where
  nil := by
    intro e he
    cases he
  append h h' := by
    intro e he
    rcases List.mem_append.1 he with he | he
    · exact h e he
    · exact h' e he

theorem Cumulative.visits {P : List ε → Prop} (hP : Cumulative P) {judge : α → Traced ε Bool}
    {as : List α} {r : Traced ε β} (hr : Visits judge as r) (h : ∀ a ∈ as, P (judge a).events) :
    P r.events := by
  induction hr with
  | stop b => exact hP.nil
  | fail hd => exact h _ (.head _)
  | next hv hr ih => exact hP.append (h _ (.head _)) (ih fun b hb => h b (.tail _ hb))

end Traced

theorem events_evaluateParts {P : List Event → Prop} (hP : Traced.Cumulative P)
    (hexp : ∀ e, P [.expanded e]) {w : World} {judge : Formula → Run Bool} {f : Formula}
    (h : ∀ a ∈ components w f, P (judge a).events) : P (evaluateParts w judge f).events := by
  rcases evaluateParts_cases w judge f with ⟨d, -, hfail, -⟩ | ⟨r, hr, hafter⟩
  · rw [hfail]
    exact hP.nil
  · have hruns := hP.visits hr h
    rw [hafter]
    cases expansion? w f with
    | none => exact hruns
    | some e => exact hP.append (hexp e) hruns

/-- A verdict before the formula's own is one of a component's run. -/
theorem exists_component_of_judged {w : World} {f : Formula} {v : Verdict}
    (hv : .judged v ∈ (evaluateParts w (evaluate w) f).events) :
    ∃ a ∈ components w f, .judged v ∈ (evaluate w a).events := by
  have hcum := Traced.cumulative_forall fun e => ∀ v, e = Event.judged v →
    ∃ a ∈ components w f, .judged v ∈ (evaluate w a).events
  have hexp : ∀ e, ∀ e' ∈ [Event.expanded e], ∀ v, e' = .judged v →
      ∃ a ∈ components w f, .judged v ∈ (evaluate w a).events := by
    rintro e e' he' v rfl
    cases List.mem_singleton.1 he'
  have hparts := events_evaluateParts hcum hexp (w := w) (f := f) (by
    rintro a ha e he v rfl
    exact ⟨a, ha, he⟩)
  exact hparts _ hv v rfl

theorem outcome_evaluate_eq_parts (w : World) (f : Formula) :
    (evaluate w f).outcome = (evaluateParts w (evaluate w) f).outcome := by
  rw [evaluate_eq, Traced.outcome_conclude]

theorem events_of_ok {w : World} {f : Formula} {b : Bool} (h : (evaluate w f).outcome = .ok b) :
    (evaluate w f).events = (evaluateParts w (evaluate w) f).events ++ [.judged ⟨f, b⟩] := by
  rw [outcome_evaluate_eq_parts] at h
  rw [evaluate_eq, Traced.conclude, Traced.bind, h]
  rfl

theorem events_of_error {w : World} {f : Formula} {d : Defect}
    (h : (evaluate w f).outcome = .error d) :
    (evaluate w f).events = (evaluateParts w (evaluate w) f).events := by
  rw [outcome_evaluate_eq_parts] at h
  rw [evaluate_eq, Traced.conclude, Traced.bind, h]

theorem verdicts_of_ok {w : World} {f : Formula} {b : Bool} (h : (evaluate w f).outcome = .ok b) :
    (evaluate w f).verdicts = (evaluateParts w (evaluate w) f).verdicts ++ [⟨f, b⟩] := by
  rw [Run.verdicts, events_of_ok h, List.filterMap_append]
  rfl

theorem verdicts_of_error {w : World} {f : Formula} {d : Defect}
    (h : (evaluate w f).outcome = .error d) :
    (evaluate w f).verdicts = (evaluateParts w (evaluate w) f).verdicts := by
  rw [Run.verdicts, events_of_error h]
  rfl

/-- A run with a value notes the expansion, if there is one, visits components, and ends in the
verdict. -/
theorem visits_of_ok {w : World} {f : Formula} {b : Bool} (hb : (evaluate w f).outcome = .ok b) :
    ∃ r : Run Bool, Traced.Visits (evaluate w) (components w f) r ∧ r.outcome = .ok b ∧
      (evaluate w f).events =
        (expansion? w f).toList.map .expanded ++ (r.events ++ [.judged ⟨f, b⟩]) := by
  have hparts := outcome_evaluate_eq_parts w f
  rw [hb] at hparts
  rcases evaluateParts_cases w (evaluate w) f with ⟨d, -, hfail, -⟩ | ⟨r, hr, hafter⟩
  · rw [hfail] at hparts
    cases hparts
  · rw [hafter] at hparts
    refine ⟨r, hr, hparts.symm, ?_⟩
    rw [events_of_ok hb, hafter, ← List.append_assoc]
    rfl

/-- A run with a defect ends where it is, or within the components. -/
theorem visits_of_error {w : World} {f : Formula} {d : Defect}
    (hd : (evaluate w f).outcome = .error d) :
    (f.HasDefect d ∧ components w f = [] ∧ (evaluate w f).events = []) ∨
      ∃ r : Run Bool, Traced.Visits (evaluate w) (components w f) r ∧ r.outcome = .error d ∧
        (evaluate w f).events = (expansion? w f).toList.map .expanded ++ r.events := by
  have hparts := outcome_evaluate_eq_parts w f
  rw [hd] at hparts
  rw [events_of_error hd]
  rcases evaluateParts_cases w (evaluate w) f with ⟨d', hdefect, hfail, hnone⟩ | ⟨r, hr, hafter⟩
  · rw [hfail] at hparts ⊢
    cases hparts
    exact .inl ⟨hdefect, hnone, rfl⟩
  · rw [hafter] at hparts ⊢
    exact .inr ⟨r, hr, hparts.symm, rfl⟩

theorem mem_events_of_parts {w : World} {f : Formula} {e : Event}
    (he : e ∈ (evaluateParts w (evaluate w) f).events) : e ∈ (evaluate w f).events := by
  cases ho : (evaluate w f).outcome with
  | error d => rwa [events_of_error ho]
  | ok b =>
    rw [events_of_ok ho]
    exact List.mem_append_left _ he

/-- A verdict is the formula's own, or one of a component's run. -/
theorem judged_cases {w : World} {f : Formula} {v : Verdict}
    (hv : .judged v ∈ (evaluate w f).events) :
    v.formula = f ∨ ∃ a ∈ components w f, .judged v ∈ (evaluate w a).events := by
  cases ho : (evaluate w f).outcome with
  | error d =>
    rw [events_of_error ho] at hv
    exact .inr (exists_component_of_judged hv)
  | ok b =>
    rw [events_of_ok ho] at hv
    rcases List.mem_append.1 hv with hv | hv
    · exact .inr (exists_component_of_judged hv)
    · cases List.mem_singleton.1 hv
      exact .inl rfl

/-- Whatever is judged is a formula at some position, under bindings. -/
theorem exists_close_of_judged {w : World} {v : Verdict} (f : Formula) :
    .judged v ∈ (evaluate w f).events → ∃ n ∈ f.positions, ∃ ρ, v.formula = n.close ρ := by
  induction f using induct_components w with
  | step f ih =>
    intro hv
    rcases judged_cases hv with rfl | ⟨a, ha, hva⟩
    · exact ⟨_, Formula.mem_positions_self _, [], rfl⟩
    · obtain ⟨n, hn, ρ, hρ⟩ := ih a ha hva
      obtain ⟨m, hm, rfl | ⟨p, o, -, rfl⟩⟩ := position_cases_of_component ha hn
      · exact ⟨n, hm, ρ, hρ⟩
      · exact ⟨m, hm, ⟨p.name, o.name⟩ :: ρ, by rw [hρ, Formula.close_cons, ← Formula.subst_single]⟩

theorem exists_position_of_judged {w : World} {v : Verdict} (f : Formula)
    (hv : .judged v ∈ (evaluate w f).events) : ∃ n ∈ f.positions, n.word = v.formula.word := by
  obtain ⟨n, hn, ρ, hρ⟩ := exists_close_of_judged f hv
  exact ⟨n, hn, by rw [hρ, Formula.word_close]⟩

end PlanLogic
