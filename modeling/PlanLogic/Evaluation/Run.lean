import PlanLogic.Expansion

/-!
# PlanLogic.Evaluation.Run

What an evaluation leaves behind: the events in their order and the outcome, a value or the defect
that ended it. Events of a run that ends in a defect are kept.

* `Traced`: an outcome with the events on the way to it, whatever is noted as an event.
* `Traced.bind`: one run after another; a defect ends both.
* `Traced.settle`: runs one after another until one settles the junction.
* `Event`, `Run`: a quantifier has been expanded, or a formula has been judged.
* `Run.verdicts`, `failedQueries`: views of the events.
* `Event.level`, `Event.message`: how events are reported. Expansions are traced; verdicts are
  debugging output, marked by a tick or a cross.
-/

namespace PlanLogic

structure Traced (ε α : Type) where
  events : List ε
  outcome : Except Defect α

namespace Traced

variable {ε δ α β : Type}

def pure (a : α) : Traced ε α := ⟨[], .ok a⟩

def fail (d : Defect) : Traced ε α := ⟨[], .error d⟩

/-- The run `r` after the events `es`. -/
def after (es : List ε) (r : Traced ε α) : Traced ε α := ⟨es ++ r.events, r.outcome⟩

def bind (r : Traced ε α) (next : α → Traced ε β) : Traced ε β :=
  match r.outcome with
  | .error d => ⟨r.events, .error d⟩
  | .ok a => (next a).after r.events

def map (g : α → β) (r : Traced ε α) : Traced ε β := r.bind fun a => pure (g a)

/-- Notes the value once it is known. A defect leaves no note. -/
def conclude (note : Bool → ε) (r : Traced ε Bool) : Traced ε Bool :=
  r.bind fun b => ⟨[note b], .ok b⟩

/-- Goes through the parts in order and stops at the first that settles the junction. -/
def settle (j : Junction) (judge : α → Traced ε Bool) : List α → Traced ε Bool
  | [] => pure (!j.decisive)
  | a :: rest => (judge a).bind fun b => if b = j.decisive then pure b else settle j judge rest

theorem bind_ok {es : List ε} {a : α} {next : α → Traced ε β} :
    (Traced.mk es (.ok a)).bind next = (next a).after es := rfl

theorem settle_map (j : Junction) (g : α → β) (judge : β → Traced ε Bool) (as : List α) :
    settle j judge (as.map g) = settle j (judge ∘ g) as := by
  induction as with
  | nil => rfl
  | cons a as ih => simp only [List.map_cons, settle, Function.comp_apply, ih]

theorem settle_attach (j : Junction) (judge : α → Traced ε Bool) (as : List α) :
    settle j (fun a : { a // a ∈ as } => judge a.1) as.attach = settle j judge as := by
  have h := settle_map j Subtype.val judge as.attach
  rw [List.attach_map_subtype_val] at h
  exact h.symm

theorem settle_congr {j : Junction} {judge judge' : α → Traced ε Bool} {as : List α}
    (h : ∀ a ∈ as, judge a = judge' a) : settle j judge as = settle j judge' as := by
  induction as with
  | nil => rfl
  | cons a as ih =>
    have ha := h a (.head _)
    have has := ih fun b hb => h b (.tail _ hb)
    simp only [settle, ha, has]

/-! ## Views of the events -/

/-- The same outcome, with the events seen through `g`; those without an image are left out. -/
def view (g : ε → Option δ) (r : Traced ε α) : Traced δ α := ⟨r.events.filterMap g, r.outcome⟩

section View

variable (g : ε → Option δ)

theorem view_pure (a : α) : (pure a : Traced ε α).view g = pure a := rfl

theorem view_after (es : List ε) (r : Traced ε α) :
    (r.after es).view g = (r.view g).after (es.filterMap g) := by
  simp [view, after]

theorem view_bind (r : Traced ε α) (next : α → Traced ε β) :
    (r.bind next).view g = (r.view g).bind fun a => (next a).view g := by
  obtain ⟨es, o⟩ := r
  cases o with
  | error d => rfl
  | ok a => exact view_after g es (next a)

theorem view_map (h : α → β) (r : Traced ε α) : (r.map h).view g = (r.view g).map h :=
  view_bind g r _

theorem view_conclude {note : Bool → ε} {note' : Bool → δ} (h : ∀ b, g (note b) = some (note' b))
    (r : Traced ε Bool) : (r.conclude note).view g = (r.view g).conclude note' := by
  rw [conclude, view_bind]
  simp [view, conclude, h]

theorem view_settle (j : Junction) (judge : α → Traced ε Bool) (as : List α) :
    (settle j judge as).view g = settle j (fun a => (judge a).view g) as := by
  induction as with
  | nil => rfl
  | cons a as ih =>
    simp only [settle, view_bind]
    congr 1
    funext b
    split
    · rfl
    · exact ih

/-- Part by part the same view, hence as a whole, though the events may differ in kind. -/
theorem view_settle_congr {ε' : Type} {g : ε → Option δ} {g' : ε' → Option δ} {j : Junction}
    {judge : α → Traced ε Bool} {judge' : α → Traced ε' Bool} {as : List α}
    (h : ∀ a ∈ as, (judge a).view g = (judge' a).view g') :
    (settle j judge as).view g = (settle j judge' as).view g' := by
  rw [view_settle, view_settle]
  exact settle_congr h

end View

end Traced

/-- A formula with the truth value that was found. -/
structure Verdict where
  formula : Formula
  holds : Bool
  deriving DecidableEq, Repr

inductive Event where
  | expanded (e : Expansion)
  | judged (v : Verdict)
  deriving DecidableEq, Repr

/-- The predicates among judged formulas that were found not to hold. -/
def failedQueries (vs : List Verdict) : List Formula :=
  (vs.filter fun v => !v.holds && v.formula.isPredicate).map Verdict.formula

namespace Event

def verdict? : Event → Option Verdict
  | judged v => some v
  | expanded _ => none

def expansion? : Event → Option Expansion
  | judged _ => none
  | expanded e => some e

end Event

abbrev Run := Traced Event

namespace Run

def verdicts {α : Type} (r : Run α) : List Verdict := r.events.filterMap Event.verdict?

def expansions {α : Type} (r : Run α) : List Expansion := r.events.filterMap Event.expansion?

end Run

/-! ## Reports -/

def Verdict.render (v : Verdict) : String :=
  (if v.holds then "✓ " else "❌ ") ++ v.formula.render

namespace Event

inductive Level where
  | trace
  | debug
  deriving DecidableEq, Repr

def Level.render : Level → String
  | .trace => "TRACE"
  | .debug => "DEBUG"

def level : Event → Level
  | expanded _ => .trace
  | judged _ => .debug

def message : Event → String
  | expanded _ => "expanded quantifier"
  | judged v => v.render

/-- The truth value that a verdict carries besides its message. -/
def holds? : Event → Option Bool
  | expanded _ => none
  | judged v => some v.holds

end Event

end PlanLogic
