import PlanLogic.Proofs.Environment

/-!
# PlanLogic.Proofs.Outcome

What formulas come to, without the verdicts on the way. A junction joins the outcomes of its parts:
`Junction.seq` looks at the second outcome only if the first is a value that leaves the junction
open. It is associative with a unit on both sides, so a junction within the same junction can be
spliced, and negation exchanges it with that of the dual junction. None of this asks whether the
outcomes are values or defects.

* `valueIn`: the outcome of a formula under bindings; `valueIn_eq` is its equation.
* `outcome_evaluate`: it is the outcome of evaluation.
* `join_append`, `join_splice`, `not_join`: the laws of joining.
-/

namespace PlanLogic

abbrev Outcome := Except Defect Bool

namespace Outcome

def not (x : Outcome) : Outcome := x.map (!·)

/-- Both outcomes count, whatever the first is. -/
def implies (x y : Outcome) : Outcome := x.bind fun p => y.map fun c => !p || c

@[simp] theorem not_ok (b : Bool) : not (.ok b) = .ok (!b) := rfl

@[simp] theorem not_error (d : Defect) : not (.error d) = .error d := rfl

@[simp] theorem not_not (x : Outcome) : x.not.not = x := by
  cases x <;> simp

theorem eq_error_of_not {x : Outcome} {d : Defect} (h : x.not = .error d) : x = .error d := by
  cases x with
  | error e => exact h
  | ok b => cases h

theorem eq_error_of_implies {x y : Outcome} {d : Defect} (h : x.implies y = .error d) :
    x = .error d ∨ y = .error d := by
  cases x with
  | error e => exact .inl h
  | ok p =>
    cases y with
    | error e => exact .inr h
    | ok c => cases h

end Outcome

namespace Junction

/-- The second outcome counts only if the first does not settle the junction. -/
def seq (j : Junction) (x y : Outcome) : Outcome :=
  match x with
  | .error d => .error d
  | .ok b => if b = j.decisive then .ok b else y

def join (j : Junction) : List Outcome → Outcome
  | [] => .ok (!j.decisive)
  | x :: xs => j.seq x (j.join xs)

theorem seq_unit_left (j : Junction) (x : Outcome) : j.seq (.ok (!j.decisive)) x = x := by
  simp [seq]

theorem seq_unit_right (j : Junction) (x : Outcome) : j.seq x (.ok (!j.decisive)) = x := by
  cases x with
  | error d => rfl
  | ok b =>
    by_cases h : b = j.decisive
    · simp [seq, h]
    · have hb : (!j.decisive) = b := by cases b <;> simp_all
      simp [seq, h, hb]

theorem seq_assoc (j : Junction) (x y z : Outcome) :
    j.seq (j.seq x y) z = j.seq x (j.seq y z) := by
  cases x with
  | error d => rfl
  | ok b => by_cases h : b = j.decisive <;> simp [seq, h]

@[simp] theorem decisive_dual (j : Junction) : j.dual.decisive = !j.decisive := by
  cases j <;> rfl

theorem not_seq (j : Junction) (x y : Outcome) : (j.seq x y).not = j.dual.seq x.not y.not := by
  cases x with
  | error d => rfl
  | ok b => by_cases h : b = j.decisive <;> simp [seq, h]

theorem join_append (j : Junction) (xs ys : List Outcome) :
    j.join (xs ++ ys) = j.seq (j.join xs) (j.join ys) := by
  induction xs with
  | nil => exact (seq_unit_left j _).symm
  | cons x xs ih => rw [List.cons_append, join, join, ih, seq_assoc]

theorem join_singleton (j : Junction) (x : Outcome) : j.join [x] = x :=
  seq_unit_right j x

/-- Outcomes joined in advance may as well be joined in place. -/
theorem join_splice (j : Junction) (xs ys zs : List Outcome) :
    j.join (xs ++ [j.join ys] ++ zs) = j.join (xs ++ ys ++ zs) := by
  simp only [join_append, join_singleton]

theorem not_join (j : Junction) (xs : List Outcome) :
    (j.join xs).not = j.dual.join (xs.map Outcome.not) := by
  induction xs with
  | nil => simp [join]
  | cons x xs ih => rw [join, not_seq, ih, List.map_cons, join]

/-- A defect of a junction is that of a part. -/
theorem error_mem_of_join {j : Junction} {xs : List Outcome} {d : Defect}
    (h : j.join xs = .error d) : .error d ∈ xs := by
  induction xs with
  | nil => cases h
  | cons x xs ih =>
    cases x with
    | error e =>
      cases h
      exact .head _
    | ok b =>
      by_cases hb : b = j.decisive
      · simp [join, seq, hb] at h
      · have hxs : j.join xs = .error d := by simpa [join, seq, hb] using h
        exact .tail _ (ih hxs)

theorem join_open {j : Junction} {xs : List Outcome} (h : ∀ x ∈ xs, x = .ok (!j.decisive)) :
    j.join xs = .ok (!j.decisive) := by
  induction xs with
  | nil => rfl
  | cons x xs ih =>
    rw [join, h x (.head _), seq_unit_left]
    exact ih fun y hy => h y (.tail _ hy)

/-- A defect is found if nothing else settles the junction before. -/
theorem join_eq_error {j : Junction} {xs : List Outcome} {d : Defect} (hd : .error d ∈ xs)
    (h : ∀ x ∈ xs, x = .error d ∨ x = .ok (!j.decisive)) : j.join xs = .error d := by
  induction xs with
  | nil => cases hd
  | cons x xs ih =>
    rcases h x (.head _) with rfl | rfl
    · rfl
    · have hrest : .error d ∈ xs := by simpa using hd
      rw [join, seq_unit_left]
      exact ih hrest fun y hy => h y (.tail _ hy)

/-- What a value of a junction says about its first part. -/
theorem join_cons_eq_ok {j : Junction} {x : Outcome} {xs : List Outcome} {v : Bool}
    (h : j.join (x :: xs) = .ok v) :
    (x = .ok j.decisive ∧ v = j.decisive) ∨ (x = .ok (!j.decisive) ∧ j.join xs = .ok v) := by
  cases x with
  | error d => cases h
  | ok b =>
    by_cases hb : b = j.decisive
    · have hv : j.decisive = v := by simpa [join, seq, hb] using h
      exact .inl ⟨by rw [hb], hv.symm⟩
    · have hv : j.join xs = .ok v := by simpa [join, seq, hb] using h
      have hb' : b = !j.decisive := by cases b <;> simp_all
      exact .inr ⟨by rw [hb'], hv⟩

end Junction

/-! ## Outcomes of runs -/

namespace Traced

variable {ε α β : Type}

theorem outcome_bind (r : Traced ε α) (next : α → Traced ε β) :
    (r.bind next).outcome = r.outcome.bind fun a => (next a).outcome := by
  obtain ⟨es, o⟩ := r
  cases o <;> rfl

theorem outcome_map (g : α → β) (r : Traced ε α) : (r.map g).outcome = r.outcome.map g := by
  obtain ⟨es, o⟩ := r
  cases o <;> rfl

theorem outcome_conclude (note : Bool → ε) (r : Traced ε Bool) :
    (r.conclude note).outcome = r.outcome := by
  obtain ⟨es, o⟩ := r
  cases o <;> rfl

theorem outcome_settle (j : Junction) (judge : α → Traced ε Bool) (as : List α) :
    (settle j judge as).outcome = j.join (as.map fun a => (judge a).outcome) := by
  induction as with
  | nil => rfl
  | cons a as ih =>
    rw [settle, outcome_bind, List.map_cons, Junction.join, ← ih]
    cases (judge a).outcome with
    | error d => rfl
    | ok b => by_cases h : b = j.decisive <;> simp [Except.bind, Junction.seq, pure, h]

end Traced

/-- What `f` comes to under bindings. -/
def valueIn (w : World) (ρ : Scopes) (f : Formula) : Outcome := (evaluateIn w ρ f).outcome

theorem outcome_evaluate_close (w : World) (ρ : Scopes) (f : Formula) :
    (evaluate w (f.close ρ)).outcome = valueIn w ρ f :=
  congrArg Traced.outcome (view_evaluate_close w ρ f)

theorem outcome_evaluate (w : World) (f : Formula) : (evaluate w f).outcome = valueIn w [] f :=
  outcome_evaluate_close w [] f

theorem valueIn_close (w : World) (ρ : Scopes) (f : Formula) :
    valueIn w [] (f.close ρ) = valueIn w ρ f := by
  rw [← outcome_evaluate, outcome_evaluate_close]

theorem valueIn_eq (w : World) (ρ : Scopes) (f : Formula) :
    valueIn w ρ f =
      match f.shape with
      | .error d => .error d
      | .ok .atom => .ok (w.holds ⟨f.word, f.args.map (Scopes.rewrite ρ)⟩)
      | .ok (.negation body) => (valueIn w ρ body).not
      | .ok (.junction j parts) => j.join (parts.map (valueIn w ρ))
      | .ok (.conditional premise conclusion) =>
        (valueIn w ρ premise).implies (valueIn w ρ conclusion)
      | .ok (.quantified j declaration body) =>
        match declaration.parameter with
        | .error d => .error d
        | .ok p =>
          j.join ((w.namesOf p.type).map fun name => valueIn w (ρ ++ [⟨p.name, name⟩]) body) := by
  rw [valueIn, evaluateIn_eq, Traced.outcome_conclude]
  cases f.shape with
  | error d => rfl
  | ok s =>
    cases s with
    | atom => rfl
    | negation body => exact Traced.outcome_map _ _
    | junction j parts => exact Traced.outcome_settle _ _ _
    | conditional premise conclusion =>
      simp only [Traced.outcome_bind, Traced.outcome_map]
      rfl
    | quantified j declaration body =>
      simp only
      cases declaration.parameter with
      | error d => rfl
      | ok p => exact Traced.outcome_settle _ _ _

section Equations

variable (w : World) (ρ : Scopes)

theorem valueIn_not (f : Formula) : valueIn w ρ (.not f) = (valueIn w ρ f).not := by
  rw [valueIn_eq, Formula.shape_eq_negation_iff.2 rfl]

theorem valueIn_junction (j : Junction) (fs : List Formula) :
    valueIn w ρ (.apply j.connective fs) = j.join (fs.map (valueIn w ρ)) := by
  rw [valueIn_eq, Formula.shape_eq_junction_iff.2 rfl]

theorem valueIn_imply (f g : Formula) :
    valueIn w ρ (.imply f g) = (valueIn w ρ f).implies (valueIn w ρ g) := by
  rw [valueIn_eq, Formula.shape_eq_conditional_iff.2 (.inl rfl)]

theorem valueIn_when (f g : Formula) :
    valueIn w ρ (.when f g) = (valueIn w ρ f).implies (valueIn w ρ g) := by
  rw [valueIn_eq, Formula.shape_eq_conditional_iff.2 (.inr rfl)]

theorem valueIn_quantifier (j : Junction) (declaration body : Formula) :
    valueIn w ρ (.apply j.quantifier [declaration, body]) =
      match declaration.parameter with
      | .error d => .error d
      | .ok p =>
        j.join ((w.namesOf p.type).map fun name => valueIn w (ρ ++ [⟨p.name, name⟩]) body) := by
  rw [valueIn_eq, Formula.shape_eq_quantified_iff.2 rfl]

theorem valueIn_of_shape_error {f : Formula} {d : Defect} (h : f.shape = .error d) :
    valueIn w ρ f = .error d := by
  rw [valueIn_eq, h]

end Equations

end PlanLogic
