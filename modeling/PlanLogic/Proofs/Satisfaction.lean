import PlanLogic.Proofs.Outcome

/-!
# PlanLogic.Proofs.Satisfaction

Truth without an order of evaluation. An interpretation says which names each type has and which
ground formulas are known; a formula is satisfied or not, and nothing is visited first or last. A
formula with a defect at its root is not satisfied, so every formula has a truth value, reached by
evaluation or not.

* `Interpretation.Satisfies`: satisfaction under bindings, for either reading of arguments.
* `World.interpretation`, `Interpretation.of`: what a world says, and what lists of objects and
  facts say. Order and repetition are gone.
* `eq_ok_iff_satisfies`: a run that ends in a value has found whether the formula is satisfied.
-/

namespace PlanLogic

/-- `all` asks for the property of everything among some things, `any` of something among them. -/
def Junction.Joins {α : Type} (j : Junction) (among property : α → Prop) : Prop :=
  match j with
  | all => ∀ a, among a → property a
  | any => ∃ a, among a ∧ property a

structure Interpretation where
  /-- Which names have a type. -/
  domain : String → String → Prop
  /-- Which formulas without parameters hold. -/
  known : Formula → Prop

namespace Interpretation

def of (objects : List Object) (facts : List Fact) : Interpretation where
  domain type name := ⟨name, type⟩ ∈ objects
  known f := ⟨f⟩ ∈ facts

/-- Satisfaction of `f` in `M`, where `read` reads arguments of predicates in the bindings `ρ`. -/
def Satisfies (M : Interpretation) (read : Scopes → Formula → Formula) (ρ : Scopes)
    (f : Formula) : Prop :=
  match _h : f.shape with
  | .error _ => False
  | .ok .atom => M.known ⟨f.word, f.args.map (read ρ)⟩
  | .ok (.negation body) => ¬ Satisfies M read ρ body
  | .ok (.junction j parts) =>
    j.Joins (fun _ => True) fun a : { a // a ∈ parts } => Satisfies M read ρ a.1
  | .ok (.conditional premise conclusion) =>
    Satisfies M read ρ premise → Satisfies M read ρ conclusion
  | .ok (.quantified j declaration body) =>
    match declaration.parameter with
    | .error _ => False
    | .ok p =>
      j.Joins (M.domain p.type) fun name => Satisfies M read (ρ ++ [⟨p.name, name⟩]) body
termination_by f.size
decreasing_by
  · exact Formula.size_lt_of_mem_parts _h (List.mem_singleton.2 rfl)
  · exact Formula.size_lt_of_mem_parts _h a.2
  · exact Formula.size_lt_of_mem_parts _h (.head _)
  · exact Formula.size_lt_of_mem_parts _h (.tail _ (.head _))
  · exact Formula.size_lt_of_mem_parts _h (List.mem_singleton.2 rfl)

end Interpretation

namespace Junction

theorem joins_subtype {α : Type} (j : Junction) (as : List α) (property : α → Prop) :
    j.Joins (fun _ => True) (fun a : { a // a ∈ as } => property a.1) ↔
      j.Joins (· ∈ as) property := by
  cases j <;> simp [Joins]

theorem joins_congr {α : Type} (j : Junction) {among property property' : α → Prop}
    (h : ∀ a, among a → (property a ↔ property' a)) :
    j.Joins among property ↔ j.Joins among property' := by
  cases j with
  | all => exact forall_congr' fun a => imp_congr_right fun ha => h a ha
  | any => exact exists_congr fun a => and_congr_right fun ha => h a ha

/-- Each thing on either side has a counterpart on the other with the same property. -/
theorem joins_iff_of_correspond {α : Type} (j : Junction) {among among' p : α → Prop}
    (h : ∀ a, among a → ∃ b, among' b ∧ (p a ↔ p b))
    (h' : ∀ b, among' b → ∃ a, among a ∧ (p b ↔ p a)) :
    j.Joins among p ↔ j.Joins among' p := by
  cases j with
  | all =>
    constructor
    · intro hall b hb
      obtain ⟨a, ha, hp⟩ := h' b hb
      exact hp.2 (hall a ha)
    · intro hall a ha
      obtain ⟨b, hb, hp⟩ := h a ha
      exact hp.2 (hall b hb)
  | any =>
    constructor
    · rintro ⟨a, ha, hpa⟩
      obtain ⟨b, hb, hp⟩ := h a ha
      exact ⟨b, hb, hp.1 hpa⟩
    · rintro ⟨b, hb, hpb⟩
      obtain ⟨a, ha, hp⟩ := h' b hb
      exact ⟨a, ha, hp.1 hpb⟩

end Junction

namespace Interpretation

variable (M : Interpretation) (read : Scopes → Formula → Formula) (ρ : Scopes)

theorem satisfies_eq (f : Formula) :
    M.Satisfies read ρ f =
      match f.shape with
      | .error _ => False
      | .ok .atom => M.known ⟨f.word, f.args.map (read ρ)⟩
      | .ok (.negation body) => ¬ M.Satisfies read ρ body
      | .ok (.junction j parts) => j.Joins (· ∈ parts) (M.Satisfies read ρ)
      | .ok (.conditional premise conclusion) =>
        M.Satisfies read ρ premise → M.Satisfies read ρ conclusion
      | .ok (.quantified j declaration body) =>
        match declaration.parameter with
        | .error _ => False
        | .ok p =>
          j.Joins (M.domain p.type) fun name => M.Satisfies read (ρ ++ [⟨p.name, name⟩]) body := by
  rw [Satisfies]
  split <;> simp only [Junction.joins_subtype, *]

theorem satisfies_not (f : Formula) :
    M.Satisfies read ρ (.not f) ↔ ¬ M.Satisfies read ρ f := by
  rw [satisfies_eq, Formula.shape_eq_negation_iff.2 rfl]

theorem satisfies_junction (j : Junction) (fs : List Formula) :
    M.Satisfies read ρ (.apply j.connective fs) ↔ j.Joins (· ∈ fs) (M.Satisfies read ρ) := by
  rw [satisfies_eq, Formula.shape_eq_junction_iff.2 rfl]

theorem satisfies_imply (f g : Formula) :
    M.Satisfies read ρ (.imply f g) ↔ (M.Satisfies read ρ f → M.Satisfies read ρ g) := by
  rw [satisfies_eq, Formula.shape_eq_conditional_iff.2 (.inl rfl)]

theorem satisfies_when (f g : Formula) :
    M.Satisfies read ρ (.when f g) ↔ (M.Satisfies read ρ f → M.Satisfies read ρ g) := by
  rw [satisfies_eq, Formula.shape_eq_conditional_iff.2 (.inr rfl)]

theorem satisfies_quantifier (j : Junction) (declaration body : Formula) :
    M.Satisfies read ρ (.apply j.quantifier [declaration, body]) ↔
      match declaration.parameter with
      | .error _ => False
      | .ok p =>
        j.Joins (M.domain p.type) fun name => M.Satisfies read (ρ ++ [⟨p.name, name⟩]) body := by
  rw [satisfies_eq, Formula.shape_eq_quantified_iff.2 rfl]

end Interpretation

/-! ## Worlds as interpretations -/

def World.interpretation (w : World) : Interpretation where
  domain type name := ⟨name, type⟩ ∈ w.objects
  known f := w.holds f = true

theorem interpretation_of (c : Container) (objects : List Object) (facts : List Fact) :
    (World.of c objects facts).interpretation = .of objects facts := by
  have hknown : (fun f => (World.of c objects facts).holds f = true) = fun f => ⟨f⟩ ∈ facts :=
    funext fun f => propext World.holds_of_iff
  simp only [World.interpretation, Interpretation.of, World.objects_of, hknown]

theorem Interpretation.of_congr {objects objects' : List Object} {facts facts' : List Fact}
    (ho : ∀ o, o ∈ objects ↔ o ∈ objects') (hf : ∀ f, f ∈ facts ↔ f ∈ facts') :
    Interpretation.of objects facts = .of objects' facts' := by
  simp only [Interpretation.of, ho, hf]

/-! ## Values are truth values -/

theorem Junction.joins_cons_of_decisive {α : Type} {j : Junction} {a : α} {as : List α}
    {property : α → Prop} (h : property a ↔ j.decisive = true) :
    j.Joins (· ∈ a :: as) property ↔ j.decisive = true := by
  cases j <;> simp_all [Joins, decisive]

theorem Junction.joins_cons_of_open {α : Type} {j : Junction} {a : α} {as : List α}
    {property : α → Prop} (h : property a ↔ (!j.decisive) = true) :
    j.Joins (· ∈ a :: as) property ↔ j.Joins (· ∈ as) property := by
  cases j <;> simp_all [Joins, decisive]

/-- The part that settles a junction decides it, whatever the parts past it are, defective ones
included. -/
theorem Junction.eq_ok_iff_joins {α : Type} {j : Junction} {value : α → Outcome}
    {property : α → Prop} {as : List α} {v : Bool}
    (h : ∀ a ∈ as, ∀ b, value a = .ok b → (b = true ↔ property a))
    (hv : j.join (as.map value) = .ok v) : v = true ↔ j.Joins (· ∈ as) property := by
  induction as with
  | nil =>
    cases hv
    cases j <;> simp [Joins, decisive]
  | cons a as ih =>
    have ha := h a (.head _)
    rcases join_cons_eq_ok hv with ⟨hd, rfl⟩ | ⟨ho, hv'⟩
    · exact (joins_cons_of_decisive (ha _ hd).symm).symm
    · rw [joins_cons_of_open (ha _ ho).symm]
      exact ih (fun b hb => h b (.tail _ hb)) hv'

theorem eq_ok_iff_satisfies {w : World} (f : Formula) :
    ∀ {ρ v}, valueIn w ρ f = .ok v →
      (v = true ↔ w.interpretation.Satisfies Scopes.rewrite ρ f) := by
  induction f using Formula.induct_parts with
  | step f ih =>
    intro ρ v hv
    rw [valueIn_eq] at hv
    rw [Interpretation.satisfies_eq]
    cases hs : f.shape with
    | error d =>
      rw [hs] at hv
      cases hv
    | ok s =>
      have ih := ih s hs
      rw [hs] at hv
      cases s with
      | atom =>
        cases hv
        rfl
      | negation body =>
        cases hb : valueIn w ρ body with
        | error d => simp [hb] at hv
        | ok b =>
          have h := ih body (.head _) hb
          simp only [hb, Outcome.not_ok, Except.ok.injEq] at hv
          simp [← h, ← hv]
      | junction j parts =>
        exact Junction.eq_ok_iff_joins (fun a ha b hb => ih a ha hb) hv
      | conditional premise conclusion =>
        cases hp : valueIn w ρ premise with
        | error d => simp [hp, Outcome.implies, Except.bind] at hv
        | ok p =>
          cases hc : valueIn w ρ conclusion with
          | error d => simp [hp, hc, Outcome.implies, Except.bind, Except.map] at hv
          | ok c =>
            have h := ih premise (.head _) hp
            have h' := ih conclusion (.tail _ (.head _)) hc
            simp [hp, hc, Outcome.implies, Except.bind, Except.map] at hv
            simp only [← h, ← h', ← hv]
            cases p <;> cases c <;> simp
      | quantified j declaration body =>
        simp only at hv ⊢
        cases hd : declaration.parameter with
        | error d =>
          rw [hd] at hv
          cases hv
        | ok p =>
          rw [hd] at hv
          have h := Junction.eq_ok_iff_joins (fun name _ b hb => ih body (.head _) hb) hv
          simp only [mem_namesOf] at h
          exact h

end PlanLogic
