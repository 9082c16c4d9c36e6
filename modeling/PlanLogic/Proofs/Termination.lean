import PlanLogic.Proofs.Components
import PlanLogic.Proofs.Footprint

/-!
# PlanLogic.Proofs.Termination

Why evaluation ends. From a quantifier it does not go down to the body but on to copies of it that
were just made, so it takes a measure that substitution does not let grow: the number of nodes.
Substitution replaces the arguments of predicates, and leaves everything above them where it is.

* `Formula.substitutedAt`: the formula at a position that substitution comes to, given by the way to
  it. Substitution keeps all these positions (`substitutedAt_subst`) and what the formulas there
  look like at their roots (`sameRoot_subst`).
* `size_lt_of_mem_expand`: copies are smaller than what is expanded.
* `evaluateWith`: one level of evaluation, where other formulas are left to someone else to judge.
* `Consults`: the formulas whose judgement makes a difference there. They are the components, no
  fewer and no more (`consults_iff`), so there is no endless way from one to the next
  (`wellFounded_consults`).
* `evaluateTo`: evaluation down to a certain depth. If that is the size of the formula, nothing is
  asked for below (`evaluateTo_eq`).
-/

namespace PlanLogic

namespace Formula

/-! ## Positions of substitution -/

theorem substituted_subst (σ : Assignment) (f : Formula) :
    (f.subst σ).substituted = f.substituted.map (subst σ) := by
  unfold substituted
  rw [node_subst]
  cases h : f.node with
  | empty => rfl
  | predicate name => rfl
  | operator op =>
    simp only [args_subst_of_operator σ h]
    cases op.isQuantifier <;> cases f.args <;> simp

/-- The formula to which a path leads; each step is an index among the children that substitution
goes on to. -/
def substitutedAt : Formula → List Nat → Option Formula
  | f, [] => some f
  | f, i :: path =>
    match f.substituted[i]? with
    | some a => a.substitutedAt path
    | none => none

theorem substitutedAt_subst (σ : Assignment) (path : List Nat) (f : Formula) :
    (f.subst σ).substitutedAt path = (f.substitutedAt path).map (subst σ) := by
  induction path generalizing f with
  | nil => rfl
  | cons i path ih =>
    simp only [substitutedAt, substituted_subst, List.getElem?_map]
    cases f.substituted[i]? with
    | none => rfl
    | some a => exact ih a

/-- The same word over the same number of children, and the same declaration, if the word is that of
a quantifier. -/
structure SameRoot (f g : Formula) : Prop where
  word : f.word = g.word
  count : f.args.length = g.args.length
  declaration : ∀ op, f.node = .operator op → op.isQuantifier = true → f.args.head? = g.args.head?

theorem length_args_subst (σ : Assignment) (f : Formula) :
    (f.subst σ).args.length = f.args.length := by
  obtain ⟨w, args⟩ := f
  rw [subst_mk]
  cases Operator.ofWord? w with
  | none => exact List.length_map _
  | some op => cases args <;> cases hq : op.isQuantifier <;> simp [hq]

theorem head?_args_subst (σ : Assignment) {f : Formula} {op : Operator}
    (hn : f.node = .operator op) (hq : op.isQuantifier = true) :
    (f.subst σ).args.head? = f.args.head? := by
  rw [args_subst_of_operator σ hn, if_pos hq]
  cases f.args <;> rfl

theorem sameRoot_subst (σ : Assignment) (f : Formula) : SameRoot f (f.subst σ) where
  word := (word_subst σ f).symm
  count := (length_args_subst σ f).symm
  declaration _ hn hq := (head?_args_subst σ hn hq).symm

theorem sameRoot_substitutedAt (σ : Assignment) (f : Formula) (path : List Nat) :
    Option.Rel SameRoot (f.substitutedAt path) ((f.subst σ).substitutedAt path) := by
  rw [substitutedAt_subst]
  cases f.substitutedAt path with
  | none => exact .none
  | some n => exact .some (sameRoot_subst σ n)

/-! ## Copies -/

/-- Whatever operator the formula is read as an application of. -/
theorem size_lt_of_mem_expand {op : Operator} {f c : Formula} {objects : List Object}
    {e : Expansion} (he : f.expand op objects = .ok e) (hc : c ∈ e.copies) : c.size < f.size := by
  unfold expand at he
  split at he
  · rename_i declaration body rest _ hargs
    have hbody : body ∈ f.args := hargs ▸ .tail _ (.head _)
    exact Nat.lt_of_le_of_lt (Expansion.size_le_of_mem_copies he hc) (size_lt_of_mem hbody)
  · cases he

end Formula

/-! ## One level of evaluation -/

section

variable {w : World} {f a : Formula} {judge judge' : Formula → Run Bool}

/-- The evaluation of `f`, with `judge` for every formula that it turns to. -/
def evaluateWith (w : World) (judge : Formula → Run Bool) (f : Formula) : Run Bool :=
  (evaluateParts w judge f).conclude fun b => .judged ⟨f, b⟩

theorem evaluateWith_evaluate (w : World) (f : Formula) :
    evaluateWith w (evaluate w) f = evaluate w f :=
  (evaluate_eq w f).symm

theorem evaluateWith_congr (h : ∀ a ∈ components w f, judge a = judge' a) :
    evaluateWith w judge f = evaluateWith w judge' f := by
  rw [evaluateWith, evaluateWith, evaluateParts_congr h]

/-- How `a` is judged makes a difference to the evaluation of `f`. -/
def Consults (w : World) (f a : Formula) : Prop :=
  ∃ judge judge' : Formula → Run Bool,
    (∀ b, b ≠ a → judge b = judge' b) ∧ evaluateWith w judge f ≠ evaluateWith w judge' f

theorem mem_components_of_consults (h : Consults w f a) : a ∈ components w f := by
  obtain ⟨judge, judge', hother, hne⟩ := h
  by_contra ha
  refine hne (evaluateWith_congr fun b hb => hother b ?_)
  rintro rfl
  exact ha hb

theorem outcome_evaluateWith (w : World) (judge : Formula → Run Bool) (f : Formula) :
    (evaluateWith w judge f).outcome =
      match f.shape with
      | .error d => .error d
      | .ok .atom => .ok (w.holds f)
      | .ok (.negation body) => Outcome.not (judge body).outcome
      | .ok (.junction j parts) => j.join (parts.map fun a => (judge a).outcome)
      | .ok (.conditional premise conclusion) =>
        Outcome.implies (judge premise).outcome (judge conclusion).outcome
      | .ok (.quantified j declaration body) =>
        match Expansion.ofBody j.quantifier declaration body w.objects with
        | .error d => .error d
        | .ok e => j.join (e.copies.map fun a => (judge a).outcome) := by
  rw [evaluateWith, Traced.outcome_conclude, evaluateParts]
  cases f.shape with
  | error d => rfl
  | ok s =>
    cases s with
    | atom => rfl
    | negation body => exact Traced.outcome_map _ _
    | junction j parts => exact Traced.outcome_settle _ _ _
    | conditional premise conclusion =>
      simp only [Traced.outcome_bind, Traced.outcome_map]
      rfl
    | quantified j declaration body =>
      simp only
      cases Expansion.ofBody j.quantifier declaration body w.objects with
      | error d => rfl
      | ok e => exact Traced.outcome_settle _ _ _

/-- A judge who finds a defect in `a`, and the value `v` everywhere else. -/
def refusing (a : Formula) (v : Bool) : Formula → Run Bool := fun b =>
  if b = a then .fail .emptyWord else .pure v

theorem outcome_refusing (a b : Formula) (v : Bool) :
    (refusing a v b).outcome = if b = a then .error .emptyWord else .ok v := by
  unfold refusing
  split <;> rfl

/-- If `f` has a value as long as everything has the value `v`, and has none any more once `a` has a
defect, then someone has asked for `a`. -/
theorem consults_of_refusing {v b : Bool}
    (hvalue : (evaluateWith w (fun _ => .pure v) f).outcome = .ok b)
    (hdefect : (evaluateWith w (refusing a v) f).outcome = .error .emptyWord) : Consults w f a := by
  refine ⟨fun _ => .pure v, refusing a v, fun b hb => (if_neg hb).symm, fun heq => ?_⟩
  rw [heq, hdefect] at hvalue
  cases hvalue

theorem consults_of_join {j : Junction} {as : List Formula} (ha : a ∈ as)
    (hjoin : ∀ judge, (evaluateWith w judge f).outcome =
      j.join (as.map fun b => (judge b).outcome)) : Consults w f a := by
  have hvalue : j.join (as.map fun _ => .ok (!j.decisive)) = .ok (!j.decisive) := by
    refine Junction.join_open fun x hx => ?_
    obtain ⟨b, -, rfl⟩ := List.mem_map.1 hx
    rfl
  have hdefect : j.join (as.map fun b => (refusing a (!j.decisive) b).outcome) =
      .error .emptyWord := by
    refine Junction.join_eq_error (List.mem_map.2 ⟨a, ha, ?_⟩) fun x hx => ?_
    · rw [outcome_refusing, if_pos rfl]
    · obtain ⟨b, -, rfl⟩ := List.mem_map.1 hx
      rw [outcome_refusing]
      split
      · exact .inl rfl
      · exact .inr rfl
  exact consults_of_refusing ((hjoin _).trans hvalue) ((hjoin _).trans hdefect)

theorem consults_of_mem_components (ha : a ∈ components w f) : Consults w f a := by
  have houtcome := fun judge => outcome_evaluateWith w judge f
  unfold components at ha
  cases hs : f.shape with
  | error d =>
    rw [hs] at ha
    cases ha
  | ok s =>
    simp only [hs] at ha houtcome
    cases s with
    | atom => cases ha
    | negation body =>
      have hbody : body = a := (List.mem_singleton.1 ha).symm
      have hdefect : Outcome.not (refusing a true body).outcome = .error .emptyWord := by
        rw [outcome_refusing, if_pos hbody, Outcome.not_error]
      exact consults_of_refusing (houtcome _) ((houtcome _).trans hdefect)
    | junction j parts => exact consults_of_join ha houtcome
    | conditional premise conclusion =>
      -- the conclusion is asked for whatever the premise comes to, short of a defect
      have hpart : a = premise ∨ a = conclusion := by simpa [Formula.Shape.parts] using ha
      have hdefect : Outcome.implies (refusing a true premise).outcome
          (refusing a true conclusion).outcome = .error .emptyWord := by
        rw [outcome_refusing, outcome_refusing]
        by_cases hpremise : premise = a
        · rw [if_pos hpremise]
          rfl
        · have hconclusion := hpart.resolve_left (Ne.symm hpremise)
          rw [if_neg hpremise, if_pos hconclusion.symm]
          rfl
      exact consults_of_refusing (houtcome _) ((houtcome _).trans hdefect)
    | quantified j declaration body =>
      cases he : Expansion.ofBody j.quantifier declaration body w.objects with
      | error d => simp [he] at ha
      | ok e =>
        simp only [he] at ha houtcome
        exact consults_of_join ha houtcome

theorem consults_iff : Consults w f a ↔ a ∈ components w f :=
  ⟨mem_components_of_consults, consults_of_mem_components⟩

/-- What a quantifier turns to are its copies. -/
theorem consults_quantifier_iff {j : Junction} {e : Expansion}
    (hn : f.node = .operator j.quantifier) (he : f.expand j.quantifier w.objects = .ok e) :
    Consults w f a ↔ a ∈ e.copies := by
  obtain ⟨declaration, body, hargs, hbody⟩ := Formula.expand_eq_ok_iff.1 he
  have hf : f = .apply j.quantifier [declaration, body] := by
    rw [← hargs]
    exact Formula.eq_apply_of_node hn
  rw [consults_iff, components, Formula.shape_eq_quantified_iff.2 hf]
  simp only [hbody]

/-- There is no endless way from a formula to one that it consults and on from there, even if each
step is made over another universe. -/
theorem wellFounded_consults : WellFounded fun a f => ∃ w, Consults w f a := by
  refine Subrelation.wf ?_ (measure Formula.size).wf
  rintro a f ⟨w, h⟩
  exact size_lt_of_mem_components (consults_iff.1 h)

/-- Evaluation down to the depth `n`. What is asked for below is answered by `beyond`. -/
def evaluateTo (w : World) (beyond : Formula → Run Bool) : Nat → Formula → Run Bool
  | 0 => beyond
  | n + 1 => evaluateWith w (evaluateTo w beyond n)

theorem evaluateTo_eq (w : World) (beyond : Formula → Run Bool) {n : Nat} {f : Formula}
    (hn : f.size ≤ n) : evaluateTo w beyond n f = evaluate w f := by
  induction n generalizing f with
  | zero =>
    have := f.size_pos
    omega
  | succ n ih =>
    rw [evaluateTo, ← evaluateWith_evaluate w f]
    -- components are smaller than `f`, so one level less is enough for them
    refine evaluateWith_congr fun a ha => ih ?_
    have := size_lt_of_mem_components ha
    omega

end

open Formula

/-- At every position that substitution comes to, it keeps the word, the number of children and a
quantifier's declaration. There are no new positions, and in all not more nodes than before. So a
copy is smaller than what is expanded, whatever operator that is read as an application of. What a
quantifier consults are its copies, and there is no endless way from a formula to one that it
consults and on from there: evaluation is over at a depth that is bounded by the size of the
formula, whatever the world. -/
theorem skeleton_kept_and_recursion_ends :
    (∀ (σ : Assignment) (f : Formula),
      (∀ path, Option.Rel SameRoot (f.substitutedAt path) ((f.subst σ).substitutedAt path)) ∧
        (f.subst σ).size ≤ f.size) ∧
      (∀ (op : Operator) (f : Formula) (objects : List Object) (e : Expansion),
        f.expand op objects = .ok e → ∀ c ∈ e.copies, c.size < f.size) ∧
      (∀ (w : World) (j : Junction) (f : Formula) (e : Expansion),
        f.node = .operator j.quantifier → f.expand j.quantifier w.objects = .ok e →
          ∀ a, Consults w f a ↔ a ∈ e.copies) ∧
      (WellFounded fun a f => ∃ w, Consults w f a) ∧
      ∀ (w : World) (beyond : Formula → Run Bool) (f : Formula) (n : Nat),
        f.size ≤ n → evaluateTo w beyond n f = evaluate w f :=
  ⟨fun σ f => ⟨sameRoot_substitutedAt σ f, size_subst_le σ f⟩,
    fun _ _ _ _ he _ hc => size_lt_of_mem_expand he hc,
    fun _ _ _ _ hn he _ => consults_quantifier_iff hn he, wellFounded_consults,
    fun w beyond _ _ hn => evaluateTo_eq w beyond hn⟩

/-- In the body stands a quantifier of three children that declares the outer parameter again. In
the copies it stands at the same place, with the same declaration. An argument with a child of its
own has become a leaf, so a copy is smaller even than the body. At the depth of twelve, the size of
the whole, only defects would be found, but nothing is asked for there. -/
theorem skeleton_kept_and_recursion_ends_rooms :
    let inner := fun x => Formula.apply .forSome
      [.leaf "?x - room", .predicate "at" [x, "hall"], .leaf "rain"]
    let body := Formula.or [⟨"near", [⟨"?x", [.leaf "old"]⟩]⟩, inner "?x"]
    let copy := fun x => Formula.or [.predicate "near" [x], inner x]
    let f := Formula.forAll "?x - person" body
    let objects : List Object := [⟨"ann", "person"⟩, ⟨"hall", "room"⟩, ⟨"bob", "person"⟩]
    let σ := Assignment.single ⟨"?x", "person"⟩ ⟨"ann", "person"⟩
    let e : Expansion := ⟨.forAll, "?x - person", 3, [copy "ann", copy "bob"]⟩
    let w := World.of .list objects [⟨.predicate "near" ["ann"]⟩, ⟨.predicate "near" ["bob"]⟩]
    body.substitutedAt [1] = some (inner "?x") ∧
      (body.subst σ).substitutedAt [1] = some (inner "ann") ∧ SameRoot (inner "?x") (inner "ann") ∧
      (body.subst σ).size = 9 ∧ body.size = 10 ∧ (body.subst σ).size ≤ body.size ∧
      f.expand .forAll objects = .ok e ∧ (∀ c ∈ e.copies, c.size < f.size) ∧
      f.node = .operator .forAll ∧ (∀ a, Consults w f a ↔ a ∈ [copy "ann", copy "bob"]) ∧
      f.size ≤ 12 ∧ evaluateTo w (fun _ => .fail .emptyWord) 12 f = evaluate w f ∧
      (evaluate w f).outcome = .ok true := by
  intro inner body copy f objects σ e w
  have hinner : body.substitutedAt [1] = some (inner "?x") := by decide +kernel
  have hinner' : (body.subst σ).substitutedAt [1] = some (inner "ann") := by decide +kernel
  have he : f.expand .forAll objects = .ok e := by decide +kernel
  have hsize : f.size ≤ 12 := by decide +kernel
  obtain ⟨hskeleton, hcopies, hconsults, -, hdepth⟩ := skeleton_kept_and_recursion_ends
  obtain ⟨hroots, hsmaller⟩ := hskeleton σ body
  have hroot := hroots [1]
  rw [hinner, hinner'] at hroot
  cases hroot with
  | some hroot =>
    exact ⟨hinner, hinner', hroot, by decide +kernel, by decide +kernel, hsmaller, he,
      hcopies .forAll f objects e he, node_apply _ _, hconsults w .all f e (node_apply _ _) he,
      hsize, hdepth w _ f 12 hsize, by decide +kernel⟩

end PlanLogic
