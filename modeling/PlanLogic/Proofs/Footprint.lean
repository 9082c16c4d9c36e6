import Mathlib.Data.List.Basic
import PlanLogic.Bindings
import PlanLogic.Proofs.Tokens

/-!
# PlanLogic.Proofs.Footprint

What substitution looks at. It goes through operators, past declarations, and stops at predicates
and at formulas with the empty word; of these it reads the words of the arguments, and nothing below
them. These arguments are the tokens of a formula. What an assignment does to other words does not
matter, and the formula stays as it is iff every one of its tokens does.

* `Formula.substitutionPositions`: the formulas that substitution comes to, whatever the numbers of
  their children.
* `Formula.tokens`: the arguments that it reads there.
* `mapTokens_eq_iff`: two changes of arguments come to the same iff they do so on every token.
* `subst_eq_of_tokens`: which assignments come to the same, and which come to nothing.
-/

namespace PlanLogic

namespace Formula

/-- The children that substitution goes on to, of which a declaration is none. -/
def substituted (f : Formula) : List Formula :=
  match f.node with
  | .operator op => if op.isQuantifier then f.args.drop 1 else f.args
  | _ => []

theorem mem_args_of_mem_substituted {a f : Formula} (h : a ∈ f.substituted) : a ∈ f.args := by
  unfold substituted at h
  split at h
  · split at h
    · exact List.mem_of_mem_drop h
    · exact h
  · cases h

def substitutionPositions (f : Formula) : List Formula :=
  f :: f.substituted.attach.flatMap fun a => substitutionPositions a.1
termination_by f.size
decreasing_by exact size_lt_of_mem (mem_args_of_mem_substituted a.2)

theorem substitutionPositions_eq (f : Formula) :
    f.substitutionPositions = f :: f.substituted.flatMap substitutionPositions := by
  rw [substitutionPositions]
  simp only [List.flatMap_subtype, List.unattach_attach]

/-- The arguments of a predicate, or of a formula with the empty word. -/
def arguments (f : Formula) : List Formula :=
  match f.node with
  | .operator _ => []
  | _ => f.args

def tokens (f : Formula) : List Formula := f.substitutionPositions.flatMap arguments

theorem tokens_eq (f : Formula) : f.tokens = f.arguments ++ f.substituted.flatMap tokens := by
  rw [tokens, substitutionPositions_eq, List.flatMap_cons, List.flatMap_assoc]
  rfl

/-- Either all children are tokens, or the tokens are those of the children in question. -/
theorem tokens_mk (w : String) (args : List Formula) :
    tokens ⟨w, args⟩ =
      match Operator.ofWord? w with
      | none => args
      | some op => (if op.isQuantifier then args.drop 1 else args).flatMap tokens := by
  have hnode : ∀ op, (Formula.mk w args).node = .operator op ↔ Operator.ofWord? w = some op := by
    intro op
    rw [node_eq_operator_iff, Operator.ofWord?_eq_some_iff, eq_comm]
  rw [tokens_eq]
  unfold arguments substituted
  cases hw : Operator.ofWord? w with
  | some op => simp [(hnode op).2 hw]
  | none =>
    cases hn : (Formula.mk w args).node with
    | operator op => simp [(hnode op).1 hn] at hw
    | empty => simp
    | predicate name => simp

theorem map_mapTokens_eq_iff {g h : Formula → Formula} {fs : List Formula}
    (hfs : ∀ b ∈ fs, b.mapTokens g = b.mapTokens h ↔ ∀ a ∈ b.tokens, g a = h a) :
    fs.map (mapTokens g) = fs.map (mapTokens h) ↔ ∀ a ∈ fs.flatMap tokens, g a = h a := by
  rw [List.map_inj_left]
  constructor
  · intro hmap a ha
    obtain ⟨b, hb, hab⟩ := List.mem_flatMap.1 ha
    exact (hfs b hb).1 (hmap b hb) a hab
  · intro htokens b hb
    exact (hfs b hb).2 fun a ha => htokens a (List.mem_flatMap.2 ⟨b, hb, ha⟩)

theorem mapTokens_eq_iff (g h : Formula → Formula) (f : Formula) :
    f.mapTokens g = f.mapTokens h ↔ ∀ a ∈ f.tokens, g a = h a := by
  induction f using induct with
  | step w args ih =>
    rw [mapTokens_mk, mapTokens_mk, tokens_mk, mk.injEq, eq_self, true_and]
    cases Operator.ofWord? w with
    | none => exact List.map_inj_left
    | some op =>
      simp only
      split
      · rw [List.append_cancel_left_eq]
        exact map_mapTokens_eq_iff fun b hb => ih b (List.mem_of_mem_drop hb)
      · exact map_mapTokens_eq_iff ih

/-- Nothing changes iff no token does. -/
theorem mapTokens_eq_self_iff (g : Formula → Formula) (f : Formula) :
    f.mapTokens g = f ↔ ∀ a ∈ f.tokens, g a = a := by
  have h := mapTokens_eq_iff g id f
  rwa [mapTokens_id] at h

/-! ## Assignments -/

theorem substToken_eq_self_iff {σ : Assignment} {a : Formula} :
    a.substToken σ = a ↔ ∀ o ∈ σ a.word, a = .leaf o.name := by
  unfold substToken
  cases σ a.word with
  | none => simp
  | some o => simp [Object.toFormula, eq_comm]

/-- Substitution depends on nothing but the names of the images of tokens: not on what an assignment
does to other words, and not on types. It changes nothing iff each token with an image is already
what would be put in its place, a leaf with the name of that image. -/
theorem subst_eq_of_tokens (f : Formula) :
    (∀ σ τ : Assignment,
      (∀ a ∈ f.tokens, (σ a.word).map Object.name = (τ a.word).map Object.name) →
        f.subst σ = f.subst τ) ∧
      ∀ σ : Assignment, f.subst σ = f ↔ ∀ a ∈ f.tokens, ∀ o ∈ σ a.word, a = .leaf o.name := by
  constructor
  · intro σ τ h
    rw [subst_eq_mapTokens, subst_eq_mapTokens, mapTokens_eq_iff]
    exact fun a ha => substToken_congr (h a ha)
  · intro σ
    rw [subst_eq_mapTokens, mapTokens_eq_self_iff]
    exact forall₂_congr fun a _ => substToken_eq_self_iff

/-- A negation of three parts, one of them a quantifier whose declaration cannot be read, and one
without a name. The types do not matter, nor does the image of `rain`, which names a predicate and
is no token. The hall stays what it is, but an argument `ann` that has a child is not yet Ann. -/
theorem subst_eq_of_tokens_rain :
    let f := fun x => Formula.apply .not
      [.apply .forAll [.leaf "?x", .leaf "rain", .predicate "at" [x, "hall"]],
        ⟨"", [.leaf x]⟩, ⟨"near", [⟨"ann", [.leaf "?x"]⟩]⟩]
    let hall := Binding.mk ⟨"hall", "room"⟩ ⟨"hall", "room"⟩
    let snow := Binding.mk ⟨"rain", "weather"⟩ ⟨"snow", "weather"⟩
    let ann := Binding.mk ⟨"ann", "person"⟩ ⟨"ann", "person"⟩
    let σ := Assignment.ofBindings [hall, ⟨⟨"?x", "person"⟩, ⟨"ann", "person"⟩⟩]
    let τ := Assignment.ofBindings [hall, ⟨⟨"?x", "robot"⟩, ⟨"ann", "robot"⟩⟩, snow]
    (f "?x").tokens = [.leaf "?x", .leaf "hall", .leaf "?x", ⟨"ann", [.leaf "?x"]⟩] ∧
      (∀ a ∈ (f "?x").tokens, (σ a.word).map Object.name = (τ a.word).map Object.name) ∧
      (f "?x").subst σ = f "ann" ∧ (f "?x").subst τ = f "ann" ∧
      (f "?x").subst (.ofBindings [hall, snow]) = f "?x" ∧
      (f "?x").subst (.ofBindings [ann]) ≠ f "?x" := by
  intro f hall snow ann σ τ
  have hnames : ∀ a ∈ (f "?x").tokens, (σ a.word).map Object.name = (τ a.word).map Object.name := by
    decide +kernel
  have hσ : (f "?x").subst σ = f "ann" := by decide +kernel
  have hstill : ∀ a ∈ (f "?x").tokens, ∀ o ∈ Assignment.ofBindings [hall, snow] a.word,
      a = .leaf o.name := by decide +kernel
  have hann : ¬ ∀ a ∈ (f "?x").tokens, ∀ o ∈ Assignment.ofBindings [ann] a.word,
      a = .leaf o.name := by decide +kernel
  obtain ⟨hcongr, hself⟩ := subst_eq_of_tokens (f "?x")
  exact ⟨by decide +kernel, hnames, hσ, (hcongr σ τ hnames).symm.trans hσ, (hself _).2 hstill,
    mt (hself _).1 hann⟩

end Formula

end PlanLogic
