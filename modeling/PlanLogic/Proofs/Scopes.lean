import PlanLogic.Expansion
import PlanLogic.Proofs.Tokens
import PlanLogic.World

/-!
# PlanLogic.Proofs.Scopes

What the quantifiers around a formula bind, one name to one name each, outermost first. Two readings
of an argument of a predicate in such a list are compared throughout:

* `Scopes.rewrite`: every binding in its turn rewrites what the ones before it have left.
* `Scopes.lookup`: all bindings at once; of several for one name the innermost counts.
* `rewrite_eq_lookup_snoc`: a further binding keeps the readings equal if its parameter is fresh.

Copies of a quantifier's body are bodies under substitution for one more binding:

* `Formula.close`: substitution for all bindings, in order.
* `shape_close`: it acts on the parts of a formula and keeps all else.
* `copies_close`: the copies of a closed body are the body closed once more, object by object.
-/

namespace PlanLogic

structure Scope where
  parameter : String
  object : String
  deriving DecidableEq, Repr

/-- The bindings of the enclosing quantifiers, outermost first. -/
abbrev Scopes := List Scope

namespace Scope

/-- An argument named like the parameter becomes the object's token, children and all. -/
def rewrite (s : Scope) (a : Formula) : Formula :=
  if a.word = s.parameter then .leaf s.object else a

def assignment (s : Scope) : Assignment := .single (.named s.parameter) (.named s.object)

theorem substToken_assignment (s : Scope) (a : Formula) :
    a.substToken s.assignment = s.rewrite a := by
  by_cases h : a.word = s.parameter
  · simp [Formula.substToken, assignment, Assignment.single, rewrite, Object.named,
      Object.toFormula, h]
  · have h' : ¬ s.parameter = a.word := fun e => h e.symm
    simp [Formula.substToken, assignment, Assignment.single, rewrite, Object.named, h, h']

end Scope

namespace Scopes

def rewrite (ρ : Scopes) (a : Formula) : Formula := ρ.foldl (fun a s => s.rewrite a) a

def lookup (ρ : Scopes) (a : Formula) : Formula :=
  match ρ.reverse.find? (fun s => s.parameter = a.word) with
  | some s => .leaf s.object
  | none => a

theorem rewrite_snoc (ρ : Scopes) (s : Scope) (a : Formula) :
    rewrite (ρ ++ [s]) a = s.rewrite (rewrite ρ a) := by
  simp [rewrite]

theorem lookup_snoc (ρ : Scopes) (s : Scope) (a : Formula) :
    lookup (ρ ++ [s]) a = if a.word = s.parameter then .leaf s.object else lookup ρ a := by
  by_cases h : a.word = s.parameter
  · simp [lookup, h]
  · have h' : ¬ s.parameter = a.word := fun e => h e.symm
    simp [lookup, h, h']

/-- No binding has the name `x`, neither for its parameter nor for its object. -/
def Fresh (ρ : Scopes) (x : String) : Prop :=
  ∀ s ∈ ρ, s.parameter ≠ x ∧ s.object ≠ x

theorem fresh_nil (x : String) : Fresh [] x := by
  intro s hs
  cases hs

theorem fresh_snoc {ρ : Scopes} {s : Scope} {x : String} (h : Fresh ρ x) (hp : s.parameter ≠ x)
    (ho : s.object ≠ x) : Fresh (ρ ++ [s]) x := by
  intro t ht
  rcases List.mem_append.1 ht with ht | ht
  · exact h t ht
  · rw [List.mem_singleton.1 ht]
    exact ⟨hp, ho⟩

/-- Looking up in scopes without the name `x` does not turn another word into `x`. -/
theorem word_lookup_eq_iff {ρ : Scopes} {x : String} (h : Fresh ρ x) (a : Formula) :
    (lookup ρ a).word = x ↔ a.word = x := by
  unfold lookup
  split
  · rename_i s hs
    have hmem : s ∈ ρ := List.mem_reverse.1 (List.mem_of_find?_eq_some hs)
    have hpar : s.parameter = a.word := by simpa using List.find?_some hs
    obtain ⟨hp, ho⟩ := h s hmem
    rw [← hpar]
    exact ⟨fun e => absurd e ho, fun e => absurd e hp⟩
  · rfl

theorem rewrite_eq_lookup_snoc {ρ : Scopes} {s : Scope} (h : Fresh ρ s.parameter)
    (hρ : ∀ a, rewrite ρ a = lookup ρ a) (a : Formula) :
    rewrite (ρ ++ [s]) a = lookup (ρ ++ [s]) a := by
  rw [rewrite_snoc, lookup_snoc, hρ, Scope.rewrite]
  simp only [word_lookup_eq_iff h]

-- An object named like the parameter of an inner binding is caught by it.
example :
    let ρ : Scopes := [⟨"?x", "?y"⟩, ⟨"?y", "ann"⟩]
    rewrite ρ (.leaf "?x") = .leaf "ann" ∧ lookup ρ (.leaf "?x") = .leaf "?y" := by decide

end Scopes

namespace Formula

/-! ## Substitution sees names only -/

theorem subst_congr {σ τ : Assignment}
    (h : ∀ token, (σ token).map Object.name = (τ token).map Object.name) (f : Formula) :
    f.subst σ = f.subst τ := by
  have htokens : substToken σ = substToken τ := funext fun a => substToken_congr (h a.word)
  rw [subst_eq_mapTokens, subst_eq_mapTokens, htokens]

theorem subst_single (p o : Object) (f : Formula) :
    f.subst (.single p o) = f.subst (Scope.mk p.name o.name).assignment := by
  apply subst_congr
  intro token
  by_cases h : p.name = token <;> simp [Scope.assignment, Assignment.single, Object.named, h]

/-! ## Closing -/

def close (ρ : Scopes) (f : Formula) : Formula := ρ.foldl (fun f s => f.subst s.assignment) f

@[simp] theorem close_nil (f : Formula) : close [] f = f := rfl

theorem close_cons (s : Scope) (ρ : Scopes) (f : Formula) :
    close (s :: ρ) f = close ρ (f.subst s.assignment) := rfl

theorem close_snoc (ρ : Scopes) (s : Scope) (f : Formula) :
    close (ρ ++ [s]) f = (close ρ f).subst s.assignment := by
  simp [close]

@[simp] theorem word_close (ρ : Scopes) (f : Formula) : (f.close ρ).word = f.word := by
  induction ρ generalizing f with
  | nil => rfl
  | cons s ρ ih => rw [close_cons, ih, word_subst]

theorem mapParts_mapParts (g h : Formula → Formula) (s : Shape) :
    (s.mapParts h).mapParts g = s.mapParts (g ∘ h) := by
  cases s <;> simp [Shape.mapParts]

theorem mapParts_id (s : Shape) : s.mapParts (fun f => f) = s := by
  cases s <;> simp [Shape.mapParts]

theorem shape_close (ρ : Scopes) (f : Formula) :
    (close ρ f).shape = f.shape.map (Shape.mapParts (close ρ)) := by
  induction ρ generalizing f with
  | nil =>
    have h : close [] = fun f => f := rfl
    cases hf : f.shape <;> simp [h, hf, Except.map, mapParts_id]
  | cons s ρ ih =>
    have h : close (s :: ρ) = close ρ ∘ subst s.assignment := rfl
    rw [close_cons, ih, shape_subst]
    cases f.shape <;> simp [h, Except.map, mapParts_mapParts]

/-- On a predicate, closing rewrites the arguments. -/
theorem close_of_shape_atom {f : Formula} (h : f.shape = .ok .atom) (ρ : Scopes) :
    close ρ f = ⟨f.word, f.args.map (Scopes.rewrite ρ)⟩ := by
  induction ρ generalizing f with
  | nil =>
    cases f
    show _ = Formula.mk _ (List.map (fun a => a) _)
    rw [List.map_id']
    rfl
  | cons s ρ ih =>
    have hs : (f.subst s.assignment).shape = .ok .atom := by
      rw [shape_subst, h]
      rfl
    rw [close_cons, ih hs, subst_of_predicate _ (shape_eq_atom_iff.1 h)]
    simp [Scope.substToken_assignment, Scopes.rewrite]

end Formula

/-- The names of the objects of exactly the given type, in the order of the universe. -/
def World.namesOf (w : World) (type : String) : List String :=
  (w.objects.filter (fun o => o.type = type)).map Object.name

theorem mem_namesOf {w : World} {type name : String} :
    name ∈ w.namesOf type ↔ ⟨name, type⟩ ∈ w.objects := by
  simp only [World.namesOf, List.mem_map, List.mem_filter, decide_eq_true_eq]
  constructor
  · rintro ⟨⟨_, _⟩, ⟨ho, rfl⟩, rfl⟩
    exact ho
  · intro h
    exact ⟨_, ⟨h, rfl⟩, rfl⟩

theorem copies_close (w : World) (ρ : Scopes) (body : Formula) (p : Object) :
    (body.close ρ).copies p w.objects =
      (w.namesOf p.type).map fun name => body.close (ρ ++ [⟨p.name, name⟩]) := by
  simp only [Formula.copies, World.namesOf, List.map_map]
  apply List.map_congr_left
  intro o _
  rw [Formula.subst_single, Function.comp_apply, Formula.close_snoc]

end PlanLogic
