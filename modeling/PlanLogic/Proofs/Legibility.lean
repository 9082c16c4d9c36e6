import PlanLogic.Evaluation.Run

/-!
# PlanLogic.Proofs.Legibility

Reading the written form of a formula. Parentheses and commas mark where words end and where
children begin, so they must not occur in words. Blanks may, and words may be empty.

* `Formula.Legible`: no word at any depth holds a parenthesis or a comma.
* `Formula.append_inj_of_legible`: a text that begins with a legible formula tells which one it is
  and where it ends.
* `render_eq_iff_of_legible`: legible formulas are written alike only if they are the same, and so
  are verdicts on them.
-/

namespace PlanLogic

namespace Formula

/-- Parentheses and commas. -/
def isDelimiter (c : Char) : Bool := c == '(' || c == ')' || c == ','

mutual

/-- The word of the root and the words of all nodes below it. -/
def words : Formula → List String
  | ⟨w, args⟩ => w :: wordsAll args

def wordsAll : List Formula → List String
  | [] => []
  | a :: as => words a ++ wordsAll as

end

def Legible (f : Formula) : Prop := ∀ w ∈ f.words, ∀ c ∈ w.toList, isDelimiter c = false

def LegibleAll (fs : List Formula) : Prop :=
  ∀ w ∈ wordsAll fs, ∀ c ∈ w.toList, isDelimiter c = false

instance (f : Formula) : Decidable f.Legible :=
  decidable_of_iff (f.words.all fun w => w.toList.all fun c => !isDelimiter c) (by simp [Legible])

theorem legible_mk {w : String} {args : List Formula} :
    Legible ⟨w, args⟩ ↔ (∀ c ∈ w.toList, isDelimiter c = false) ∧ LegibleAll args :=
  List.forall_mem_cons

theorem legibleAll_cons {a : Formula} {as : List Formula} :
    LegibleAll (a :: as) ↔ a.Legible ∧ LegibleAll as :=
  List.forall_mem_append

/-! ## Where a word ends -/

/-- A text that ends the word in front of it. -/
def EndsWord (s : List Char) : Prop := ∀ c ∈ s.head?, isDelimiter c = true

theorem takeWhile_word {w s : List Char} (hw : ∀ c ∈ w, isDelimiter c = false) (hs : EndsWord s) :
    (w ++ s).takeWhile (fun c => !isDelimiter c) = w := by
  rw [List.takeWhile_append_of_pos fun c hc => by simp [hw c hc]]
  cases s with
  | nil => simp
  | cons c s => simp [hs c rfl]

theorem append_inj_of_word {w v s t : List Char} (hw : ∀ c ∈ w, isDelimiter c = false)
    (hv : ∀ c ∈ v, isDelimiter c = false) (hs : EndsWord s) (ht : EndsWord t)
    (h : w ++ s = v ++ t) : w = v ∧ s = t := by
  have hwv : w = v := by rw [← takeWhile_word hw hs, h, takeWhile_word hv ht]
  subst hwv
  exact ⟨rfl, List.append_cancel_left h⟩

/-! ## Where a formula ends -/

/-- A text that can follow a formula. A parenthesis that opens would begin its children. -/
def EndsFormula (s : List Char) : Prop := ∀ c ∈ s.head?, c = ')' ∨ c = ','

theorem EndsFormula.endsWord {s : List Char} (h : EndsFormula s) : EndsWord s := by
  intro c hc
  rcases h c hc with rfl | rfl <;> rfl

/-- The text of the children with the parentheses around them. -/
def childrenText : List Formula → List Char
  | [] => []
  | a :: as => '(' :: (a.render.toList ++ ((renderRest as).toList ++ [')']))

theorem toList_render (w : String) (args : List Formula) :
    (render ⟨w, args⟩).toList = w.toList ++ childrenText args := by
  cases args <;> simp [render, childrenText]

theorem toList_renderRest_cons (a : Formula) (as : List Formula) :
    (renderRest (a :: as)).toList = ',' :: ' ' :: (a.render.toList ++ (renderRest as).toList) := by
  simp [renderRest]

theorem endsWord_childrenText (args : List Formula) {s : List Char} (hs : EndsFormula s) :
    EndsWord (childrenText args ++ s) := by
  cases args with
  | nil => exact hs.endsWord
  | cons a as =>
    intro c hc
    cases hc
    rfl

/-- Behind a child there is the next one, or the end of them all. -/
theorem endsFormula_renderRest (as : List Formula) (s : List Char) :
    EndsFormula ((renderRest as).toList ++ ')' :: s) := by
  cases as with
  | nil =>
    intro c hc
    cases hc
    exact .inl rfl
  | cons a as =>
    intro c hc
    rw [toList_renderRest_cons] at hc
    cases hc
    exact .inr rfl

/-- Children in parentheses are told from none, because what follows a formula does not begin with a
parenthesis that opens. -/
theorem renderRest_eq_of_childrenText {as bs : List Formula} {s t : List Char}
    (hs : EndsFormula s) (ht : EndsFormula t) (h : childrenText as ++ s = childrenText bs ++ t) :
    (renderRest as).toList ++ ')' :: s = (renderRest bs).toList ++ ')' :: t := by
  have hparen : ∀ u v, EndsFormula u → u ≠ '(' :: v := by
    rintro u v hu rfl
    exact absurd (hu '(' rfl) (by decide)
  cases as with
  | nil =>
    cases bs with
    | nil => exact congrArg (')' :: ·) h
    | cons b bs => exact absurd h (hparen s _ hs)
  | cons a as =>
    cases bs with
    | nil => exact absurd h.symm (hparen t _ ht)
    | cons b bs => simpa [childrenText, toList_renderRest_cons] using h

mutual

/-- The texts `s` and `t` behind the formulas are general, since a child is not followed by what
follows its parent. -/
theorem append_inj_of_legible : (f g : Formula) → f.Legible → g.Legible → (s t : List Char) →
    EndsFormula s → EndsFormula t → f.render.toList ++ s = g.render.toList ++ t → f = g ∧ s = t
  | ⟨w, as⟩, ⟨v, bs⟩, hf, hg, s, t, hs, ht, h => by
    obtain ⟨hw, has⟩ := legible_mk.1 hf
    obtain ⟨hv, hbs⟩ := legible_mk.1 hg
    rw [toList_render, toList_render, List.append_assoc, List.append_assoc] at h
    obtain ⟨hwv, hchildren⟩ :=
      append_inj_of_word hw hv (endsWord_childrenText as hs) (endsWord_childrenText bs ht) h
    obtain ⟨hargs, hst⟩ :=
      append_inj_of_legibleAll as bs has hbs s t (renderRest_eq_of_childrenText hs ht hchildren)
    rw [String.toList_inj.1 hwv, hargs]
    exact ⟨rfl, hst⟩

theorem append_inj_of_legibleAll : (as bs : List Formula) → LegibleAll as → LegibleAll bs →
    (s t : List Char) →
    (renderRest as).toList ++ ')' :: s = (renderRest bs).toList ++ ')' :: t → as = bs ∧ s = t
  | [], [], _, _, s, t, h => ⟨rfl, (List.cons.inj h).2⟩
  | [], b :: bs, _, _, s, t, h => by
    rw [toList_renderRest_cons] at h
    cases h
  | a :: as, [], _, _, s, t, h => by
    rw [toList_renderRest_cons] at h
    cases h
  | a :: as, b :: bs, has, hbs, s, t, h => by
    obtain ⟨ha, has⟩ := legibleAll_cons.1 has
    obtain ⟨hb, hbs⟩ := legibleAll_cons.1 hbs
    have h' : a.render.toList ++ ((renderRest as).toList ++ ')' :: s) =
        b.render.toList ++ ((renderRest bs).toList ++ ')' :: t) := by
      simpa [toList_renderRest_cons] using h
    obtain ⟨hab, hrest⟩ := append_inj_of_legible a b ha hb _ _ (endsFormula_renderRest as s)
      (endsFormula_renderRest bs t) h'
    obtain ⟨hasbs, hst⟩ := append_inj_of_legibleAll as bs has hbs s t hrest
    exact ⟨by rw [hab, hasbs], hst⟩

end

theorem render_inj_of_legible {f g : Formula} (hf : f.Legible) (hg : g.Legible)
    (h : f.render = g.render) : f = g := by
  have hends : EndsFormula [] := by
    intro c hc
    cases hc
  exact (append_inj_of_legible f g hf hg [] [] hends hends (by rw [h])).1

end Formula

theorem Verdict.toList_render (v : Verdict) :
    v.render.toList = (if v.holds then '✓' else '❌') :: ' ' :: v.formula.render.toList := by
  unfold Verdict.render
  split <;> simp

/-- Formulas whose words hold no parenthesis and no comma are written alike only if they are the
same, whatever blanks and empty words there are in them. Verdicts on such formulas are written alike
only if they are on the same formula and have the same truth value. -/
theorem render_eq_iff_of_legible {f g : Formula} (hf : f.Legible) (hg : g.Legible) :
    (f.render = g.render ↔ f = g) ∧
      ∀ b c : Bool, (Verdict.mk f b).render = (Verdict.mk g c).render ↔ f = g ∧ b = c := by
  have hinj : f.render = g.render ↔ f = g :=
    ⟨Formula.render_inj_of_legible hf hg, fun h => by rw [h]⟩
  refine ⟨hinj, fun b c => ?_⟩
  rw [← hinj, ← String.toList_inj, ← String.toList_inj, Verdict.toList_render,
    Verdict.toList_render]
  cases b <;> cases c <;> simp

/-- A leaf, the same word over one empty word and over two words of blanks. The second is written
with parentheses and nothing between them, and of the third's three blanks the middle one is no part
of a word. -/
theorem render_eq_iff_of_legible_blanks :
    let leaf : Formula := ⟨"at the", []⟩
    let one : Formula := ⟨"at the", [⟨"", []⟩]⟩
    let two : Formula := ⟨"at the", [⟨" ", []⟩, ⟨" ", []⟩]⟩
    leaf.Legible ∧ one.Legible ∧ two.Legible ∧
      one.render = "at the()" ∧ two.render = "at the( ,  )" ∧ leaf.render ≠ one.render ∧
      (∀ f : Formula, f.Legible → f.render = "at the( ,  )" → f = two) ∧
      (Verdict.mk one true).render ≠ (Verdict.mk one false).render := by
  intro leaf one two
  have hleaf : leaf.Legible := by decide +kernel
  have hone : one.Legible := by decide +kernel
  have htwo : two.Legible := by decide +kernel
  have htext : two.render = "at the( ,  )" := by decide +kernel
  refine ⟨hleaf, hone, htwo, by decide +kernel, htext, fun h => ?_, fun f hf h => ?_, fun h => ?_⟩
  · exact absurd ((render_eq_iff_of_legible hleaf hone).1.1 h) (by decide +kernel)
  · exact (render_eq_iff_of_legible hf htwo).1.1 (h.trans htext.symm)
  · exact absurd (((render_eq_iff_of_legible hone hone).2 true false).1 h).2 (by decide)

-- A comma within a word cannot be told from one between words.
example : (Formula.mk "p" [⟨"a, b", []⟩]).render = (Formula.mk "p" [⟨"a", []⟩, ⟨"b", []⟩]).render :=
  by decide +kernel

end PlanLogic
