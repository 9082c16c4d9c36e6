import Mathlib.Algebra.Ring.Nat
import Mathlib.Data.List.Lex
import Mathlib.Order.Monotone.Basic

/-!
# PlanLogic.Proofs.ByteOrder

Words are compared by their code points, and this is the order of their UTF-8 bytes. A code point is
written as a first byte and up to three more, each of these holding six of its bits. The first byte
says how many follow: the more there are, the larger it is, and for one number of them the bytes are
the digits of the code point to the base 64.

* `utf8EncodeChar_eq`: the bytes of a code point as first byte and digits.
* `lead_mem`: first bytes lie apart by the number of bytes that follow.
* `lex_trailing`, `lex_utf8EncodeChar`: of two code points the smaller has the lower bytes, whatever
  follows.
* `compare_eq_lt_iff_bytes`: words are in the order of their bytes.
-/

namespace PlanLogic

namespace Text

/-! ## Code points -/

/-- How many bytes follow the first one of the code point `n`. -/
def trailCount (n : Nat) : Nat :=
  if n ≤ 127 then 0 else if n ≤ 2047 then 1 else if n ≤ 65535 then 2 else 3

/-- The `k` lowest digits of `n` to the base 64, each marked as no first byte. -/
def trailing : Nat → Nat → List UInt8
  | 0, _ => []
  | k + 1, n => .ofNat (n / 64 ^ k % 64 + 128) :: trailing k n

/-- The least first byte that announces `k` more. -/
def leadMark : Nat → Nat
  | 0 => 0
  | 1 => 192
  | 2 => 224
  | 3 => 240
  | _ => 248

/-- The first byte of the code point `n`. -/
def lead (n : Nat) : Nat := n / 64 ^ trailCount n + leadMark (trailCount n)

theorem toNat_char_lt (c : Char) : c.toNat < 1114112 := by
  have h := c.valid
  simp only [UInt32.isValidChar, Nat.isValidChar, Char.toNat_val] at h
  omega

theorem utf8EncodeChar_eq (c : Char) :
    String.utf8EncodeChar c = .ofNat (lead c.toNat) :: trailing (trailCount c.toNat) c.toNat := by
  have hc := toNat_char_lt c
  unfold String.utf8EncodeChar lead trailCount
  rw [← Char.toNat]
  generalize c.toNat = n at hc
  by_cases h₁ : n ≤ 127
  · simp [h₁, trailing, leadMark]
  by_cases h₂ : n ≤ 2047
  · have h : n / 64 % 32 = n / 64 := Nat.mod_eq_of_lt (by omega)
    simp [h₁, h₂, h, trailing, leadMark]
  by_cases h₃ : n ≤ 65535
  · have h : n / 4096 % 16 = n / 4096 := Nat.mod_eq_of_lt (by omega)
    simp [h₁, h₂, h₃, h, trailing, leadMark]
  · have h : n / 262144 % 8 = n / 262144 := Nat.mod_eq_of_lt (by omega)
    simp [h₁, h₂, h₃, h, trailing, leadMark]

theorem trailCount_mono : Monotone trailCount := by
  intro n m h
  unfold trailCount
  repeat' split
  all_goals omega

theorem trailCount_le (n : Nat) : trailCount n ≤ 3 := by
  unfold trailCount
  repeat' split
  all_goals omega

theorem leadMark_mono : Monotone leadMark := by
  refine monotone_nat_of_le_succ fun k => ?_
  rcases k with _ | _ | _ | _ | k <;> simp [leadMark]

theorem lead_mem {n : Nat} (h : n < 1114112) :
    leadMark (trailCount n) ≤ lead n ∧ lead n < leadMark (trailCount n + 1) := by
  refine ⟨Nat.le_add_left _ _, ?_⟩
  unfold lead trailCount
  repeat' split
  all_goals simp only [leadMark, Nat.reducePow]; omega

theorem lead_lt {n : Nat} (h : n < 1114112) : lead n < 256 := by
  have hle := leadMark_mono (Nat.succ_le_succ (trailCount_le n))
  exact Nat.lt_of_lt_of_le (Nat.lt_of_lt_of_le (lead_mem h).2 hle) (by decide)

/-! ## Order -/

theorem lex_ofNat_cons_iff {a b : Nat} (ha : a < 256) (hb : b < 256) {as bs : List UInt8} :
    List.Lex (· < ·) (.ofNat a :: as) (.ofNat b :: bs) ↔
      a < b ∨ a = b ∧ List.Lex (· < ·) as bs := by
  rw [List.cons_lex_cons_iff, UInt8.ofNat_lt_iff_lt ha hb, ← UInt8.toNat_inj,
    UInt8.toNat_ofNat_of_lt' ha, UInt8.toNat_ofNat_of_lt' hb]

/-- Of two numbers the smaller has the smaller quotient, or the same and the smaller rest. -/
theorem div_lt_or_mod_lt {n m : Nat} (h : n < m) (b : Nat) :
    n / b < m / b ∨ n / b = m / b ∧ n % b < m % b := by
  have hn := Nat.div_add_mod n b
  have hm := Nat.div_add_mod m b
  rcases Nat.lt_or_eq_of_le (Nat.div_le_div_right (c := b) (Nat.le_of_lt h)) with hlt | heq
  · exact .inl hlt
  · rw [heq] at hn
    exact .inr ⟨heq, by omega⟩

theorem lex_trailing (k : Nat) {n m : Nat} (h : n % 64 ^ k < m % 64 ^ k) (as bs : List UInt8) :
    List.Lex (· < ·) (trailing k n ++ as) (trailing k m ++ bs) := by
  induction k with
  | zero => omega
  | succ k ih =>
    have hdigit : ∀ n, n % 64 ^ (k + 1) / 64 ^ k = n / 64 ^ k % 64 := by
      intro n
      rw [Nat.pow_succ, Nat.mod_mul_right_div_self]
    have hrest : ∀ n, n % 64 ^ (k + 1) % 64 ^ k = n % 64 ^ k := by
      intro n
      exact Nat.mod_mod_of_dvd n (Nat.pow_dvd_pow 64 (Nat.le_succ k))
    have hcases := div_lt_or_mod_lt h (64 ^ k)
    rw [hdigit, hdigit, hrest, hrest] at hcases
    refine (lex_ofNat_cons_iff (by omega) (by omega)).2 ?_
    rcases hcases with hlt | ⟨heq, hlt⟩
    · exact .inl (by omega)
    · exact .inr ⟨by omega, ih hlt⟩

theorem lex_utf8EncodeChar {c d : Char} (h : c < d) (as bs : List UInt8) :
    List.Lex (· < ·) (String.utf8EncodeChar c ++ as) (String.utf8EncodeChar d ++ bs) := by
  have hc := toNat_char_lt c
  have hd := toNat_char_lt d
  have hcd : c.toNat < d.toNat := h
  rw [utf8EncodeChar_eq, utf8EncodeChar_eq]
  refine (lex_ofNat_cons_iff (lead_lt hc) (lead_lt hd)).2 ?_
  rcases Nat.lt_or_eq_of_le (trailCount_mono (Nat.le_of_lt hcd)) with hlt | heq
  · -- Fewer bytes follow, and the first byte says so.
    left
    calc lead c.toNat
        < leadMark (trailCount c.toNat + 1) := (lead_mem hc).2
      _ ≤ leadMark (trailCount d.toNat) := leadMark_mono hlt
      _ ≤ lead d.toNat := (lead_mem hd).1
  · rw [lead, lead, heq]
    rcases div_lt_or_mod_lt hcd (64 ^ trailCount d.toNat) with hlt | ⟨hdiv, hlt⟩
    · exact .inl (Nat.add_lt_add_right hlt _)
    · exact .inr ⟨by rw [hdiv], lex_trailing _ hlt as bs⟩

/-! ## Words -/

/-- The bytes of a word in UTF-8. -/
def bytes (w : String) : List UInt8 := w.toUTF8.data.toList

theorem bytes_eq (w : String) : bytes w = w.toList.flatMap String.utf8EncodeChar := by
  rw [bytes, String.toUTF8, ← String.utf8Encode_toList, List.utf8Encode,
    List.toList_data_toByteArray]

theorem lex_flatMap_utf8EncodeChar {cs ds : List Char} (h : List.Lex (· < ·) cs ds) :
    List.Lex (· < ·) (cs.flatMap String.utf8EncodeChar) (ds.flatMap String.utf8EncodeChar) := by
  induction h with
  | nil =>
    rw [List.flatMap_cons, utf8EncodeChar_eq]
    exact .nil
  | cons _ ih => exact .append_left _ ih _
  | rel hlt => exact lex_utf8EncodeChar hlt _ _

theorem compare_eq_lt_iff_toList {w v : String} :
    compare w v = .lt ↔ List.Lex (· < ·) w.toList v.toList := by
  rw [← List.lt_iff_lex_lt]
  exact compareOfLessAndEq_eq_lt

/-- One word comes before another if its bytes do. -/
theorem compare_eq_lt_iff_bytes {w v : String} :
    compare w v = .lt ↔ List.Lex (· < ·) (bytes w) (bytes v) := by
  have hbytes : ∀ {w v : String}, compare w v = .lt → List.Lex (· < ·) (bytes w) (bytes v) := by
    intro w v h
    rw [bytes_eq, bytes_eq]
    exact lex_flatMap_utf8EncodeChar (compare_eq_lt_iff_toList.1 h)
  refine ⟨hbytes, fun h => ?_⟩
  cases hcmp : compare w v with
  | lt => rfl
  | eq =>
    rw [Std.LawfulEqOrd.eq_of_compare hcmp] at h
    exact absurd h (List.lex_irrefl UInt8.lt_irrefl _)
  | gt =>
    have hvw := hbytes (Std.OrientedCmp.lt_of_gt hcmp)
    exact absurd hvw (List.lex_asymm UInt8.lt_asymm h)

end Text

end PlanLogic
