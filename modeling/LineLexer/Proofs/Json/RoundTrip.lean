import LineLexer.Proofs.Json.Reading
import LineLexer.Proofs.Json.Writing
/-!
What is written is read back.

Numbers are read in double precision to tell the finite ones from the others.  A natural number of
64 bits is far from the bound: it is its own coefficient, and rounding at most doubles it.
-/

namespace LineLexer.Json

section Naturals

theorem roundToDouble_le (n : Nat) : roundToDouble n ≤ 2 * n := by
  by_cases hzero : n = 0
  · subst hzero
    decide
  · have hunit : 2 ^ (n.log2 - 52) ≤ n :=
      Nat.le_trans (Nat.pow_le_pow_right (by decide) (Nat.sub_le _ _)) (Nat.log2_self_le hzero)
    have hquotient : n / 2 ^ (n.log2 - 52) * 2 ^ (n.log2 - 52) ≤ n := Nat.div_mul_le_self _ _
    have hpow : Nat.pow 2 (n.log2 - 52) = 2 ^ (n.log2 - 52) := rfl
    simp only [roundToDouble, hpow]
    split
    · rw [Nat.add_mul, Nat.one_mul]
      omega
    · omega

theorem le_ofDigitChars (digits : List Char) (coefficient : Nat) :
    coefficient ≤ Nat.ofDigitChars 10 digits coefficient := by
  induction digits generalizing coefficient with
  | nil => simp
  | cons digit digits ih =>
      rw [Nat.ofDigitChars_cons]
      exact Nat.le_trans (by omega) (ih _)

/-- No digit of a number of 64 bits is left out. -/
theorem appendDigits_eq {digits : List Char} {coefficient : Nat}
    (hbound : Nat.ofDigitChars 10 digits coefficient < Nat.pow 2 64) :
    appendDigits coefficient digits = (Nat.ofDigitChars 10 digits coefficient, 0) := by
  induction digits generalizing coefficient with
  | nil => simp [appendDigits]
  | cons digit digits ih =>
      rw [Nat.ofDigitChars_cons] at hbound ⊢
      have hnext := Nat.lt_of_le_of_lt (le_ofDigitChars digits _) hbound
      rw [appendDigits]
      exact (if_pos hnext).trans (ih hbound)

theorem isHuge_natural {n : Nat} (hbound : n < Nat.pow 2 64) :
    ({ whole := n } : Number).isHuge = false := by
  have hdigits : appendDigits 0 (decimal n) = (n, 0) := by
    have hvalue : Nat.ofDigitChars 10 (decimal n) 0 = n := Nat.ofDigitChars_ten_toDigits
    rw [appendDigits_eq (by rw [hvalue]; exact hbound), hvalue]
  have hrounded : roundToDouble (roundToDouble n) < Nat.pow 2 66 := by
    have hinner := roundToDouble_le n
    have houter := roundToDouble_le (roundToDouble n)
    have hbits : 4 * Nat.pow 2 64 = Nat.pow 2 66 := by decide
    omega
  have hsmall (k : Nat) (hk : 66 ≤ k) : roundToDouble (roundToDouble n) < Nat.pow 2 k :=
    Nat.lt_of_lt_of_le hrounded (Nat.pow_le_pow_right (by decide) hk)
  have hone : roundToDouble (Nat.pow 10 0) = 1 := by decide
  simp only [Number.isHuge, hdigits, appendDigits, Option.getD_none, List.length_nil,
    Nat.sub_self, Int.ofNat_zero, Int.add_zero, Int.sub_zero, Int.toNat_zero, Int.lt_irrefl,
    or_false, hone, Nat.mul_one]
  split
  · rfl
  · refine (if_neg (by decide)).trans (decide_eq_false ?_)
    -- The power of two is too large to be evaluated.
    have hlarge : 66 ≤ 1024 := by decide
    generalize 1024 = k at hlarge ⊢
    exact Nat.not_le_of_lt (hsmall k hlarge)

theorem fits_ofNat {room n : Nat} (hbound : n < Nat.pow 2 64) : Fits room (ofNat n) :=
  .number (fun _ hc => by cases hc) (isHuge_natural hbound)

end Naturals

section Layouts

variable {value : Json} (hfits : Fits 127 value)

include hfits

theorem parse_write {layout : Layout} (hlayout : layout.Blank) :
    parse (String.ofList (value.write layout 0)) = .ok value := by
  refine parse_of_spellsText ?_ hfits
  rw [String.toList_ofList]
  exact spellsText_write hlayout hfits

theorem parse_pretty : parse value.pretty = .ok value :=
  parse_write hfits Layout.blank_pretty

end Layouts

end LineLexer.Json
