import Mathlib.Algebra.Order.Ring.Nat
import Mathlib.Tactic.SplitIfs
import SceneText.Number.Shortest

/-!
# Rounding

The numbers that rounding gives are those with a coefficient as large as the exponent range allows.
Such a number is its own nearest, so that its exact decimal form is read as the number again.
-/

namespace SceneText.Binary64

variable {num den m shift : Nat} {negative : Bool}

structure Normal (m shift : Nat) : Prop where
  below : m < 2 * leastFull
  full : leastFull ≤ m ∨ shift = 0
  greatest : shift ≤ 2045

theorem roundDiv_bounds (n d : Nat) : n / d ≤ roundDiv n d ∧ roundDiv n d ≤ n / d + 1 := by
  rw [roundDiv]
  split_ifs <;> omega

theorem roundDiv_mul (m : Nat) {d : Nat} (hd : 0 < d) : roundDiv (m * d) d = m := by
  simp [roundDiv, hd]

/-- Shifted so far, a number has 53 bits or less, and less only if it is not shifted at all. -/
theorem shift_bounds (q : Nat) : q / 2 ^ (Nat.log2 q - 52) < 2 * leastFull ∧
    (leastFull ≤ q / 2 ^ (Nat.log2 q - 52) ∨ Nat.log2 q - 52 = 0) := by
  constructor
  · rw [Nat.div_lt_iff_lt_mul (Nat.two_pow_pos _)]
    calc q < 2 ^ (Nat.log2 q + 1) := Nat.lt_log2_self
      _ ≤ 2 ^ (53 + (Nat.log2 q - 52)) := Nat.pow_le_pow_right (by decide) (by omega)
      _ = 2 * leastFull * 2 ^ (Nat.log2 q - 52) := Nat.pow_add ..
  · by_cases hshort : Nat.log2 q ≤ 52
    · exact .inr (by omega)
    · have hq : q ≠ 0 := by
        rintro rfl
        simp at hshort
      left
      rw [Nat.le_div_iff_mul_le (Nat.two_pow_pos _)]
      calc leastFull * 2 ^ (Nat.log2 q - 52) = 2 ^ (52 + (Nat.log2 q - 52)) := (Nat.pow_add ..).symm
        _ = 2 ^ Nat.log2 q := by congr 1; omega
        _ ≤ q := Nat.log2_self_le hq

theorem ofUnits_cases (negative : Bool) (m shift : Nat) :
    ofUnits negative m shift = .infinite negative ∨ shift ≤ 2045 ∧
      ofUnits negative m shift = .finite negative m (leastExponent + shift) := by
  have hlimits : leastExponent = -1074 ∧ greatestExponent = 971 := ⟨rfl, rfl⟩
  rw [ofUnits]
  split
  · exact .inl rfl
  · exact .inr ⟨by omega, rfl⟩

theorem ofRatio_cases (negative : Bool) (num den : Nat) :
    ofRatio negative num den = .infinite negative ∨ ∃ m shift : Nat,
      ofRatio negative num den = .finite negative m (leastExponent + shift) ∧ Normal m shift := by
  obtain ⟨hbelow, hfull⟩ := shift_bounds (inUnits num / den)
  rw [ofRatio]
  generalize Nat.log2 (inUnits num / den) - 52 = shift at hbelow hfull ⊢
  have hround := roundDiv_bounds (inUnits num) (den * Nat.pow 2 shift)
  rw [← Nat.div_div_eq_div_mul, Nat.pow_eq] at hround
  rw [Nat.pow_eq]
  generalize roundDiv (inUnits num) (den * 2 ^ shift) = m at hround ⊢
  split
  · rcases ofUnits_cases negative leastFull (shift + 1) with hcase | ⟨hgreatest, hcase⟩
    · exact .inl hcase
    · exact .inr ⟨_, _, hcase, by decide, .inl (Nat.le_refl _), hgreatest⟩
  · rcases ofUnits_cases negative m shift with hcase | ⟨hgreatest, hcase⟩
    · exact .inl hcase
    · exact .inr ⟨_, _, hcase, by omega, by omega, hgreatest⟩

theorem Normal.shift_eq (h : Normal m shift) : Nat.log2 (m * 2 ^ shift) - 52 = shift := by
  rcases h.full with hfull | rfl
  · have hlog : Nat.log2 (m * 2 ^ shift) = 52 + shift := by
      have hpos := Nat.two_pow_pos shift
      have hm : m ≠ 0 := fun hzero => absurd (hzero ▸ hfull) (by decide)
      rw [Nat.log2_eq_iff (Nat.mul_ne_zero hm hpos.ne'), Nat.add_right_comm, Nat.pow_add,
        Nat.pow_add 2 (52 + 1)]
      exact ⟨Nat.mul_le_mul_right _ hfull, Nat.mul_lt_mul_of_pos_right h.below hpos⟩
    omega
  · by_cases hm : m = 0
    · subst hm
      rfl
    · have hlog : Nat.log2 m < 53 := (Nat.log2_lt hm).mpr h.below
      rw [Nat.pow_zero, Nat.mul_one]
      omega

theorem ofRatio_exact (negative : Bool) (h : Normal m shift) (hden : 0 < den)
    (hvalue : inUnits num = m * 2 ^ shift * den) :
    ofRatio negative num den = .finite negative m (leastExponent + shift) := by
  have hround : roundDiv (m * 2 ^ shift * den) (den * 2 ^ shift) = m := by
    rw [Nat.mul_assoc, Nat.mul_comm (2 ^ shift)]
    exact roundDiv_mul m (Nat.mul_pos hden (Nat.two_pow_pos shift))
  have hgreatest : ¬ greatestExponent < leastExponent + shift := by
    have := h.greatest
    have hlimits : leastExponent = -1074 ∧ greatestExponent = 971 := ⟨rfl, rfl⟩
    omega
  rw [ofRatio]
  rw [hvalue, Nat.mul_div_cancel _ hden, h.shift_eq, Nat.pow_eq, hround, if_neg h.below.ne,
    ofUnits]
  exact if_neg hgreatest

theorem ofDecimal_cases (negative : Bool) (digits : Nat) (power : Int) :
    ofDecimal negative digits power = .infinite negative ∨ ∃ m shift : Nat,
      ofDecimal negative digits power = .finite negative m (leastExponent + shift) ∧
        Normal m shift := by
  have hzero : Normal 0 0 := ⟨by decide, .inr rfl, by decide⟩
  rw [ofDecimal]
  dsimp only
  split_ifs
  · exact .inr ⟨0, 0, rfl, hzero⟩
  · exact .inl rfl
  · exact .inr ⟨0, 0, rfl, hzero⟩
  · exact ofRatio_cases negative _ _
  · exact ofRatio_cases negative _ _

theorem exactDigits_eq (m shift : Nat) :
    exactDigits m (leastExponent + shift) = m * 2 ^ shift * 5 ^ unitPower := by
  have hshift : (leastExponent + shift + unitPower).toNat = shift := by
    rw [leastExponent]
    omega
  rw [exactDigits, hshift, Nat.pow_eq, Nat.pow_eq]

theorem Normal.length_digits (h : Normal m shift) (hm : m ≠ 0) :
    734 < (Nat.toDigits 10 (m * 2 ^ shift * 5 ^ unitPower)).length ∧
      (Nat.toDigits 10 (m * 2 ^ shift * 5 ^ unitPower)).length ≤ 1394 := by
  rw [← Nat.not_le, Nat.length_toDigits_le_iff (by decide) (by decide),
    Nat.length_toDigits_le_iff (by decide) (by decide), Nat.not_lt]
  constructor
  · calc 10 ^ 734 ≤ 1 * 5 ^ unitPower := by decide +kernel
      _ ≤ m * 2 ^ shift * 5 ^ unitPower := Nat.mul_le_mul_right _
          (Nat.mul_pos (Nat.pos_of_ne_zero hm) (Nat.two_pow_pos shift))
  · calc m * 2 ^ shift * 5 ^ unitPower ≤ 2 * leastFull * 2 ^ 2045 * 5 ^ unitPower :=
          Nat.mul_le_mul_right _ (Nat.mul_le_mul h.below.le
            (Nat.pow_le_pow_right (by decide) h.greatest))
      _ < 10 ^ 1394 := by decide +kernel

theorem ofDecimal_exact (negative : Bool) (h : Normal m shift) :
    ofDecimal negative (exactDigits m (leastExponent + shift)) (-unitPower) =
      .finite negative m (leastExponent + shift) := by
  rw [exactDigits_eq]
  by_cases hm : m = 0
  · obtain rfl := hm
    obtain rfl := h.full.resolve_left (by decide)
    rw [Nat.zero_mul, Nat.zero_mul]
    rfl
  have hlength := h.length_digits hm
  have hpower : (unitPower : Int) = 1074 := rfl
  have hpos : m * 2 ^ shift * 5 ^ unitPower ≠ 0 :=
    Nat.mul_ne_zero (Nat.mul_ne_zero hm (Nat.two_pow_pos shift).ne') (by decide +kernel)
  rw [ofDecimal, if_neg hpos]
  dsimp only
  rw [if_neg (by omega), if_neg (by omega), if_neg (by omega), Int.neg_neg, Int.toNat_natCast]
  apply ofRatio_exact negative h (Nat.pow_pos (by decide))
  rw [inUnits, Nat.pow_eq, Nat.mul_assoc, ← Nat.mul_pow]

end SceneText.Binary64
