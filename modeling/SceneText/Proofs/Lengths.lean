import Mathlib.Data.List.Basic
import SceneText.Layout.Limit
import SceneText.Layout.Measure

/-!
# Lengths and limits

The length of a text is the sum of what its characters weigh, so that a text with characters left
out is never longer. A limit that a length exceeds is exceeded by every greater length too. Only
what is not a number neither admits a length nor is exceeded by it.
-/

namespace SceneText.Layout

theorem cells_pos (c : Char) : 1 ≤ cells c := by
  rw [cells]
  split <;> omega

namespace Measure

variable (measure : Measure)

def weight : Measure → Char → Nat
  | .chars, _ => 1
  | .cells, c => Layout.cells c

@[simp] theorem length_nil : measure.length [] = 0 := by
  cases measure <;> rfl

theorem length_cons (c : Char) (rest : List Char) :
    measure.length (c :: rest) = measure.weight c + measure.length rest := by
  cases measure with
  | chars => exact Nat.add_comm rest.length 1
  | cells => rfl

theorem length_append (xs ys : List Char) :
    measure.length (xs ++ ys) = measure.length xs + measure.length ys := by
  induction xs with
  | nil => simp
  | cons c xs ih => rw [List.cons_append, length_cons, length_cons, ih, Nat.add_assoc]

theorem length_sublist {xs ys : List Char} (h : xs.Sublist ys) :
    measure.length xs ≤ measure.length ys := by
  induction h with
  | slnil => exact Nat.le_refl _
  | cons c _ ih =>
    rw [length_cons]
    omega
  | cons_cons c _ ih =>
    rw [length_cons, length_cons]
    omega

theorem lengthOf_str (s : String) : measure.lengthOf (.str s) = .ok (measure.length s.toList) := by
  cases measure with
  | chars => exact congrArg Except.ok String.length_toList.symm
  | cells => rfl

end Measure

namespace Limit

theorem isExceededBy_whole (limit : Int) (length : Nat) :
    (Limit.whole limit).isExceededBy length = decide (limit < length) := by
  rw [isExceededBy, compare?, decide_eq_decide, Option.some.injEq, Int.compare_eq_lt]

theorem admits_whole (limit : Int) (length : Nat) :
    (Limit.whole limit).admits length = decide ((length : Int) ≤ limit) := by
  rw [admits, compare?]
  rcases Int.lt_trichotomy limit length with h | h | h
  · rw [Int.compare_eq_lt.mpr h, decide_eq_false (by omega)]
  · rw [Int.compare_eq_eq.mpr h, decide_eq_true (by omega)]
  · rw [Int.compare_eq_gt.mpr h, decide_eq_true (by omega)]

variable {limit : Limit} {m n : Nat}

theorem isExceededBy_mono (hmn : m ≤ n) (h : limit.isExceededBy m = true) :
    limit.isExceededBy n = true := by
  have hcast : (m : Int) ≤ n := Int.ofNat_le.mpr hmn
  cases limit with
  | whole v =>
    rw [isExceededBy_whole, decide_eq_true_iff] at h ⊢
    omega
  | real x =>
    rw [isExceededBy, decide_eq_true_iff, compare?] at h ⊢
    cases x with
    | nan => cases h
    | infinite negative => exact h
    | finite negative coefficient exponent =>
      rw [Binary64.compareInt, Option.some.injEq, Int.compare_eq_lt] at h ⊢
      exact Int.lt_of_lt_of_le h (Int.mul_le_mul_of_nonneg_right hcast (Int.natCast_nonneg _))

theorem isExceededBy_eq_false (h : limit.admits n = true) : limit.isExceededBy n = false := by
  rw [admits] at h
  rw [isExceededBy, decide_eq_false_iff_not]
  intro hlt
  rw [hlt] at h
  cases h

theorem admits_or_nan (h : limit.isExceededBy n = false) :
    limit.admits n = true ∨ limit = .real .nan := by
  rw [isExceededBy, decide_eq_false_iff_not] at h
  rw [admits]
  cases hc : limit.compare? n with
  | some order =>
    cases order with
    | lt => exact absurd hc h
    | eq => exact .inl rfl
    | gt => exact .inl rfl
  | none =>
    cases limit with
    | whole v => cases hc
    | real x =>
      cases x with
      | nan => exact .inr rfl
      | infinite negative => cases hc
      | finite negative coefficient exponent => cases hc

end Limit
end SceneText.Layout
