import Mathlib.Algebra.Ring.Nat
import SceneText.Bytes.Width

/-!
# Integer fields and their bytes

The bytes of a field and the value they stand for determine each other: a value in range is read
back from its bytes, and bytes of the field's size are the stored form of the value read from them.
-/

namespace SceneText

theorem length_lowBytes (n v : Nat) : (lowBytes n v).length = n := by
  induction n generalizing v with
  | zero => rfl
  | succ n ih => simp [lowBytes, ih]

theorem lowBytes_ofLowBytes (bytes : List UInt8) :
    lowBytes bytes.length (ofLowBytes bytes) = bytes := by
  induction bytes with
  | nil => rfl
  | cons b rest ih =>
    have hb := b.toNat_lt
    have hmod : (b.toNat + 256 * ofLowBytes rest) % 256 = b.toNat := by omega
    have hdiv : (b.toNat + 256 * ofLowBytes rest) / 256 = ofLowBytes rest := by omega
    simp only [List.length_cons, ofLowBytes, lowBytes, hmod, hdiv, ih, UInt8.ofNat_toNat]

theorem ofLowBytes_lt (bytes : List UInt8) : ofLowBytes bytes < 256 ^ bytes.length := by
  induction bytes with
  | nil => simp [ofLowBytes]
  | cons b rest ih =>
    have hb := b.toNat_lt
    rw [ofLowBytes, List.length_cons, Nat.pow_succ]
    omega

theorem ofLowBytes_lowBytes (n v : Nat) (hv : v < 256 ^ n) : ofLowBytes (lowBytes n v) = v := by
  induction n generalizing v with
  | zero => simp only [Nat.pow_zero] at hv; simp [lowBytes, ofLowBytes]; omega
  | succ n ih =>
    have hbyte : (UInt8.ofNat (v % 256)).toNat = v % 256 := by
      rw [UInt8.toNat_ofNat']
      omega
    rw [lowBytes, ofLowBytes, hbyte, ih (v / 256) (by omega)]
    omega

theorem prefix_lowBytes {bytes : List UInt8} {n v : Nat} (hle : bytes.length ≤ n) :
    bytes <+: lowBytes n v ↔ v % 256 ^ bytes.length = ofLowBytes bytes := by
  induction bytes generalizing n v with
  | nil => simp [ofLowBytes, Nat.mod_one]
  | cons b rest ih =>
    obtain ⟨m, rfl⟩ : ∃ m, n = m + 1 := Nat.exists_eq_add_one.mpr (Nat.zero_lt_of_lt hle)
    have hbyte : b = UInt8.ofNat (v % 256) ↔ v % 256 = b.toNat := by
      rw [← UInt8.toNat_inj, UInt8.toNat_ofNat']
      omega
    have hb := b.toNat_lt
    rw [lowBytes, List.cons_prefix_cons, hbyte, ih (Nat.le_of_succ_le_succ hle), List.length_cons,
      Nat.pow_succ', Nat.mod_mul, ofLowBytes]
    omega

theorem length_word32 (n : Nat) : (word32 n).length = 4 :=
  length_lowBytes 4 n

theorem ofLowBytes_word32 {n : Nat} (h : n < 2 ^ 32) : ofLowBytes (word32 n) = n :=
  ofLowBytes_lowBytes 4 n h

namespace Width

theorem count_eq (w : Width) : w.count = 256 ^ w.size := by
  cases w <;> rfl

theorem decode_fits (w : Width) (bytes : List UInt8) (hlen : bytes.length = w.size) :
    w.fits (w.decode bytes) = true := by
  have hlt := ofLowBytes_lt bytes
  rw [hlen, ← count_eq] at hlt
  have heven : w.count / 2 + w.count / 2 = w.count := by cases w <;> rfl
  unfold fits decode least greatest
  cases w.signed with
  | false => simp; omega
  | true =>
    by_cases hhalf : w.count / 2 ≤ ofLowBytes bytes
    · simp [hhalf]; omega
    · simp [hhalf]; omega

theorem encode_decode (w : Width) (bytes : List UInt8) (hlen : bytes.length = w.size) :
    w.encode .little (w.decode bytes) = bytes := by
  have hlt := ofLowBytes_lt bytes
  rw [hlen, ← count_eq] at hlt
  have hraw : (w.decode bytes % (w.count : Int)).toNat = ofLowBytes bytes := by
    rw [decode]
    split
    · rw [Int.sub_emod_right, Int.emod_eq_of_lt (by omega) (by omega)]
      rfl
    · rw [Int.emod_eq_of_lt (by omega) (by omega)]
      rfl
  rw [encode, hraw, ← hlen]
  exact lowBytes_ofLowBytes bytes

theorem natAbs_lt_of_fits (w : Width) (v : Int) (hv : w.fits v = true) : v.natAbs < 2 ^ 32 := by
  cases w <;> simp [fits, least, greatest, signed, count] at hv <;> omega

theorem nat_of_fits {w : Width} {v : Int} (hw : w.signed = false) (hv : w.fits v = true) :
    ∃ n : Nat, v = n ∧ n < w.count := by
  simp only [fits, least, greatest, hw, Bool.false_eq_true, if_false, Bool.and_eq_true,
    decide_eq_true_eq] at hv
  exact ⟨v.toNat, by omega, by omega⟩

theorem fits_nat {w : Width} {n : Nat} (hw : w.signed = false) : w.fits n = true ↔ n < w.count := by
  simp only [fits, least, greatest, hw, Bool.false_eq_true, if_false, Bool.and_eq_true,
    decide_eq_true_eq]
  omega

theorem encode_u8 (n : Nat) (hn : n < 2 ^ 8) : encode .u8 .little n = [UInt8.ofNat n] := by
  have h : ((n : Int) % 256).toNat % 256 = n := by omega
  exact congrArg (fun m => [UInt8.ofNat m]) h

theorem encode_u32 (n : Nat) (hn : n < 2 ^ 32) : encode .u32 .little n = word32 n := by
  have h : ((n : Int) % ((2 : Int) ^ 32)).toNat = n := by omega
  simpa [encode, word32, size, count] using congrArg (lowBytes 4) h

theorem length_encode (w : Width) (v : Int) : (w.encode .little v).length = w.size :=
  length_lowBytes _ _

end Width
end SceneText
