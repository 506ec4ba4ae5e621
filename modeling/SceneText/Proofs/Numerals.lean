import Mathlib.Algebra.Ring.Nat
import SceneText.Bytes.Hex
import SceneText.Text.Numeral

/-!
# Numerals and hexadecimal text read back

A whole number in its decimal writing and a byte string in spaced pairs are read as what they were
written for. The only limit is the number of digits that a numeral may have.
-/

namespace SceneText.Numeral

open Nat (digitChar toDigits)
open List

theorem decimalDigit_digitChar :
    ∀ d < 10, Text.decimalDigit? (digitChar d) = some d := by decide

theorem digitChar_not_blank : ∀ d < 10, isBlank (digitChar d) = false := by decide

theorem digitChar_no_sign : ∀ d < 10, digitChar d ≠ '-' ∧ digitChar d ≠ '+' := by decide

theorem ofDigits_append (ds : List Nat) (d : Nat) :
    ofDigits (ds ++ [d]) = 10 * ofDigits ds + d := by
  simp [ofDigits, foldl_append]

theorem toDigits_values (n : Nat) :
    ∃ ds : List Nat, toDigits 10 n = ds.map digitChar ∧ (∀ d ∈ ds, d < 10) ∧
      ofDigits ds = n := by
  induction n using Nat.strongRecOn with
  | ind n ih =>
    rw [Nat.toDigits_eq_if (by decide)]
    by_cases hn : n < 10
    · refine ⟨[n], by simp [hn], by simpa using hn, by simp [ofDigits]⟩
    · obtain ⟨ds, hs, hlt, hv⟩ := ih (n / 10) (by omega)
      refine ⟨ds ++ [n % 10], by simp [hn, hs], ?_, ?_⟩
      · exact forall_mem_append.mpr ⟨hlt, forall_mem_singleton.mpr (by omega)⟩
      · rw [ofDigits_append, hv]
        omega

theorem scanDigits_between (ds : List Nat) (hlt : ∀ d ∈ ds, d < 10) :
    scanDigits true (ds.map digitChar) = some (ds, []) := by
  induction ds with
  | nil => rfl
  | cons d ds ih =>
    have hd := hlt d (by simp)
    rw [map_cons, scanDigits, if_neg (Nat.digitChar_ne '_' rfl),
      decimalDigit_digitChar d hd]
    simp [ih fun e he => hlt e (by simp [he])]

theorem scanDigits_start (ds : List Nat) (hlt : ∀ d ∈ ds, d < 10) (hne : ds ≠ []) :
    scanDigits false (ds.map digitChar) = some (ds, []) := by
  cases ds with
  | nil => exact absurd rfl hne
  | cons d ds =>
    have hd := hlt d (by simp)
    rw [map_cons, scanDigits, if_neg (Nat.digitChar_ne '_' rfl),
      decimalDigit_digitChar d hd]
    simp [scanDigits_between ds fun e he => hlt e (by simp [he])]

theorem readUnsigned_toDigits (n : Nat) (hn : n < 10 ^ maxDigits) :
    readUnsigned (toDigits 10 n) = .ok n := by
  obtain ⟨ds, hs, hlt, hv⟩ := toDigits_values n
  have hne : ds ≠ [] := by
    intro h
    have := @Nat.toDigits_ne_nil n 10
    simp [hs, h] at this
  have hlen : ds.length ≤ maxDigits := by
    have := (Nat.length_toDigits_le_iff (by decide) (by decide)).mpr hn
    simpa [hs] using this
  rw [hs, readUnsigned, scanDigits_start ds hlt hne]
  simp [Nat.not_lt.mpr hlen, hv]

theorem toDigits_head (n : Nat) :
    ∃ d rest, d < 10 ∧ toDigits 10 n = digitChar d :: rest := by
  obtain ⟨ds, hs, hlt, -⟩ := toDigits_values n
  cases ds with
  | nil => exact absurd hs Nat.toDigits_ne_nil
  | cons d ds => exact ⟨d, ds.map digitChar, hlt d (by simp), hs⟩

theorem read_toString (v : Int) (hv : v.natAbs < 10 ^ maxDigits) :
    read (toString v).toList = .ok v := by
  cases v with
  | ofNat n =>
    have ht : (toString (Int.ofNat n)).toList = toDigits 10 n := Nat.toList_repr
    obtain ⟨d, rest, hd, hs⟩ := toDigits_head n
    have hr := readUnsigned_toDigits n hv
    rw [hs] at hr
    rw [ht, hs, read, dropWhile_cons_of_neg (by simp [digitChar_not_blank d hd])]
    split
    · next h => exact absurd (cons.inj h).1 (digitChar_no_sign d hd).1
    · next h => exact absurd (cons.inj h).1 (digitChar_no_sign d hd).2
    · rw [hr]
      rfl
  | negSucc n =>
    have ht : (toString (Int.negSucc n)).toList = '-' :: toDigits 10 (n + 1) := by
      change ("-" ++ (n + 1).repr).toList = _
      simp [Nat.toList_repr]
    have hr := readUnsigned_toDigits (n + 1) (by simpa using hv)
    rw [ht, read, dropWhile_cons_of_neg (by decide)]
    change (readUnsigned (toDigits 10 (n + 1))).map (fun m => -(m : Int)) = _
    rw [hr]
    rfl

end SceneText.Numeral

namespace SceneText.Hex

theorem digit_upperDigit : ∀ n < 16, digit? (upperDigit n) = some n := by decide

theorem upperDigit_plain :
    ∀ n < 16, isBlank (upperDigit n) = false ∧ (upperDigit n).toNat < 128 := by decide

theorem halves (b : UInt8) :
    b.toNat / 16 < 16 ∧ b.toNat % 16 < 16 ∧ UInt8.ofNat (b.toNat / 16 * 16 + b.toNat % 16) = b := by
  have hb := b.toNat_lt
  refine ⟨by omega, by omega, ?_⟩
  rw [Nat.div_add_mod' b.toNat 16, UInt8.ofNat_toNat]

theorem readFrom_pair (pos : Nat) (b : UInt8) (rest : List Char) (bytes : List UInt8)
    (hr : readFrom (pos + 2) rest = .ok bytes) :
    readFrom pos (pair b ++ rest) = .ok (b :: bytes) := by
  obtain ⟨hhi, hlo, hb⟩ := halves b
  simp [pair, readFrom, (upperDigit_plain _ hhi).1, digit_upperDigit _ hhi,
    digit_upperDigit _ hlo, hr, hb]

theorem readFrom_spaced (bytes : List UInt8) (pos : Nat) :
    readFrom pos (spacedChars bytes) = .ok bytes := by
  induction bytes generalizing pos with
  | nil => rfl
  | cons b rest ih =>
    cases rest with
    | nil => simpa [spacedChars] using readFrom_pair pos b [] [] rfl
    | cons c rest =>
      have hr : readFrom (pos + 2) (' ' :: spacedChars (c :: rest)) = .ok (c :: rest) := by
        exact ih (pos + 3)
      exact readFrom_pair pos b _ _ hr

theorem spacedChars_ascii (bytes : List UInt8) : ∀ c ∈ spacedChars bytes, c.toNat < 128 := by
  have hpair : ∀ b, ∀ c ∈ pair b, c.toNat < 128 := by
    intro b c hc
    obtain ⟨hhi, hlo, -⟩ := halves b
    rcases List.mem_cons.mp hc with rfl | hc
    · exact (upperDigit_plain _ hhi).2
    · rw [List.mem_singleton.mp hc]
      exact (upperDigit_plain _ hlo).2
  induction bytes with
  | nil => simp [spacedChars]
  | cons b rest ih =>
    cases rest with
    | nil => exact hpair b
    | cons d rest =>
      intro c hc
      simp only [spacedChars, List.mem_append, List.mem_cons] at hc
      rcases hc with hc | rfl | hc
      · exact hpair b c hc
      · decide
      · exact ih c hc

theorem read_spaced (bytes : List UInt8) : read (spaced bytes).toList = .ok bytes := by
  have hnone : (spacedChars bytes).findIdx? (fun c => 128 ≤ c.toNat) = none := by
    rw [List.findIdx?_eq_none_iff]
    intro c hc
    simpa using spacedChars_ascii bytes c hc
  simp [read, spaced, hnone, readFrom_spaced]

end SceneText.Hex
