import Mathlib.Data.List.TakeWhile
import SceneText.Json.Reader
import SceneText.Json.Writer
import SceneText.Proofs.Numerals
import SceneText.Proofs.Rounding

/-!
# Texts and numbers of documents read back

A text is read back from its quoted form, a whole or real number from its digits, and the words from
themselves, each in front of whatever may follow it in a document.
-/

namespace SceneText.Json

open List Option Binary64
open Nat (digitChar toDigits)

variable {rest text tail digits : List Char} {p : Char → Bool} {c : Char}
  {r : NumberToken × Nat × List Char}

theorem paddedLower_control : ∀ n < 32, (Hex.paddedLower 4 n).toList =
      ['0', '0', digitChar (n / 16), digitChar (n % 16)] ∧
    hex4? '0' '0' (digitChar (n / 16)) (digitChar (n % 16)) = some n := by decide

theorem readUnits_escapedChar (start : Nat) (seen : List Nat) (pos : Nat) (c : Char)
    (rest : List Char) (hrest : rest ≠ []) :
    ∃ pos', readUnits start seen pos (escapedChar c ++ rest) =
      readUnits start (c.toNat :: seen) pos' rest := by
  have hchar : ∀ n, c.toNat = n → Char.ofNat n = c := fun n h => h ▸ Char.ofNat_toNat c
  unfold escapedChar
  split
  · next h => exact ⟨pos + 2, by rw [h]; rfl⟩
  split
  · next h => exact ⟨pos + 2, by rw [h]; rfl⟩
  split
  · next h => exact ⟨pos + 2, by rw [h]; rfl⟩
  split
  · next h => exact ⟨pos + 2, by rw [h]; rfl⟩
  split
  · next h => exact ⟨pos + 2, by rw [h]; rfl⟩
  split
  · next h => exact ⟨pos + 2, by rw [← hchar 8 h]; rfl⟩
  split
  · next h => exact ⟨pos + 2, by rw [← hchar 12 h]; rfl⟩
  split
  · next h =>
    obtain ⟨hpad, hhex⟩ := paddedLower_control c.toNat h
    have hmore : rest.isEmpty = false := by simpa using hrest
    refine ⟨pos + 6, ?_⟩
    rw [hpad]
    simp only [cons_append, nil_append, readUnits, hhex, hmore]
  · next hquote hslash _ _ _ _ _ hctl =>
    refine ⟨pos + 1, ?_⟩
    rw [singleton_append, readUnits, if_neg hctl]
    · exact hquote
    all_goals
      intros
      contradiction

theorem readUnits_text (start : Nat) (seen : List Nat) (pos : Nat) (text rest : List Char) :
    ∃ pos', readUnits start seen pos (text.flatMap escapedChar ++ '"' :: rest) =
      .ok (seen.reverse ++ text.map Char.toNat, pos', rest) := by
  induction text generalizing seen pos with
  | nil => exact ⟨pos + 1, by simp [readUnits]⟩
  | cons c text ih =>
    rw [flatMap_cons, append_assoc]
    obtain ⟨pos₁, h₁⟩ := readUnits_escapedChar start seen pos c
      (text.flatMap escapedChar ++ '"' :: rest) (by simp)
    obtain ⟨pos₂, h₂⟩ := ih (c.toNat :: seen) pos₁
    exact ⟨pos₂, by rw [h₁, h₂]; simp⟩

theorem joinUnits_chars (text : List Char) : joinUnits (text.map Char.toNat) = some text := by
  induction text with
  | nil => rfl
  | cons c rest ih =>
    have hvalid : c.toNat < 0xd800 ∨ 0xdfff < c.toNat ∧ c.toNat < 0x110000 := c.valid
    have hhigh : isHighSurrogate c.toNat = false := by
      simp [isHighSurrogate]
      omega
    have hlow : isLowSurrogate c.toNat = false := by
      simp [isLowSurrogate]
      omega
    rw [map_cons, joinUnits.eq_def]
    simp [hhigh, hlow, ih]

theorem readText_text (start : Nat) (s : String) (rest : List Char) :
    ∃ pos, readText start (s.toList.flatMap escapedChar ++ '"' :: rest) = .ok (s, pos, rest) := by
  obtain ⟨pos, h⟩ := readUnits_text start [] (start + 1) s.toList rest
  refine ⟨pos, ?_⟩
  simp [readText, h, joinUnits_chars]

/-- What may follow a number: nothing, or a character that no number goes on with. -/
def Ends (rest : List Char) : Prop :=
  ∀ c ∈ rest.head?, c = ',' ∨ c = '\n' ∨ c = '\r'

theorem Ends.not_digit (h : Ends rest) : ∀ c ∈ rest.head?, isDigit c = false := by
  intro c hc
  rcases h c hc with rfl | rfl | rfl <;> decide

theorem takeWhile_append_of_head (text : List Char) (h : ∀ c ∈ rest.head?, p c = false) :
    (text ++ rest).takeWhile p = text.takeWhile p ∧
      (text ++ rest).dropWhile p = text.dropWhile p ++ rest := by
  induction text with
  | nil =>
    cases rest with
    | nil => exact ⟨rfl, rfl⟩
    | cons c rest => simp [h c rfl]
  | cons c text ih =>
    by_cases hc : p c = true
    · simp [hc, ih]
    · simp [hc]

theorem scanFraction_other (hc : c ≠ '.') (rest : List Char) :
    scanFraction (c :: rest) = (none, c :: rest) := by
  rw [scanFraction]
  intro d more h
  exact absurd (List.cons.inj h).1 hc

theorem scanFraction_append (text : List Char) (h : Ends rest) :
    scanFraction (text ++ rest) = ((scanFraction text).1, (scanFraction text).2 ++ rest) := by
  have hother : ∀ c ∈ rest.head?, c ≠ '.' := by
    intro c hc
    rcases h c hc with rfl | rfl | rfl <;> decide
  cases text with
  | nil =>
    cases rest with
    | nil => rfl
    | cons c rest => exact scanFraction_other (hother c rfl) rest
  | cons c text =>
    by_cases hc : c = '.'
    · subst hc
      cases text with
      | nil =>
        cases rest with
        | nil => rfl
        | cons d rest => simp [scanFraction, h.not_digit d rfl]
      | cons d text =>
        obtain ⟨htake, hdrop⟩ := takeWhile_append_of_head text h.not_digit
        by_cases hd : isDigit d = true
        · simp [scanFraction, hd, htake, hdrop]
        · simp [scanFraction, hd]
    · rw [cons_append, scanFraction_other hc, scanFraction_other hc, cons_append]

theorem signOf_other (plus : Bool) (hminus : c ≠ '-') (hplus : c ≠ '+') (rest : List Char) :
    signOf plus (c :: rest) = (false, 0, c :: rest) := by
  unfold signOf
  split
  · next h => exact absurd (List.cons.inj h).1 hminus
  · next h => exact absurd (List.cons.inj h).1 hplus
  · rfl

theorem signOf_append (plus : Bool) (text : List Char) (h : Ends rest) :
    signOf plus (text ++ rest) =
      ((signOf plus text).1, (signOf plus text).2.1, (signOf plus text).2.2 ++ rest) := by
  cases text with
  | nil =>
    cases rest with
    | nil => rfl
    | cons c rest =>
      have hc : c ≠ '-' ∧ c ≠ '+' := by rcases h c rfl with rfl | rfl | rfl <;> decide
      exact signOf_other plus hc.1 hc.2 rest
  | cons c text =>
    by_cases hminus : c = '-'
    · subst hminus
      rfl
    · by_cases hplus : c = '+'
      · subst hplus
        cases plus <;> rfl
      · rw [cons_append, signOf_other plus hminus hplus, signOf_other plus hminus hplus,
          cons_append]

theorem scanExponent_other (hc : ¬(c = 'e' ∨ c = 'E')) (rest : List Char) :
    scanExponent (c :: rest) = (none, c :: rest) := by
  simp only [scanExponent, if_neg hc]

theorem scanExponent_append (text : List Char) (h : Ends rest) :
    scanExponent (text ++ rest) = ((scanExponent text).1, (scanExponent text).2 ++ rest) := by
  cases text with
  | nil =>
    cases rest with
    | nil => rfl
    | cons c rest =>
      have hc : ¬(c = 'e' ∨ c = 'E') := by rcases h c rfl with rfl | rfl | rfl <;> decide
      exact scanExponent_other hc rest
  | cons e text =>
    by_cases he : e = 'e' ∨ e = 'E'
    · obtain ⟨htake, hdrop⟩ := takeWhile_append_of_head (signOf true text).2.2 h.not_digit
      simp only [cons_append, scanExponent, if_pos he, signOf_append true text h, htake, hdrop]
      split <;> rfl
    · rw [cons_append, scanExponent_other he, scanExponent_other he, cons_append]

theorem scanNumber_eq (text : List Char) :
    scanNumber text = numberIn (signOf false text).1 (signOf false text).2.1
      (digitsOf (signOf false text).2.2).1 (digitsOf (signOf false text).2.2).2 :=
  rfl

theorem digitsOf_other (hc : c ≠ '0') (rest : List Char) :
    digitsOf (c :: rest) = ((c :: rest).takeWhile isDigit, (c :: rest).dropWhile isDigit) := by
  unfold digitsOf
  split
  · next h => exact absurd (List.cons.inj h).1 hc
  · rfl

theorem digitsOf_append (text : List Char) (h : ∀ c ∈ rest.head?, isDigit c = false) :
    digitsOf (text ++ rest) = ((digitsOf text).1, (digitsOf text).2 ++ rest) := by
  cases text with
  | nil =>
    cases rest with
    | nil => rfl
    | cons c rest =>
      have hc : c ≠ '0' := fun hzero => by simpa [hzero, isDigit] using h c rfl
      rw [nil_append, digitsOf_other hc]
      simp [h c rfl, digitsOf]
  | cons c text =>
    by_cases hc : c = '0'
    · subst hc
      rfl
    · obtain ⟨htake, hdrop⟩ := takeWhile_append_of_head (c :: text) h
      rw [cons_append] at htake hdrop
      rw [cons_append, digitsOf_other hc, digitsOf_other hc, htake, hdrop]

theorem scanNumber_append (text : List Char) (h : Ends rest) :
    scanNumber (text ++ rest) = (scanNumber text).map fun r => (r.1, r.2.1, r.2.2 ++ rest) := by
  simp only [scanNumber_eq, signOf_append false text h, digitsOf_append _ h.not_digit, numberIn,
    scanFraction_append _ h, scanExponent_append _ h]
  split
  · rfl
  · split <;> rfl

theorem scanNumber_head (h : scanNumber text = some r) :
    ∃ c rest, isDigit c = true ∧ (text = c :: rest ∨ text = '-' :: c :: rest) := by
  have hdigits : ∀ body, (digitsOf body).1 ≠ [] →
      ∃ c rest, isDigit c = true ∧ body = c :: rest := by
    intro body hne
    cases body with
    | nil => exact absurd rfl hne
    | cons c rest =>
      refine ⟨c, rest, ?_, rfl⟩
      by_cases hc : c = '0'
      · subst hc
        decide
      · rw [digitsOf_other hc] at hne
        by_cases hd : isDigit c = true
        · exact hd
        · simp [hd] at hne
  have hsome : (digitsOf (signOf false text).2.2).1 ≠ [] := by
    intro hnil
    simp [scanNumber_eq, numberIn, hnil] at h
  obtain ⟨c, rest, hc, hbody⟩ := hdigits _ hsome
  refine ⟨c, rest, hc, ?_⟩
  unfold signOf at hbody
  split at hbody
  · exact .inr (congrArg _ hbody)
  · exact .inl hbody
  · exact .inl hbody

theorem words_head : ∀ w ∈ words, ∃ a as, w.1 = a :: as ∧ isDigit a = false ∧
    (a = '-' → as.head? = some 'I') := by
  intro w hw
  simp only [words, mem_cons, not_mem_nil, or_false] at hw
  rcases hw with rfl | rfl | rfl | rfl | rfl | rfl
  all_goals exact ⟨_, _, rfl, by decide, by decide⟩

theorem words_of_number (h : scanNumber text = some r) (rest : List Char) :
    (words.find? fun w => w.1.isPrefixOf (text ++ rest)) = none := by
  obtain ⟨c, more, hc, htext⟩ := scanNumber_head h
  rw [find?_eq_none]
  intro w hw hhead
  obtain ⟨a, as, hword, ha, hminus⟩ := words_head w hw
  rw [hword] at hhead
  rcases htext with rfl | rfl
  · simp only [cons_append, isPrefixOf_cons_cons, Bool.and_eq_true, beq_iff_eq] at hhead
    rw [hhead.1, hc] at ha
    cases ha
  · simp only [cons_append, isPrefixOf_cons_cons, Bool.and_eq_true, beq_iff_eq] at hhead
    obtain ⟨hsign, hhead⟩ := hhead
    cases as with
    | nil => cases hminus hsign
    | cons b bs =>
      have hb : b = 'I' := some.inj (hminus hsign)
      simp only [isPrefixOf_cons_cons, Bool.and_eq_true, beq_iff_eq] at hhead
      rw [← hhead.1, hb] at hc
      revert hc
      decide

theorem isDigit_digitChar : ∀ d < 10, isDigit (digitChar d) = true := by decide

theorem toDigits_isDigit (n : Nat) : ∀ c ∈ toDigits 10 n, isDigit c = true := by
  obtain ⟨ds, hs, hlt, -⟩ := Numeral.toDigits_values n
  intro c hc
  rw [hs] at hc
  obtain ⟨d, hd, rfl⟩ := mem_map.mp hc
  exact isDigit_digitChar d (hlt d hd)

theorem digitChar_ne_zero : ∀ d < 10, d ≠ 0 → digitChar d ≠ '0' := by decide

theorem toDigits_head_ne (n : Nat) (hn : n ≠ 0) : (toDigits 10 n).head? ≠ some '0' := by
  induction n using Nat.strongRecOn with
  | ind n ih =>
    rw [Nat.toDigits_eq_if (by decide)]
    split
    · next hlt => simpa using digitChar_ne_zero n hlt hn
    · next hge =>
      have h := ih (n / 10) (by omega) (by omega)
      obtain ⟨c, rest, hcs⟩ := exists_cons_of_ne_nil (@Nat.toDigits_ne_nil (n / 10) 10)
      rw [hcs] at h ⊢
      exact h

theorem digitsOf_toDigits (n : Nat) (h : ∀ c ∈ tail.head?, isDigit c = false) :
    digitsOf (toDigits 10 n ++ tail) = (toDigits 10 n, tail) := by
  rw [digitsOf_append _ h]
  by_cases hn : n = 0
  · subst hn
    rfl
  · have hhead := toDigits_head_ne n hn
    have hall := toDigits_isDigit n
    obtain ⟨c, rest, hcs⟩ := exists_cons_of_ne_nil (@Nat.toDigits_ne_nil n 10)
    rw [hcs] at hhead hall ⊢
    have hc : c ≠ '0' := fun h => hhead (congrArg some h)
    rw [digitsOf_other hc, takeWhile_eq_self_iff.mpr hall, dropWhile_eq_nil_iff.mpr hall,
      nil_append]

theorem signOf_signed (plus negative : Bool) (n : Nat) (tail : List Char) :
    ∃ signs, signOf plus (signed negative (toDigits 10 n ++ tail)) =
      (negative, signs, toDigits 10 n ++ tail) := by
  cases negative with
  | true => exact ⟨1, rfl⟩
  | false =>
    obtain ⟨d, rest, hd, hs⟩ := Numeral.toDigits_head n
    obtain ⟨hminus, hplus⟩ := Numeral.digitChar_no_sign d hd
    refine ⟨0, ?_⟩
    rw [hs, cons_append]
    exact signOf_other plus hminus hplus (rest ++ tail)

theorem scanNumber_signed (negative : Bool) (n : Nat) (h : ∀ c ∈ tail.head?, isDigit c = false) :
    ∃ signs, scanNumber (signed negative (toDigits 10 n ++ tail)) =
      numberIn negative signs (toDigits 10 n) tail := by
  obtain ⟨signs, hsign⟩ := signOf_signed false negative n tail
  refine ⟨signs, ?_⟩
  rw [scanNumber_eq, hsign, digitsOf_toDigits n h]

theorem toString_signed (v : Int) :
    (toString v).toList = signed (decide (v < 0)) (toDigits 10 v.natAbs) := by
  cases v with
  | ofNat n =>
    rw [decide_eq_false (by simp)]
    exact Nat.toList_repr
  | negSucc n =>
    change ("-" ++ (n + 1).repr).toList = _
    simp [signed, Nat.toList_repr]

theorem natOf_toDigits (n : Nat) : natOf (toDigits 10 n) = n :=
  Nat.ofDigitChars_ten_toDigits

theorem signed_natAbs (v : Int) :
    (if decide (v < 0) = true then -(v.natAbs : Int) else v.natAbs) = v := by
  split <;> grind

theorem numberIn_whole (negative : Bool) (signs : Nat) (h : digits ≠ []) :
    numberIn negative signs digits [] =
      some (.whole negative digits, signs + digits.length, []) := by
  simp [numberIn, h, scanFraction, scanExponent]

theorem numberIn_power (negative : Bool) (signs : Nat) (h : digits ≠ []) {power : Int} {width : Nat}
    (hpower : scanExponent ('e' :: tail) = (some (power, width), [])) :
    numberIn negative signs digits ('e' :: tail) =
      some (.real (.ofDecimal negative (natOf digits) power), signs + digits.length + width,
        []) := by
  simp [numberIn, h, scanFraction_other, hpower]

theorem scanNumber_toString (v : Int) :
    ∃ width, scanNumber (toString v).toList =
      some (.whole (decide (v < 0)) (toDigits 10 v.natAbs), width, []) := by
  obtain ⟨signs, hscan⟩ := @scanNumber_signed [] (decide (v < 0)) v.natAbs (by simp)
  rw [append_nil, ← toString_signed] at hscan
  exact ⟨_, hscan.trans (numberIn_whole _ _ Nat.toDigits_ne_nil)⟩

theorem scanExponent_toString (v : Int) :
    ∃ width, scanExponent ('e' :: (toString v).toList) = (some (v, width), []) := by
  obtain ⟨signs, hsign⟩ := signOf_signed true (decide (v < 0)) v.natAbs []
  have hall := toDigits_isDigit v.natAbs
  rw [append_nil, ← toString_signed] at hsign
  refine ⟨1 + signs + (toDigits 10 v.natAbs).length, ?_⟩
  simp only [scanExponent, true_or, if_true, hsign, takeWhile_eq_self_iff.mpr hall,
    dropWhile_eq_nil_iff.mpr hall, natOf_toDigits, signed_natAbs]
  rw [if_neg (by simp)]

theorem readScalar_int (v : Int) (hv : v.natAbs < 10 ^ maxDigits) (pos : Nat) (h : Ends rest) :
    ∃ pos', readScalar pos ((toString v).toList ++ rest) = .ok (.int v, pos', rest) := by
  obtain ⟨width, hscan⟩ := scanNumber_toString v
  have hlen : ¬maxDigits < (toDigits 10 v.natAbs).length :=
    Nat.not_lt.mpr ((Nat.length_toDigits_le_iff (by decide) (by decide)).mpr hv)
  refine ⟨pos + width, ?_⟩
  simp only [readScalar, words_of_number hscan, scanNumber_append _ h, hscan, map_some,
    if_neg hlen, natOf_toDigits, signed_natAbs, nil_append]

theorem Real.normal (x : Real) {negative : Bool} {m : Nat} {e : Int}
    (hx : x.value = .finite negative m e) :
    ∃ shift : Nat, e = leastExponent + shift ∧ Normal m shift := by
  obtain ⟨value, named⟩ := x
  cases named with
  | nan => cases hx
  | infinite => cases hx
  | decimal sign digits power =>
    rcases ofDecimal_cases sign digits power with hcase | ⟨m', shift, hcase, hnormal⟩
    · cases hcase.symm.trans hx
    · cases hcase.symm.trans hx
      exact ⟨shift, rfl, hnormal⟩

theorem Real.value_ofDecimal (negative : Bool) (digits : Nat) (power : Int) :
    (Real.ofDecimal negative digits power).value = .ofDecimal negative digits power := rfl

theorem scanNumber_exactForm (negative : Bool) (m : Nat) (e : Int) :
    ∃ width, scanNumber (exactForm negative m e) =
      some (.real (.ofDecimal negative (exactDigits m e) (-unitPower)), width, []) := by
  obtain ⟨width, hpower⟩ := scanExponent_toString (-unitPower)
  obtain ⟨signs, hscan⟩ := @scanNumber_signed ('e' :: (toString (-unitPower : Int)).toList)
    negative (exactDigits m e) (by simp [isDigit])
  rw [numberIn_power negative signs Nat.toDigits_ne_nil hpower, natOf_toDigits] at hscan
  exact ⟨_, hscan⟩

/-- A finite real is read back from what is written for it. -/
theorem scanNumber_writeReal (x : Real) {negative : Bool} {m : Nat} {e : Int}
    (hx : x.value = .finite negative m e) :
    ∃ width, scanNumber (writeReal x.value) = some (.real x, width, []) := by
  rw [hx, writeReal]
  cases hfind : (shortForms negative m e).find? (readsBack (.finite negative m e)) with
  | some text =>
    have hback := find?_some hfind
    unfold readsBack at hback
    split at hback
    · next y width hscan =>
      have hxy : y = x := Real.ext ((of_decide_eq_true hback).trans hx.symm)
      exact ⟨width, hxy ▸ hscan⟩
    · cases hback
  | none =>
    obtain ⟨shift, rfl, hnormal⟩ := x.normal hx
    obtain ⟨width, hscan⟩ := scanNumber_exactForm negative m (leastExponent + shift)
    have hexact : Real.ofDecimal negative (exactDigits m (leastExponent + shift)) (-unitPower) =
        x := by
      ext1
      rw [Real.value_ofDecimal, ofDecimal_exact negative hnormal, hx]
    exact ⟨width, hexact ▸ hscan⟩

theorem readScalar_word {word : List Char} {v : Json} (pos : Nat) (rest : List Char)
    (h : (words.find? fun w => w.1.isPrefixOf (word ++ rest)) = some (word, v)) :
    ∃ pos', readScalar pos (word ++ rest) = .ok (v, pos', rest) := by
  refine ⟨pos + word.length, ?_⟩
  rw [readScalar, h]
  simp

theorem readScalar_real (x : Real) (pos : Nat) (h : Ends rest) :
    ∃ pos', readScalar pos (writeReal x.value ++ rest) = .ok (.real x, pos', rest) := by
  obtain ⟨value, named⟩ := x
  cases value with
  | nan => exact readScalar_word pos rest rfl
  | infinite negative => cases negative <;> exact readScalar_word pos rest rfl
  | finite negative m e =>
    obtain ⟨width, hscan⟩ := scanNumber_writeReal ⟨_, named⟩ rfl
    refine ⟨pos + width, ?_⟩
    simp only [readScalar, words_of_number hscan, scanNumber_append _ h, hscan, map_some,
      nil_append]

theorem return_not_mem_number {token : NumberToken} {width : Nat}
    (h : scanNumber text = some (token, width, [])) : '\r' ∉ text := by
  intro hmem
  -- The scan would stop in front of the return.
  obtain ⟨front, back, rfl⟩ := append_of_mem hmem
  rw [scanNumber_append front (by simp [Ends]), map_eq_some_iff] at h
  obtain ⟨r, -, hr⟩ := h
  simp at hr

theorem return_not_mem_real (x : Real) : '\r' ∉ writeReal x.value := by
  obtain ⟨value, named⟩ := x
  cases value with
  | nan => exact (by decide : '\r' ∉ "NaN".toList)
  | infinite negative =>
    exact (by decide : ∀ b, '\r' ∉ (if b then "-Infinity" else "Infinity").toList) negative
  | finite negative m e =>
    obtain ⟨width, hscan⟩ := scanNumber_writeReal ⟨_, named⟩ rfl
    exact return_not_mem_number hscan

end SceneText.Json
