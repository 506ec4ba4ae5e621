import SceneText.Text.Lines
import SceneText.Text.Utf8

/-!
# Characters in files

Characters written as UTF-8 are read back, and text without carriage returns is read as it stands.
-/

namespace SceneText

open UInt8 (ofNat)

variable {n : Nat}

namespace Utf8

theorem byte_toNat (h : n < 256) : (ofNat n).toNat = n :=
  UInt8.toNat_ofNat_of_lt' h

theorem isTail_byte (h : n < 64) : isTail (ofNat (0x80 + n)) = true := by
  rw [isTail, byte_toNat (by omega)]
  simp
  omega

theorem isSecond_byte {a b : Nat} (ha : a < 256) (hb : b < 64) (he0 : a = 0xe0 → 0x20 ≤ b)
    (hed : a = 0xed → b < 0x20) (hf0 : a = 0xf0 → 0x10 ≤ b) (hf4 : a = 0xf4 → b < 0x10) :
    isSecond (ofNat a) (ofNat (0x80 + b)) = true := by
  have heq : ∀ m, m < 256 → (ofNat a = ofNat m ↔ a = m) := fun m hm => by
    rw [← UInt8.toNat_inj, byte_toNat ha, byte_toNat hm]
  have h0 := heq 0xe0 (by decide)
  have h1 := heq 0xed (by decide)
  have h2 := heq 0xf0 (by decide)
  have h3 := heq 0xf4 (by decide)
  rw [isSecond, isTail_byte hb, byte_toNat (show 0x80 + b < 256 by omega), Bool.true_and]
  split
  · next h => simp only [decide_eq_true_eq]; have := he0 (h0.mp h); omega
  · split
    · next h => simp only [decide_eq_true_eq]; have := hed (h1.mp h); omega
    · split
      · next h => simp only [decide_eq_true_eq]; have := hf0 (h2.mp h); omega
      · split
        · next h => simp only [decide_eq_true_eq]; have := hf4 (h3.mp h); omega
        · rfl

variable {n : Nat} (seen : List Char) (pos : Nat) (rest : List UInt8)

theorem decodeFrom_two (hlow : 0x80 ≤ n) (hhigh : n < 0x800) :
    decodeFrom seen pos (ofNat (0xc0 + n / 64) :: ofNat (0x80 + n % 64) :: rest) =
      decodeFrom (Char.ofNat n :: seen) (pos + 2) rest := by
  have hjoin : join2 (ofNat (0xc0 + n / 64)) (ofNat (0x80 + n % 64)) =
      Char.ofNat n := by
    simp (disch := omega) only [join2, byte_toNat]
    exact congrArg Char.ofNat (by omega)
  rw [decodeFrom, byte_toNat (by omega), if_neg (by omega), if_neg (by simp; omega),
    if_pos (by omega)]
  rw [if_pos (isTail_byte (by omega)), hjoin]

theorem decodeFrom_three (hlow : 0x800 ≤ n) (hhigh : n < 0x10000)
    (hchar : n < 0xd800 ∨ 0xe000 ≤ n) :
    decodeFrom seen pos (ofNat (0xe0 + n / 4096) :: ofNat (0x80 + n / 64 % 64) ::
          ofNat (0x80 + n % 64) :: rest) =
      decodeFrom (Char.ofNat n :: seen) (pos + 3) rest := by
  have hjoin : join3 (ofNat (0xe0 + n / 4096)) (ofNat (0x80 + n / 64 % 64))
      (ofNat (0x80 + n % 64)) = Char.ofNat n := by
    simp (disch := omega) only [join3, byte_toNat]
    exact congrArg Char.ofNat (by omega)
  have hsecond : isSecond (ofNat (0xe0 + n / 4096))
      (ofNat (0x80 + n / 64 % 64)) = true :=
    isSecond_byte (by omega) (by omega) (by omega) (by omega) (by omega) (by omega)
  rw [decodeFrom, byte_toNat (by omega), if_neg (by omega), if_neg (by simp; omega),
    if_neg (by omega), if_pos (by omega)]
  dsimp only
  rw [hsecond, isTail_byte (by omega), hjoin]
  rfl

theorem decodeFrom_four (hlow : 0x10000 ≤ n) (hhigh : n < 0x110000) :
    decodeFrom seen pos (ofNat (0xf0 + n / 262144) :: ofNat (0x80 + n / 4096 % 64) ::
          ofNat (0x80 + n / 64 % 64) :: ofNat (0x80 + n % 64) :: rest) =
      decodeFrom (Char.ofNat n :: seen) (pos + 4) rest := by
  have hjoin : join4 (ofNat (0xf0 + n / 262144)) (ofNat (0x80 + n / 4096 % 64))
      (ofNat (0x80 + n / 64 % 64)) (ofNat (0x80 + n % 64)) = Char.ofNat n := by
    simp (disch := omega) only [join4, byte_toNat]
    exact congrArg Char.ofNat (by omega)
  have hsecond : isSecond (ofNat (0xf0 + n / 262144))
      (ofNat (0x80 + n / 4096 % 64)) = true :=
    isSecond_byte (by omega) (by omega) (by omega) (by omega) (by omega) (by omega)
  rw [decodeFrom, byte_toNat (by omega), if_neg (by omega), if_neg (by simp; omega),
    if_neg (by omega), if_neg (by omega)]
  dsimp only
  rw [hsecond, isTail_byte (by omega), isTail_byte (by omega), hjoin]
  rfl

theorem decodeFrom_encodeChar (c : Char) :
    decodeFrom seen pos (encodeChar c ++ rest) =
      decodeFrom (c :: seen) (pos + (encodeChar c).length) rest := by
  have hrange : c.toNat < 0xd800 ∨ 0xdfff < c.toNat ∧ c.toNat < 0x110000 := c.valid
  have hchar : Char.ofNat c.toNat = c := Char.ofNat_toNat c
  unfold encodeChar
  dsimp only
  generalize c.toNat = n at hrange hchar
  subst hchar
  split
  · rw [List.singleton_append, decodeFrom.eq_def]
    dsimp only
    rw [byte_toNat (by omega), if_pos (by omega)]
    rfl
  · split
    · exact decodeFrom_two seen pos rest (by omega) (by omega)
    · split
      · exact decodeFrom_three seen pos rest (by omega) (by omega) (by omega)
      · exact decodeFrom_four seen pos rest (by omega) (by omega)

theorem decodeFrom_encode (text seen : List Char) (pos : Nat) :
    decodeFrom seen pos (encode text) = .ok (seen.reverse ++ text) := by
  induction text generalizing seen pos with
  | nil => simp [encode, decodeFrom]
  | cons c rest ih =>
    rw [encode, List.flatMap_cons, decodeFrom_encodeChar, ← encode, ih]
    simp

theorem decode_encode (text : List Char) : decode (encode text) = .ok text :=
  decodeFrom_encode text [] 0

end Utf8

theorem Text.plainNewlinesFrom_plain (text seen : List Char) (h : '\r' ∉ text) :
    plainNewlinesFrom seen text = seen.reverse ++ text := by
  induction text generalizing seen with
  | nil => simp [plainNewlinesFrom]
  | cons c rest ih =>
    rw [List.mem_cons, not_or] at h
    rw [plainNewlinesFrom, ih _ h.2]
    · simp
    · exact fun _ hc _ => h.1 hc.symm
    · exact fun hc => h.1 hc.symm

theorem Text.plainNewlines_plain (text : List Char) (h : '\r' ∉ text) : plainNewlines text = text :=
  plainNewlinesFrom_plain text [] h

end SceneText
