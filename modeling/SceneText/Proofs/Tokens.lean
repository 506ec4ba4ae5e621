import Mathlib.Algebra.Order.Floor.Div
import Mathlib.GroupTheory.GroupAction.Ring
import SceneText.Proofs.Container

/-!
# Tokens of packed data

Packed data is a size and tokens. A literal stands for its own bytes, a reference for bytes that
have been produced before it, copied one by one so that a copy may run into itself. Data is unpacked
to what its tokens stand for, whatever comes behind them; packing puts one literal for every 128
bytes.
-/

namespace SceneText.Lz

open List
open UInt8 (ofNat)

variable {distance size : Nat} {out : List UInt8}

/-- Bytes as they are, or a number of bytes from so far back. -/
inductive Token
  | literal (bytes : List UInt8) (nonempty : 1 ≤ bytes.length) (short : bytes.length ≤ 128)
  | reference (distance count : Nat) (near : 1 ≤ distance ∧ distance ≤ 1024)
      (few : 1 ≤ count ∧ count ≤ 32)

def copied (distance : Nat) : Nat → List UInt8 → List UInt8
  | 0, out => out
  | count + 1, out => copied distance count (out ++ out[out.length - distance]?.toList)

namespace Token

/-- A literal is a length less one and its bytes. A reference has ten bits for the distance less one
and five for the count less one, behind a bit that is set. -/
def encode : Token → List UInt8
  | literal bytes _ _ => ofNat (bytes.length - 1) :: bytes
  | reference distance count _ _ =>
    [ofNat (0x80 ||| (distance - 1) >>> 3),
     ofNat (((distance - 1) &&& 7) <<< 5 ||| (count - 1))]

def extend (out : List UInt8) : Token → List UInt8
  | literal bytes _ _ => out ++ bytes
  | reference distance count _ _ => copied distance count out

def reach : Token → Nat
  | literal _ _ _ => 0
  | reference distance _ _ _ => distance

end Token

/-- What tokens stand for, behind an output that is there already. -/
def expand (out : List UInt8) (tokens : List Token) : List UInt8 :=
  tokens.foldl Token.extend out

def Backed : List UInt8 → List Token → Prop
  | _, [] => True
  | out, token :: rest => token.reach ≤ out.length ∧ Backed (token.extend out) rest

theorem length_copied (hpos : 1 ≤ distance) (count : Nat) (hback : distance ≤ out.length) :
    (copied distance count out).length = out.length + count := by
  induction count generalizing out with
  | zero => rfl
  | succ count ih =>
    have hbyte := getElem?_eq_getElem (show out.length - distance < out.length by omega)
    rw [copied, hbyte, Option.toList_some, ih (by rw [length_append]; omega),
      length_append, length_singleton]
    omega

theorem copyBack_eq (hpos : 1 ≤ distance) (count : Nat) (hback : distance ≤ out.length)
    (hroom : out.length + count ≤ size) :
    copyBack size distance count out.toArray = .ok (copied distance count out).toArray := by
  induction count generalizing out with
  | zero => rfl
  | succ count ih =>
    have hbyte := getElem?_eq_getElem (show out.length - distance < out.length by omega)
    rw [copyBack, if_neg (by rw [size_toArray]; omega), lookBack, size_toArray,
      if_pos hback, getElem?_toArray, hbyte]
    dsimp only
    rw [push_toArray, ih (by rw [length_append]; omega)
      (by rw [length_append, length_singleton]; omega), copied, hbyte, Option.toList_some]

theorem control_reference (h : distance ≤ 1024) :
    (ofNat (0x80 ||| (distance - 1) >>> 3)).toNat = 128 + (distance - 1) / 8 := by
  have hhigh : (distance - 1) / 8 < 2 ^ 7 := by omega
  have hor := Nat.two_pow_add_eq_or_of_lt hhigh 1
  rw [Nat.shiftRight_eq_div_pow, show 0x80 ||| (distance - 1) / 2 ^ 3 = _ from hor.symm]
  exact UInt8.toNat_ofNat_of_lt' (by simp [UInt8.size]; omega)

theorem low_reference {count : Nat} (h : count ≤ 32) (distance : Nat) :
    (ofNat (((distance - 1) &&& 7) <<< 5 ||| (count - 1))).toNat =
      (distance - 1) % 8 * 32 + (count - 1) := by
  have hcount : count - 1 < 2 ^ 5 := by omega
  have hmod : (distance - 1) &&& 7 = (distance - 1) % 8 := Nat.and_two_pow_sub_one_eq_mod _ 3
  rw [← Nat.shiftLeft_add_eq_or_of_lt hcount, hmod, Nat.shiftLeft_eq]
  exact UInt8.toNat_ofNat_of_lt' (by simp [UInt8.size]; omega)

theorem unpackInto_reference {count : Nat} (near : 1 ≤ distance ∧ distance ≤ 1024)
    (few : 1 ≤ count ∧ count ≤ 32) (hback : distance ≤ out.length)
    (hroom : out.length + count ≤ size) (rest : List UInt8) :
    unpackInto size out.toArray ((Token.reference distance count near few).encode ++ rest) =
      unpackInto size (copied distance count out).toArray rest := by
  have hcontrol := control_reference near.2
  have hlow := low_reference few.2 distance
  have hdistance : distanceOf (ofNat (0x80 ||| (distance - 1) >>> 3))
      (ofNat (((distance - 1) &&& 7) <<< 5 ||| (count - 1))) = distance := by
    rw [distanceOf, hcontrol, hlow]
    omega
  have hcount : countOf (ofNat (((distance - 1) &&& 7) <<< 5 ||| (count - 1))) = count := by
    rw [countOf, hlow]
    omega
  rw [unpackInto.eq_def, if_neg (by rw [size_toArray]; omega)]
  dsimp only [Token.encode, cons_append, nil_append]
  rw [if_pos (by omega), hdistance, hcount, copyBack_eq near.1 count hback hroom]

theorem length_extend (token : Token) (h : token.reach ≤ out.length) :
    out.length < (token.extend out).length := by
  cases token with
  | literal bytes nonempty short =>
    rw [Token.extend, length_append]
    omega
  | reference distance count near few =>
    rw [Token.extend, length_copied near.1 count h]
    omega

theorem length_expand {tokens : List Token} (h : Backed out tokens) :
    out.length ≤ (expand out tokens).length := by
  induction tokens generalizing out with
  | nil => exact Nat.le_refl _
  | cons token tokens ih => exact Nat.le_trans (Nat.le_of_lt (length_extend token h.1)) (ih h.2)

theorem unpackInto_token (token : Token) (hreach : token.reach ≤ out.length)
    (hroom : (token.extend out).length ≤ size) (rest : List UInt8) :
    unpackInto size out.toArray (token.encode ++ rest) =
      unpackInto size (token.extend out).toArray rest := by
  cases token with
  | literal bytes nonempty short =>
    rw [Token.extend, length_append] at hroom
    rw [Token.encode, cons_append, unpackInto_literal nonempty short
      (by rw [size_toArray]; omega), append_toArray, Token.extend]
  | reference distance count near few =>
    rw [Token.extend, length_copied near.1 count hreach] at hroom
    exact unpackInto_reference near few hreach hroom rest

theorem unpackInto_tokens {tokens : List Token} (hbacked : Backed out tokens)
    (hsize : (expand out tokens).length = size) (rest : List UInt8) :
    unpackInto size out.toArray (tokens.flatMap Token.encode ++ rest) =
      .ok (some (expand out tokens)) := by
  induction tokens generalizing out with
  | nil =>
    have hfull : size ≤ out.toArray.size := Nat.le_of_eq hsize.symm
    rw [unpackInto.eq_def, if_pos hfull]
    rfl
  | cons token tokens ih =>
    have hroom : (token.extend out).length ≤ size := hsize ▸ length_expand hbacked.2
    rw [flatMap_cons, append_assoc, unpackInto_token token hbacked.1 hroom]
    exact ih hbacked.2 hsize

/-- Data whose tokens reach back to nothing but bytes before them is unpacked to what they stand
for, whatever follows. -/
theorem unpack_tokens {tokens : List Token} (hbacked : Backed [] tokens)
    (hpos : 1 ≤ (expand [] tokens).length) (hsmall : (expand [] tokens).length < 2 ^ 32)
    (rest : List UInt8) :
    unpack (word32 (expand [] tokens).length ++ tokens.flatMap Token.encode ++ rest) =
      .ok (some (expand [] tokens)) := by
  rw [List.append_assoc, unpack_sized hsmall (by omega)]
  exact unpackInto_tokens hbacked rfl rest

def echoTokens : List Token :=
  [.literal [1, 2, 3, 4, 5, 6, 7, 8, 9, 10] (by decide) (by decide),
   .reference 10 13 (by decide) (by decide)]

theorem unpack_tokens_echo :
    unpack [23, 0, 0, 0, 9, 1, 2, 3, 4, 5, 6, 7, 8, 9, 10, 0x81, 0x2c, 0xff] =
      .ok (some [1, 2, 3, 4, 5, 6, 7, 8, 9, 10, 1, 2, 3, 4, 5, 6, 7, 8, 9, 10, 1, 2, 3]) :=
  unpack_tokens (show Backed [] echoTokens from ⟨by decide, by decide, trivial⟩) (by decide)
    (by decide) [0xff]

theorem length_literals (data : List UInt8) :
    (literals data).length = data.length + data.length ⌈/⌉ 128 := by
  induction hn : data.length using Nat.strongRecOn generalizing data with
  | ind n ih =>
    by_cases hd : data = []
    · subst hd
      subst hn
      simp [literals]
    · have hpos : 0 < data.length := length_pos_iff.mpr hd
      rw [literals_cons hd, length_cons, length_append, length_take,
        ih (data.drop 128).length (by rw [length_drop]; omega) _ rfl, length_drop,
        Nat.ceilDiv_eq_add_pred_div, Nat.ceilDiv_eq_add_pred_div, hn]
      omega

/-- Packed data has a size and a byte for every 128 bytes or part of them besides the data, and is
unpacked to the data; if there is none, to nothing at all. -/
theorem pack_unpacked {data : List UInt8} (h : data.length < 2 ^ 32) :
    ∃ packed, pack data = some packed ∧ packed.length = 4 + data.length + data.length ⌈/⌉ 128 ∧
      unpack packed = .ok (if data = [] then none else some data) := by
  have hpack : pack data = some (word32 data.length ++ literals data) := if_pos h
  refine ⟨_, hpack, ?_, ?_⟩
  · rw [List.length_append, length_word32, length_literals, Nat.add_assoc]
  · by_cases hd : data = []
    · subst hd
      rw [if_pos rfl, literals]
      rfl
    · rw [if_neg hd]
      exact unpack_pack hpack hd

theorem pack_unpacked_chunks :
    ∃ packed, pack (List.replicate 129 7) = some packed ∧ packed.length = 4 + 129 + 2 ∧
      unpack packed = .ok (some (List.replicate 129 7)) := by
  have hsmall : (List.replicate 129 (7 : UInt8)).length < 2 ^ 32 := by
    rw [List.length_replicate]
    decide
  obtain ⟨packed, hpack, hlength, hunpack⟩ := pack_unpacked hsmall
  refine ⟨packed, hpack, ?_, by simpa using hunpack⟩
  rw [hlength, List.length_replicate]
  decide

end SceneText.Lz
