import SceneText.Proofs.Tokens

/-!
# The size of unpacked data

Data announces the size of what it holds, and unpacking stops at the token that reaches it. A
reference stops there exactly. A literal may go on behind the size, or lack bytes because the data
ends within it, and counts in full all the same; what is unpacked is then longer or shorter than
announced. It has the announced size if and only if whole tokens make it up, or whole tokens and the
bytes that are there of a literal at the end of the data.
-/

namespace SceneText.Lz

open List

variable {size : Nat} {out : Array UInt8} {rest result : List UInt8}

def announced (data : List UInt8) : Nat :=
  ofLowBytes (data.take 4)

def Token.count : Token → Nat
  | literal bytes _ _ => bytes.length
  | reference _ count _ _ => count

def total : List Token → Nat
  | [] => 0
  | token :: rest => token.count + total rest

/-- Tokens make up a size, if need be with the beginning of a literal that the data ends within. -/
def Fills (size : Nat) (body : List UInt8) : Prop :=
  (∃ tokens rest, body = tokens.flatMap Token.encode ++ rest ∧ total tokens = size) ∨
    ∃ tokens control bytes, body = tokens.flatMap Token.encode ++ control :: bytes ∧
      bytes.length ≤ control.toNat ∧ control.toNat < 128 ∧ total tokens + bytes.length = size

theorem Token.count_pos (token : Token) : 0 < token.count := by
  cases token with
  | literal bytes nonempty short => exact nonempty
  | reference distance count near few => exact few.1

theorem size_copyBack {distance count : Nat} {out' : Array UInt8}
    (h : copyBack size distance count out = .ok out') (hroom : out.size ≤ size) :
    out'.size = out.size + count ∧ out'.size ≤ size := by
  induction count generalizing out with
  | zero =>
    cases h
    exact ⟨rfl, hroom⟩
  | succ count ih =>
    rw [copyBack] at h
    split at h
    · cases h
    · next hfull =>
      split at h
      · cases h
      · obtain ⟨hsize, hle⟩ := ih h (by rw [Array.size_push]; omega)
        rw [Array.size_push] at hsize
        exact ⟨by omega, hle⟩

theorem exists_reference {control : UInt8} (low : UInt8) (h : 128 ≤ control.toNat) :
    ∃ token : Token, token.encode = [control, low] ∧ token.count = countOf low := by
  have hcontrol := control.toNat_lt
  have hlow := low.toNat_lt
  have near : 1 ≤ distanceOf control low ∧ distanceOf control low ≤ 1024 := by
    rw [distanceOf]
    omega
  have few : 1 ≤ countOf low ∧ countOf low ≤ 32 := by
    rw [countOf]
    omega
  refine ⟨.reference (distanceOf control low) (countOf low) near few, ?_, rfl⟩
  have hfirst : UInt8.ofNat (0x80 ||| (distanceOf control low - 1) >>> 3) = control := by
    rw [← UInt8.toNat_inj, control_reference near.2, distanceOf]
    omega
  have hsecond : UInt8.ofNat (((distanceOf control low - 1) &&& 7) <<< 5 ||| (countOf low - 1)) =
      low := by
    rw [← UInt8.toNat_inj, low_reference few.2, distanceOf, countOf]
    omega
  rw [Token.encode, hfirst, hsecond]

theorem exists_literal {control : UInt8} {bytes : List UInt8} (h : control.toNat < 128)
    (hlength : bytes.length = control.toNat + 1) :
    ∃ token : Token, token.encode = control :: bytes ∧ token.count = control.toNat + 1 := by
  refine ⟨.literal bytes (by omega) (by omega), ?_, hlength⟩
  rw [Token.encode, hlength, Nat.add_sub_cancel, UInt8.ofNat_toNat]

theorem unpackInto_turn {result : Option (List UInt8)} (token : Token)
    (hroom : out.size + token.count ≤ size)
    (h : unpackInto size out (token.encode ++ rest) = .ok result) :
    ∃ out' : Array UInt8, out'.size = out.size + token.count ∧
      unpackInto size out' rest = .ok result := by
  have hpos := token.count_pos
  cases token with
  | literal bytes nonempty short =>
    rw [Token.encode, cons_append,
      unpackInto_literal nonempty short (by rw [Token.count] at hroom; omega)] at h
    exact ⟨out ++ bytes.toArray, by rw [Array.size_append]; rfl, h⟩
  | reference distance count near few =>
    rw [unpackInto.eq_def, if_neg (by omega)] at h
    dsimp only [Token.encode, cons_append, nil_append] at h
    have hcount : countOf (UInt8.ofNat (((distance - 1) &&& 7) <<< 5 ||| (count - 1))) = count := by
      rw [countOf, low_reference few.2]
      omega
    rw [if_pos (by rw [control_reference near.2]; omega), hcount] at h
    split at h
    · cases h
    · next out' hcopy =>
      exact ⟨out', (size_copyBack hcopy (by omega)).1, h⟩

theorem unpackInto_past {result : Option (List UInt8)} (tokens : List Token)
    (hroom : out.size + total tokens ≤ size)
    (h : unpackInto size out (tokens.flatMap Token.encode ++ rest) = .ok result) :
    ∃ out' : Array UInt8, out'.size = out.size + total tokens ∧
      unpackInto size out' rest = .ok result := by
  induction tokens generalizing out with
  | nil => exact ⟨out, rfl, h⟩
  | cons token tokens ih =>
    rw [total] at hroom
    rw [flatMap_cons, append_assoc] at h
    obtain ⟨out₁, hsize₁, h₁⟩ := unpackInto_turn token (by omega) h
    obtain ⟨out₂, hsize₂, h₂⟩ := ih (by omega) h₁
    exact ⟨out₂, by rw [hsize₂, hsize₁, total]; omega, h₂⟩

inductive Ends (size : Nat) : Nat → List UInt8 → Nat → Prop
  | full (rest : List UInt8) : Ends size size rest size
  | literal {done : Nat} {control : UInt8} {rest : List UInt8} (short : done < size)
      (plain : control.toNat < 128) (reach : size ≤ done + (control.toNat + 1)) :
      Ends size done (control :: rest) (done + min (control.toNat + 1) rest.length)
  | token {done length : Nat} {data : List UInt8} (token : Token) (room : done + token.count ≤ size)
      (next : Ends size (done + token.count) data length) :
      Ends size done (token.encode ++ data) length

theorem unpackInto_ends {data : List UInt8} (h : unpackInto size out data = .ok (some result))
    (hroom : out.size ≤ size) : Ends size out.size data result.length := by
  fun_induction unpackInto size out data generalizing result with
  | case1 out data hfull =>
    cases h
    rw [Array.length_toList, Nat.le_antisymm hroom hfull]
    exact .full data
  | case2 out hfull => cases h
  | case3 out control hfull hcontrol => cases h
  | case4 out control hfull hcontrol low rest defect hcopy => cases h
  | case5 out hfull control hcontrol low rest out' hcopy ih =>
    obtain ⟨hsize, hle⟩ := size_copyBack hcopy hroom
    obtain ⟨token, hencode, hcount⟩ := exists_reference low hcontrol
    rw [← hcount] at hsize
    have hnext := ih h hle
    rw [hsize] at hnext hle
    have hends := Ends.token token hle hnext
    rwa [hencode] at hends
  | case6 out hfull control rest hcontrol count literal hcut =>
    cases h
    have hlength : literal.length = min (control.toNat + 1) rest.length := length_take
    rw [length_append, Array.length_toList, hlength]
    exact .literal (by omega) (by omega) (by omega)
  | case7 => cases h
  | case8 out hfull control rest hcontrol count literal hwhole =>
    rename_i ih
    have hlength : literal.length = control.toNat + 1 := by
      have htake : literal.length ≤ count := length_take_le count rest
      omega
    have hsize : (out ++ literal.toArray).size = out.size + (control.toNat + 1) := by
      rw [Array.size_append, ← hlength]
      rfl
    by_cases hfits : out.size + (control.toNat + 1) ≤ size
    · obtain ⟨token, hencode, hcount⟩ := exists_literal (Nat.lt_of_not_le hcontrol) hlength
      have hnext := ih h (by omega)
      rw [hsize, ← hcount] at hnext
      have hends := Ends.token token (by omega) hnext
      rwa [hencode, cons_append, take_append_drop] at hends
    · rw [unpackInto.eq_def, if_pos (by omega)] at h
      cases h
      have hthere : control.toNat + 1 ≤ rest.length := by
        rw [← hlength]
        exact length_take_le' count rest
      rw [Array.length_toList, hsize, ← Nat.min_eq_left hthere]
      exact .literal (by omega) (by omega) (by omega)

namespace Ends

variable {size done length : Nat} {data : List UInt8}

theorem bounds (h : Ends size done data length) : length < size + 128 ∧ size ≤ length + 128 := by
  induction h with
  | full rest => omega
  | literal short plain reach => omega
  | token token room next ih => exact ih

theorem fills (h : Ends size done data length) (hexact : length = size) :
    Fills (size - done) data := by
  induction h with
  | full rest => exact .inl ⟨[], rest, rfl, by rw [Nat.sub_self, total]⟩
  | @literal done control rest short plain reach =>
    by_cases hcut : rest.length ≤ control.toNat
    · exact .inr ⟨[], control, rest, rfl, hcut, plain, by rw [total]; omega⟩
    · obtain ⟨token, hencode, hcount⟩ := @exists_literal control (rest.take (control.toNat + 1))
        plain (by rw [length_take]; omega)
      refine .inl ⟨[token], rest.drop (control.toNat + 1), ?_, by simp only [total]; omega⟩
      rw [flatMap_singleton, hencode, cons_append, take_append_drop]
  | @token done length data token room next ih =>
    rcases ih hexact with ⟨tokens, rest, rfl, htotal⟩ | ⟨tokens, control, bytes, rfl, hcut, htotal⟩
    · refine .inl ⟨token :: tokens, rest, ?_, by rw [total]; omega⟩
      rw [flatMap_cons, append_assoc]
    · refine .inr ⟨token :: tokens, control, bytes, ?_, hcut, htotal.1, by rw [total]; omega⟩
      rw [flatMap_cons, append_assoc]

end Ends

theorem length_of_full (hsize : out.size = size)
    (h : unpackInto size out rest = .ok (some result)) :
    result.length = size := by
  rw [unpackInto.eq_def, if_pos (Nat.le_of_eq hsize.symm)] at h
  cases h
  rw [Array.length_toList, hsize]

theorem length_of_fills {data : List UInt8} (hfills : Fills size data)
    (h : unpackInto size #[] data = .ok (some result)) : result.length = size := by
  rcases hfills with
    ⟨tokens, rest, rfl, htotal⟩ | ⟨tokens, control, bytes, rfl, hcut, hplain, htotal⟩
  · obtain ⟨out, hsize, hrun⟩ := unpackInto_past tokens (by simp [htotal]) h
    exact length_of_full (by simpa [htotal] using hsize) hrun
  · obtain ⟨out, hsize, hrun⟩ := unpackInto_past tokens (by simp; omega) h
    rw [Array.size_empty, Nat.zero_add] at hsize
    by_cases hbytes : bytes.length = 0
    · exact length_of_full (by omega) hrun
    · rw [unpackInto.eq_def, if_neg (by omega)] at hrun
      have htake : bytes.take (control.toNat + 1) = bytes := take_of_length_le (by omega)
      dsimp only at hrun
      rw [if_neg (by omega), htake, if_pos (by omega), if_pos (by omega)] at hrun
      cases hrun
      rw [length_append, Array.length_toList, hsize, htotal]

/-- What is unpacked has the announced size if and only if tokens make it up, the last of them cut
off by the end of the data or not. In any case it is less than 128 bytes too long and at most as
many too short. -/
theorem length_unpack_iff {data out : List UInt8} (h : unpack data = .ok (some out)) :
    (out.length = announced data ↔ Fills (announced data) (data.drop 4)) ∧
      out.length < announced data + 128 ∧ announced data ≤ out.length + 128 := by
  unfold unpack at h
  split at h
  · cases h
  · dsimp only at h
    split at h
    · cases h
    · have hends := unpackInto_ends h (Nat.zero_le _)
      exact ⟨⟨hends.fills, fun hfills => length_of_fills hfills h⟩, hends.bounds⟩

def clippedData : List UInt8 := [4, 0, 0, 0, 0, 0x61, 0x80, 0x00, 2, 0x62, 0x63]

theorem length_unpack_iff_clipped :
    unpack clippedData = .ok (some [0x61, 0x61, 0x62, 0x63]) ∧ announced clippedData = 4 ∧
      Fills 4 [0, 0x61, 0x80, 0x00, 2, 0x62, 0x63] := by
  have hunpack : unpack clippedData = .ok (some [0x61, 0x61, 0x62, 0x63]) := by
    change unpackInto 4 #[] _ = _
    rw [unpackInto.eq_def]
    change unpackInto 4 #[0x61] _ = _
    rw [unpackInto.eq_def]
    change unpackInto 4 #[0x61, 0x61] _ = _
    rw [unpackInto.eq_def]
    rfl
  exact ⟨hunpack, by decide, (length_unpack_iff hunpack).1.mp (by decide)⟩

/-- A literal that lacks a byte, and one that has a byte too many. -/
theorem unpack_other_size :
    unpack [3, 0, 0, 0, 2, 0x61, 0x62] = .ok (some [0x61, 0x62]) ∧
      unpack [1, 0, 0, 0, 1, 0x61, 0x62] = .ok (some [0x61, 0x62]) ∧
      ¬∀ data out, unpack data = .ok (some out) → out.length = announced data := by
  have hshort : unpack [3, 0, 0, 0, 2, 0x61, 0x62] = .ok (some [0x61, 0x62]) := by
    change unpackInto 3 #[] _ = _
    rw [unpackInto.eq_def]
    rfl
  have hlong : unpack [1, 0, 0, 0, 1, 0x61, 0x62] = .ok (some [0x61, 0x62]) := by
    change unpackInto 1 #[] _ = _
    rw [unpackInto.eq_def]
    change unpackInto 1 #[0x61, 0x62] _ = _
    rw [unpackInto.eq_def]
    rfl
  refine ⟨hshort, hlong, fun hall => ?_⟩
  exact absurd (hall _ _ hshort) (by decide)

end SceneText.Lz
