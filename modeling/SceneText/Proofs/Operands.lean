import SceneText.Proofs.Numerals
import SceneText.Proofs.Words
import SceneText.Script.Operand

/-!
# Operand text read back

An integer in its field's range and a byte string are read back from their operand text, and so is
every text that does not begin with the tag of another operand; a text that does is never read back.
What is stored for the operand text is then what is stored for the operand.
-/

namespace SceneText

open List Except Text

variable {s : String}

theorem Text.splitFirst_append (mark : Char) (before after : List Char) (h : mark ∉ before) :
    splitFirst mark (before ++ mark :: after) = some (before, after) := by
  induction before with
  | nil => simp [splitFirst]
  | cons c before ih =>
    have hc : c ≠ mark := fun e => h (by simp [e])
    have hrest : mark ∉ before := fun e => h (by simp [e])
    simp [splitFirst, hc, ih hrest]

theorem Text.splitFirst_none {mark : Char} {text : List Char} (h : mark ∉ text) :
    splitFirst mark text = none := by
  induction text with
  | nil => rfl
  | cons c rest ih =>
    rw [mem_cons, not_or] at h
    simp [splitFirst, Ne.symm h.1, ih h.2]

namespace Width

theorem ofName_name (w : Width) : ofName? w.name = some w := by
  cases w <;> decide

theorem name_no_colon (w : Width) : ':' ∉ w.name.toList := by
  cases w <;> decide

theorem fits_u32 {n : Nat} : u32.fits n = true ↔ n < 2 ^ 32 :=
  fits_nat rfl

theorem splitFirst_spelled (w : Width) (body : String) :
    splitFirst ':' (w.name ++ ":" ++ body).toList = some (w.name.toList, body.toList) := by
  rw [String.toList_append, String.toList_append, append_assoc]
  exact splitFirst_append _ _ _ w.name_no_colon

theorem read_numeral {w : Width} {v : Int} (hv : w.fits v = true) :
    Numeral.read (toString v).toList = .ok v :=
  Numeral.read_toString v (Nat.lt_of_lt_of_le (w.natAbs_lt_of_fits v hv)
    (Nat.le_trans (by decide : 2 ^ 32 ≤ 10 ^ 10) (Nat.pow_le_pow_right (by decide) (by decide))))

end Width

namespace Operand

variable {w : Width} {tag : String}

def tags : List String := Width.all.map Width.name ++ ["bytes"]

/-- Whether a text does not look like another operand: what stands before its first colon, if it has
one, is no tag. -/
def isUntagged (s : String) : Bool :=
  (splitFirst ':' s.toList).all fun parts => !tags.contains (String.ofList parts.1)

theorem ofName_of_not_tag (tag : String) (h : tag ∉ tags) : Width.ofName? tag = none := by
  rw [Width.ofName?, find?_eq_none]
  intro w hw hn
  exact h (mem_append_left _ (mem_map.mpr ⟨w, hw, by simpa using hn⟩))

theorem read_untagged (s : String) (h : isUntagged s = true) : read s = .ok (.text s) := by
  unfold read
  unfold isUntagged at h
  cases hs : splitFirst ':' s.toList with
  | none => rfl
  | some parts =>
    obtain ⟨before, after⟩ := parts
    simp only [hs, Option.all_some, Bool.not_eq_true', contains_eq_mem,
      decide_eq_false_iff_not] at h
    have hb : before ≠ "bytes".toList := by
      intro e
      rw [e, String.ofList_toList] at h
      exact h (by decide)
    simp only [ofName_of_not_tag _ h, if_neg hb]

theorem read_of_no_colon (h : ':' ∉ s.toList) : read s = .ok (.text s) := by
  apply read_untagged
  rw [isUntagged, splitFirst_none h]
  rfl

theorem read_spelled (w : Width) {body : String} {v : Int}
    (h : Numeral.read body.toList = .ok v) (hv : w.fits v = true) :
    read (w.name ++ ":" ++ body) = .ok (.int w v) := by
  rw [read, w.splitFirst_spelled]
  simp only [String.ofList_toList, Width.ofName_name, h, hv, if_true]

theorem read_int (w : Width) (v : Int) (hv : w.fits v = true) :
    read (write (.int w v)) = .ok (.int w v) :=
  read_spelled w (Width.read_numeral hv) hv

theorem fits_of_ofJson {v : Json} {n : Int} (h : ofJson v = .ok (.int w n)) : w.fits n = true := by
  cases v with
  | str s =>
    rw [ofJson, read] at h
    split at h
    · cases h
    · split at h
      · split at h
        · split at h
          · next hfits =>
            cases h
            exact hfits
          · cases h
        · cases h
      · split at h
        · split at h <;> cases h
        · cases h
  | _ => cases h

theorem read_bytes_spelled {body : String} {data : List UInt8}
    (h : Hex.read body.toList = .ok data) : read ("bytes:" ++ body) = .ok (.bytes data) := by
  have hsplit : splitFirst ':' ("bytes:" ++ body).toList =
      some ("bytes".toList, body.toList) := by
    rw [String.toList_append]
    exact splitFirst_append ':' "bytes".toList _ (by decide)
  have htag : Width.ofName? "bytes" = none := by decide
  rw [read, hsplit]
  simp [htag, h]

theorem read_bytes (data : List UInt8) : read (write (.bytes data)) = .ok (.bytes data) :=
  read_bytes_spelled (by simp [Hex.read_spaced])

theorem storeJson_int (code : TextCode) (order : ByteOrder) (w : Width) (v : Int)
    (hv : w.fits v = true) :
    storeJson code order (.str (write (.int w v))) = .ok (w.encode order v) := by
  simp [storeJson, ofJson, read_int w v hv, store]

theorem storeJson_bytes (code : TextCode) (order : ByteOrder) (data : List UInt8) :
    storeJson code order (.str (write (.bytes data))) = .ok data := by
  simp [storeJson, ofJson, read_bytes, store]

theorem storeJson_text (page : CodePage) (order : ByteOrder) (s : String) (bytes : List UInt8)
    (hs : read s = .ok (.text s)) (he : page.encode s.toList = .ok bytes) :
    storeJson (.terminated page) order (.str s) = .ok (bytes ++ [0]) := by
  simp [storeJson, ofJson, hs, store, TextCode.encode, he]

theorem storeIn_text (page : CodePage) (order : Except Fault ByteOrder) (s : String)
    (bytes : List UInt8) (hs : read s = .ok (.text s)) (he : page.encode s.toList = .ok bytes) :
    storeIn (.terminated page) order (.plain (.str s)) = .ok (bytes ++ [0]) := by
  have hdatum : ofDatum (.plain (.str s)) = .ok (.text s) := hs
  rw [storeIn, hdatum]
  simp [bind, Except.bind, store, TextCode.encode, he]

theorem writeAs_int (w : Width) (v : Int) (hv : w.fits v = true) :
    writeAs w.name (.plain (.int v)) = .ok (write (.int w v)) := by
  have hshown : (Json.int v).shown = toString v := String.ofList_toList
  simp [writeAs, Json.toInt?, Width.ofName_name, hv, hshown, write]

theorem mem_tags_of_ofName (h : Width.ofName? tag = some w) : w.name = tag ∧ tag ∈ tags := by
  have hname : w.name = tag := by simpa using find?_some h
  refine ⟨hname, mem_append_left _ (mem_map.mpr ⟨w, ?_, hname⟩)⟩
  exact mem_of_find?_eq_some h

theorem untagged_of_read_text {t : String} (h : read s = .ok (.text t)) :
    t = s ∧ isUntagged s = true := by
  unfold read at h
  cases hs : splitFirst ':' s.toList with
  | none =>
    rw [hs, ok.injEq, Operand.text.injEq] at h
    exact ⟨h.symm, by rw [isUntagged, hs]; rfl⟩
  | some parts =>
    obtain ⟨before, after⟩ := parts
    simp only [hs] at h
    cases hw : Width.ofName? (String.ofList before) with
    | some w =>
      simp only [hw] at h
      split at h
      · split at h <;> cases h
      · cases h
    | none =>
      simp only [hw] at h
      by_cases hb : before = "bytes".toList
      · rw [if_pos hb] at h
        split at h <;> cases h
      · rw [if_neg hb, ok.injEq, Operand.text.injEq] at h
        refine ⟨h.symm, ?_⟩
        rw [isUntagged, hs, Option.all_some, Bool.not_eq_true', contains_eq_mem,
          decide_eq_false_iff_not]
        intro hmem
        rcases mem_append.mp hmem with hmem | hmem
        · obtain ⟨w, -, hname⟩ := mem_map.mp hmem
          rw [← hname, Width.ofName_name] at hw
          cases hw
        · apply hb
          rw [← mem_singleton.mp hmem, String.toList_ofList]

theorem writeAs_truth_or_text {d : Datum} (h : writeAs tag d = .ok s) :
    (∃ b, d = .plain (.bool b)) ∨ (∃ t, d = .plain (.str t) ∧ tag = "str" ∧ s = t) ∨
      ∃ o, read s = .ok o ∧ o.tag = tag ∧ o.datum = d ∧ ∀ t, d ≠ .plain (.str t) := by
  cases d with
  | bytes data =>
    rw [writeAs] at h
    split at h
    · next htag =>
      subst htag
      rw [← ok.inj h]
      exact .inr (.inr ⟨.bytes data, read_bytes data, rfl, rfl, by simp⟩)
    · cases h
  | plain v =>
    cases v with
    | bool b => exact .inl ⟨b, rfl⟩
    | str t =>
      rw [writeAs] at h
      split at h
      · next htag => exact .inr (.inl ⟨t, rfl, htag, (ok.inj h).symm⟩)
      · cases h
    | int n =>
      cases hw : Width.ofName? tag with
      | none => simp [writeAs, Json.toInt?, hw] at h
      | some w =>
        obtain ⟨rfl, -⟩ := mem_tags_of_ofName hw
        by_cases hfits : w.fits n = true
        · rw [writeAs_int w n hfits, ok.injEq] at h
          subst h
          exact .inr (.inr ⟨.int w n, read_int w n hfits, rfl, rfl, by simp⟩)
        · simp [writeAs, Json.toInt?, hw, hfits] at h
    | _ => simp [writeAs, Json.toInt?] at h

/-- A value written under a tag is read back under the same tag, with two exceptions: a truth value,
which is written by its name, and a text that begins with the tag of another operand. -/
theorem read_writeAs_iff (tag s : String) (d : Datum) (h : writeAs tag d = .ok s) :
    (∃ o, read s = .ok o ∧ o.tag = tag ∧ o.datum = d) ↔
      (∀ b, d ≠ .plain (.bool b)) ∧ ∀ t, d = .plain (.str t) → isUntagged t = true := by
  rcases writeAs_truth_or_text h with ⟨b, rfl⟩ | ⟨t, rfl, rfl, rfl⟩ | ⟨o, ho, htag, hd, hno⟩
  · refine iff_of_false ?_ fun hb => hb.1 b rfl
    rintro ⟨o, -, -, hd⟩
    cases o <;> cases hd
  · constructor
    · rintro ⟨o, ho, -, hd⟩
      cases o with
      | text t =>
        refine ⟨by simp, fun u hu => ?_⟩
        cases hu
        exact (untagged_of_read_text ho).2
      | int w n => cases hd
      | bytes data => cases hd
    · intro hall
      exact ⟨.text s, read_untagged s (hall.2 s rfl), rfl, rfl⟩
  · refine iff_of_true ⟨o, ho, htag, hd⟩ ⟨fun b hb => ?_, fun t ht => absurd ht (hno t)⟩
    subst hb
    cases o <;> cases hd

theorem read_writeAs_iff_heading :
    writeAs "str" (.plain (.str "次:5")) = .ok "次:5" ∧
      ∃ o, read "次:5" = .ok o ∧ o.tag = "str" ∧ o.datum = .plain (.str "次:5") := by
  have hwrite : writeAs "str" (.plain (.str "次:5")) = .ok "次:5" := rfl
  refine ⟨hwrite, (read_writeAs_iff "str" "次:5" _ hwrite).mpr ⟨by simp, fun t ht => ?_⟩⟩
  cases ht
  decide +kernel

/-- A text that looks like an integer is written as it is and read as the integer. -/
theorem read_writeAs_lookalike :
    writeAs "str" (.plain (.str "u8:5")) = .ok "u8:5" ∧ read "u8:5" = .ok (.int .u8 5) ∧
      ¬∃ o, read "u8:5" = .ok o ∧ o.tag = "str" ∧ o.datum = .plain (.str "u8:5") := by
  have hread : read "u8:5" = .ok (.int .u8 5) := read_int .u8 5 (by decide)
  refine ⟨rfl, hread, ?_⟩
  rintro ⟨o, ho, htag, -⟩
  rw [hread, Except.ok.injEq] at ho
  subst ho
  revert htag
  decide

/-- An operand that is read from any of its spellings can be written under its tag, is read from
what was written, and is stored in the same bytes or with the same fault. -/
theorem write_stable {o : Operand} (h : read s = .ok o) :
    writeAs o.tag o.datum = .ok (write o) ∧ read (write o) = .ok o ∧
      ∀ code order, storeIn code order (.plain (.str (write o))) =
        storeIn code order (.plain (.str s)) := by
  have hboth : writeAs o.tag o.datum = .ok (write o) ∧ read (write o) = .ok o := by
    cases o with
    | int w v =>
      have hfits : w.fits v = true := @fits_of_ofJson w (.str s) v h
      exact ⟨writeAs_int w v hfits, read_int w v hfits⟩
    | bytes data => exact ⟨rfl, read_bytes data⟩
    | text t =>
      obtain ⟨rfl, -⟩ := untagged_of_read_text h
      exact ⟨rfl, h⟩
  refine ⟨hboth.1, hboth.2, fun code order => ?_⟩
  have hsame : ofDatum (.plain (.str (write o))) = ofDatum (.plain (.str s)) := hboth.2.trans h.symm
  rw [storeIn, hsame, ← storeIn]

theorem write_stable_spellings :
    writeAs "i16" (.plain (.int (-107))) = .ok "i16:-107" ∧
      storeIn .script (.ok .big) (.plain (.str "bytes:0A FE")) =
        storeIn .script (.ok .big) (.plain (.str ("bytes:" ++ " 0afE "))) := by
  have hint : read (Width.i16.name ++ ":" ++ " -1_٠٧ ") = .ok (.int .i16 (-107)) :=
    read_spelled .i16 (by decide +kernel) (by decide)
  have hbytes : read ("bytes:" ++ " 0afE ") = .ok (.bytes [10, 254]) :=
    read_bytes_spelled (by decide +kernel)
  exact ⟨(write_stable hint).1, (write_stable hbytes).2.2 .script (.ok .big)⟩

end Operand
end SceneText
