import SceneText.Proofs.Longest

/-!
# Reading what was stored

The bytes of a field are read in the same way wherever they stand: the number that they encode, the
text up to its zero byte, the slice of its length. Fields that stand one behind the other are read
one behind the other, as long as the operand that counts the repetitions of a later field says how
many there are.
-/

namespace SceneText

open List Origin Operand

variable {v : Json} {next : Int} {page : CodePage} {image : Image}
  {before after : List UInt8}

theorem Width.decode_encode (w : Width) {v : Int} (h : w.fits v = true) :
    w.decode (w.encode .little v) = v := by
  have hpos : (0 : Int) < w.count := by cases w <;> decide
  have hlow := Int.emod_nonneg v (Int.ne_of_gt hpos)
  have hhigh := Int.emod_lt_of_pos v hpos
  have hraw : ofLowBytes (w.encode .little v) = (v % (w.count : Int)).toNat := by
    apply ofLowBytes_lowBytes
    rw [← w.count_eq]
    omega
  simp only [fits, least, greatest, Bool.and_eq_true] at h
  rw [decode, hraw]
  cases hsigned : w.signed with
  | false =>
    simp only [hsigned, Bool.false_eq_true, if_false, Bool.false_and, decide_eq_true_eq] at h ⊢
    rw [Int.toNat_of_nonneg hlow, Int.emod_eq_of_lt h.1 (by omega)]
  | true =>
    simp only [hsigned, if_true, Bool.true_and, decide_eq_true_eq] at h ⊢
    by_cases hneg : v < 0
    · have hwrap : v % (w.count : Int) = v + w.count := by
        rw [← Int.add_emod_right, Int.emod_eq_of_lt (by omega) (by omega)]
      omega
    · have hsame : v % (w.count : Int) = v := Int.emod_eq_of_lt (by omega) (by omega)
      omega

namespace Image

variable {piece : List UInt8}

theorem span_of_append (h : image.toList = before ++ piece ++ after) :
    image.span before.length (before.length + piece.length) = piece := by
  rw [span, h, append_assoc, drop_left, Nat.add_sub_cancel_left, take_left]

theorem size_of_append (h : image.toList = before ++ piece ++ after) :
    before.length + piece.length ≤ image.size := by
  rw [← Array.length_toList, h, length_append, length_append]
  omega

theorem zeroFrom_of_append (h : image.toList = before ++ piece ++ 0 :: after) (hzero : 0 ∉ piece) :
    zeroFrom? image before.length = some (before.length + piece.length) := by
  induction piece generalizing before with
  | nil =>
    have hget : image.toList[before.length]? = some 0 := by simp [h]
    rw [Array.getElem?_toList] at hget
    obtain ⟨hlt, hval⟩ := Array.getElem?_eq_some_iff.mp hget
    rw [zeroFrom?, dif_pos hlt, if_pos hval]
    rfl
  | cons b piece ih =>
    rw [mem_cons, not_or] at hzero
    have hget : image.toList[before.length]? = some b := by simp [h]
    rw [Array.getElem?_toList] at hget
    obtain ⟨hlt, hval⟩ := Array.getElem?_eq_some_iff.mp hget
    have hrest := @ih (before ++ [b]) (by rw [h]; simp) hzero.2
    rw [length_append, length_singleton] at hrest
    rw [zeroFrom?, dif_pos hlt, if_neg (by rw [hval]; exact Ne.symm hzero.1), hrest, length_cons]
    congr 1
    omega

end Image

def Origin.Legible (page : CodePage) (r : Origin) : Prop :=
  match r.field with
  | .int w => ∃ v, r.operand = .str (write (.int w v)) ∧ w.fits v = true ∧
      r.bytes = w.encode .little v
  | .text => ∃ s bytes, r.operand = .str s ∧ r.bytes = bytes ++ [0] ∧ 0 ∉ bytes ∧
      page.decode bytes = .ok s.toList
  | .given [.whole length] .slice =>
    r.operand = .str (write (.bytes r.bytes)) ∧ length = r.bytes.length
  | _ => False

theorem Field.readInt_of_append {w : Width} {v : Int} (hfits : w.fits v = true)
    (h : image.toList = before ++ w.encode .little v ++ after) :
    readInt w image before.length = .ok (v, (before.length + w.size : Nat)) := by
  have hsize := Image.size_of_append h
  have hspan := Image.span_of_append h
  rw [w.length_encode v] at hsize hspan
  rw [readInt_eq, if_pos hsize, hspan, w.decode_encode hfits]

/-- An integer field is read exactly if its bytes are there, and its operand text stores them again;
the stored bytes of a number are read as the text that was stored, whatever follows them. -/
theorem Field.intOperand_inverse (w : Width) (code : TextCode) :
    (∀ (data : List UInt8) (offset : Nat),
      ((∃ result, intOperand w data.toArray offset = .ok result) ↔ offset + w.size ≤ data.length) ∧
      ∀ s next, intOperand w data.toArray offset = .ok (s, next) →
        next = offset + w.size ∧ storeIn code (.ok .little) (.plain (.str s)) =
            .ok ((data.drop offset).take w.size)) ∧
    ∀ v, w.fits v = true → ∃ s bytes, writeAs w.name (.plain (.int v)) = .ok s ∧
      storeIn code (.ok .little) (.plain (.str s)) = .ok bytes ∧
      ∀ z, intOperand w (bytes ++ z).toArray 0 = .ok (s, w.size) := by
  have hstore : ∀ v, w.fits v = true →
      storeIn code (.ok .little) (.plain (.str (int w v).write)) =
        .ok (w.encode .little v) := by
    intro v hv
    have hread : ofDatum (.plain (.str (int w v).write)) = .ok (.int w v) :=
      read_int w v hv
    rw [storeIn, hread]
    rfl
  refine ⟨fun data offset => ⟨?_, fun s next h => ?_⟩, fun v hv => ?_⟩
  · rw [intOperand_eq, readInt_eq, List.size_toArray]
    by_cases hsize : offset + w.size ≤ data.length
    · exact iff_of_true ⟨_, by rw [if_pos hsize]; rfl⟩ hsize
    · refine iff_of_false ?_ hsize
      rintro ⟨result, h⟩
      rw [if_neg hsize] at h
      cases h
  · rw [intOperand_eq] at h
    cases hread : readInt w data.toArray offset with
    | error fault =>
      rw [hread] at h
      cases h
    | ok r =>
      rw [hread] at h
      cases h
      obtain ⟨hnext, hfits, hbytes⟩ := readInt_spec w data.toArray offset r.1 r.2 hread
      refine ⟨hnext, ?_⟩
      rw [hstore r.1 hfits, hbytes, Image.span, Nat.add_sub_cancel_left]
  · refine ⟨_, _, writeAs_int w v hv, hstore v hv, fun z => ?_⟩
    have hread := @readInt_of_append (w.encode .little v ++ z).toArray [] z w v hv rfl
    rw [length_nil, Nat.zero_add] at hread
    rw [show (0 : Int) = (0 : Nat) from rfl, intOperand_eq, hread]
    rfl

theorem Field.readText_of_append {bytes : List UInt8} {s : String} (hzero : 0 ∉ bytes)
    (hdecode : page.decode bytes = .ok s.toList)
    (h : image.toList = before ++ (bytes ++ [0]) ++ after) :
    readText page image before.length = .ok (s, (before.length + (bytes ++ [0]).length : Nat)) := by
  have hcut : image.toList = before ++ bytes ++ 0 :: after := by rw [h]; simp
  have hz : image.zero? before.length = some (before.length + bytes.length) := by
    exact Image.zeroFrom_of_append hcut hzero
  have hspan := Image.span_of_append hcut
  simp only [readText, readTerminated, hz, Image.slice_eq_span, hspan, hdecode,
    String.ofList_toList]
  simp
  omega

namespace FieldSpec

theorem read_of_append {r : Origin} (operands : List Json) (after : List UInt8)
    (hr : r.Legible page) (h : image.toList = before ++ r.bytes ++ after) :
    r.field.read page image operands before.length =
      .ok (r.operand, (before.length + r.bytes.length : Nat)) := by
  obtain ⟨field, operand, bytes⟩ := r
  unfold Legible at hr
  dsimp only at hr h ⊢
  split at hr
  · obtain ⟨v, rfl, hfits, rfl⟩ := hr
    simp only [read, readWith, Field.intOperand_eq, Field.readInt_of_append hfits h, Except.map,
      textResult, Width.length_encode]
  · obtain ⟨s, bytes, rfl, rfl, hzero, hdecode⟩ := hr
    simp only [read, readWith, Field.readText_of_append hzero hdecode h, textResult]
  · obtain ⟨rfl, rfl⟩ := hr
    have hspan := Image.span_of_append h
    simp only [read, readWith, readSlice, Field.bytesOperand_eq, textResult,
      ← Int.natCast_add, Image.slice_eq_span, hspan]
  · exact hr.elim

theorem spread_operand {r : Origin} (hr : r.Legible page) : spread r.operand = [r.operand] := by
  unfold Legible at hr
  split at hr
  · obtain ⟨v, hop, -⟩ := hr
    rw [hop]
    rfl
  · obtain ⟨s, bytes, hop, -⟩ := hr
    rw [hop]
    rfl
  · rw [hr.1]
    rfl
  · exact hr.elim

theorem repeatRead_of_append {spec : FieldSpec} (operands : List Json) (after : List UInt8)
    {rs : List Origin} (hfields : ∀ r ∈ rs, r.field = spec) (hrs : ∀ r ∈ rs, r.Legible page)
    (h : image.toList = before ++ rs.flatMap Origin.bytes ++ after) :
    repeatRead (spec.readWith page image operands []) rs.length before.length =
      .ok (rs.map Origin.operand, (before.length + (rs.flatMap Origin.bytes).length : Nat)) := by
  induction rs generalizing before with
  | nil => rfl
  | cons r rest ih =>
    rw [flatMap_cons] at h
    have hread := @read_of_append page image before r operands
      (rest.flatMap Origin.bytes ++ after) (hrs r (by simp))
      (by rw [h]; simp only [append_assoc])
    rw [read, hfields r (by simp)] at hread
    have hrest := @ih (before ++ r.bytes) (fun x hx => hfields x (by simp [hx]))
      (fun x hx => hrs x (by simp [hx])) (by rw [h]; simp only [append_assoc])
    rw [length_append] at hrest
    rw [length_cons, repeatRead, hread]
    dsimp only
    rw [hrest, flatMap_cons, length_append, Nat.add_assoc]
    rfl

theorem Takes.read_eq {operands : List Json} {spec : FieldSpec} {rs : List Origin}
    (after : List UInt8) (htakes : spec.Takes operands (rs.map field))
    (hrs : ∀ r ∈ rs, r.Legible page)
    (h : image.toList = before ++ rs.flatMap Origin.bytes ++ after) :
    ∃ v, spec.read page image operands before.length =
        .ok (v, (before.length + (rs.flatMap Origin.bytes).length : Nat)) ∧
      spread v = rs.map Origin.operand := by
  unfold Takes at htakes
  split at htakes
  · next count inner =>
    obtain ⟨hcount, hfields⟩ := htakes
    rw [forall_mem_map] at hfields
    refine ⟨.arr (rs.map operand), ?_, rfl⟩
    rw [length_map] at hcount
    simp only [read, readWith, hcount, repeatRead_of_append operands after hfields hrs h,
      listResult]
  · next index inner =>
    obtain ⟨hcount, hfields⟩ := htakes
    rw [forall_mem_map] at hfields
    refine ⟨.arr (rs.map operand), ?_, rfl⟩
    rw [length_map] at hcount
    simp only [read, readWith, hcount, repeatRead_of_append operands after hfields hrs h,
      listResult]
  · rw [map_eq_singleton_iff] at htakes
    obtain ⟨r, rfl, rfl⟩ := htakes
    have hr := hrs r (mem_singleton_self r)
    rw [flatMap_singleton] at h ⊢
    exact ⟨r.operand, read_of_append operands after hr h, spread_operand hr⟩

end FieldSpec

theorem readFields_of_fits {specs : List FieldSpec} {operands : List Json} {rs : List Origin}
    (hfits : FieldSpec.Fits operands specs rs) (hrs : ∀ r ∈ rs, r.Legible page)
    (h : image.toList = before ++ rs.flatMap bytes ++ after) :
    readFields page image operands before.length specs = ⟨operands ++ rs.map operand,
        (before.length + (rs.flatMap bytes).length : Nat), none⟩ := by
  induction specs generalizing operands rs before with
  | nil =>
    subst hfits
    simp [readFields]
  | cons spec rest ih =>
    obtain ⟨front, back, rfl, htakes, hback⟩ := hfits
    rw [flatMap_append] at h
    obtain ⟨v, hread, hspread⟩ := @FieldSpec.Takes.read_eq page image before operands spec front
      (back.flatMap Origin.bytes ++ after) htakes (fun r hr => hrs r (by simp [hr]))
      (by rw [h]; simp only [append_assoc])
    have hrest := @ih (before ++ front.flatMap bytes) _ _ hback
      (fun r hr => hrs r (by simp [hr])) (by rw [h]; simp only [append_assoc])
    rw [length_append] at hrest
    rw [readFields, hread]
    dsimp only
    rw [hspread, hrest]
    simp [Nat.add_assoc]

end SceneText
