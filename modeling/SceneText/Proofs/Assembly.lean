import SceneText.Proofs.Tiling

/-!
# Storing what was read

The entry of an instruction is stored as its signature and the pieces of its operands, one behind
the other. For an instruction that was read from an image these pieces are the bytes that its
operands came from, provided that its texts are written as they were read.
-/

namespace SceneText

open Operand Origin

variable {page : CodePage} {image : Image} {start stop : Nat} {table : FlatTable}

namespace Instruction

theorem field_op (i : Instruction) : i.toJson.field "op" = .ok (.str i.opcode) := rfl

theorem field_value (i : Instruction) : i.toJson.field "value" = .ok (.arr i.operands) := rfl

theorem put_value (i : Instruction) (operands : List Json) :
    i.toJson.put "value" (.arr operands) = .ok (toJson { i with operands := operands }) := rfl

theorem opcode_injective {i j : Instruction} (h : i.opcode = j.opcode) :
    i.signature = j.signature := by
  have hi := Hex.read_spaced i.signature
  rw [show Hex.spaced i.signature = Hex.spaced j.signature from h, Hex.read_spaced] at hi
  exact (Except.ok.inj hi).symm

theorem opcode_eq_iff (i : Instruction) (signature : List UInt8) :
    i.opcode = Hex.spaced signature ↔ i.signature = signature :=
  ⟨fun h => @opcode_injective i { i with signature := signature } h, fun h => congrArg Hex.spaced h⟩

theorem toJson_injective : Function.Injective toJson := by
  rintro ⟨s, o, n, vs⟩ ⟨s', o', n', vs'⟩ h
  simp only [toJson, Json.obj.injEq, List.cons.injEq, Prod.mk.injEq, Json.str.injEq, Json.int.injEq,
    Json.arr.injEq, true_and, and_true, Int.natCast_inj] at h
  obtain ⟨hop, rfl, rfl, rfl⟩ := h
  rw [show s = s' from opcode_injective hop]

end Instruction

namespace Listing

variable {code : TextCode} {pieces : List (List UInt8)}

def Stored (code : TextCode) (operands : List Json) (pieces : List (List UInt8)) : Prop :=
  List.Forall₂ (fun v piece => storeJson code .little v = .ok piece) operands pieces

theorem storeAll_pieces {operands : List Json} (h : Stored code operands pieces) :
    storeAll (storeJson code .little) operands = .ok pieces.flatten := by
  induction h with
  | nil => rfl
  | cons hv _ ih => simp [storeAll, hv, ih]

theorem assembleEntry_toJson (i : Instruction) (h : Stored code i.operands pieces) :
    assembleEntry code .little i.toJson = .ok (i.signature ++ pieces.flatten) := by
  have hsig : signatureOf i.toJson = .ok i.signature := by
    rw [signatureOf, i.field_op]
    simp only [Instruction.opcode, Hex.read_spaced]
  have hvalue : i.toJson.get "value" (.arr []) = .ok (.arr i.operands) := rfl
  simp [assembleEntry, assembleWith, hsig, hvalue, Json.elements, storeAll_pieces h]

end Listing

/-- A text that is stored as it was read: encoding gives its bytes again, and it does not look like
another operand. -/
def Origin.Faithful (page : CodePage) (r : Origin) : Prop :=
  r.field = .text → ∃ s bytes, r.operand = .str s ∧ r.bytes = bytes ++ [0] ∧
    page.encode s.toList = .ok bytes ∧ isUntagged s = true

theorem Origin.store_eq {r : Origin} (hr : r.Read page) (hf : r.Faithful page) :
    storeJson (.terminated page) .little r.operand = .ok r.bytes := by
  unfold Read at hr
  split at hr
  · obtain ⟨v, hop, hfits, hbytes⟩ := hr
    rw [hop, hbytes]
    exact storeJson_int _ _ _ v hfits
  · next hfield =>
    obtain ⟨s, bytes, hop, hbytes, henc, htag⟩ := hf hfield
    rw [hop, hbytes]
    exact storeJson_text page _ s bytes (read_untagged s htag) henc
  · rw [hr]
    exact storeJson_bytes _ _ _

theorem Traced.stored {operands : List Json} {origins : List Origin}
    (h : Traced page image start stop operands origins) (hf : ∀ r ∈ origins, r.Faithful page) :
    Listing.Stored (.terminated page) operands (origins.map bytes) := by
  rw [Listing.Stored, ← h.operands_eq, List.forall₂_map_left_iff, List.forall₂_map_right_iff,
    List.forall₂_same]
  intro r hr
  exact store_eq (h.read r hr) (hf r hr)

theorem Located.bytes_eq {i : Instruction} (h : Located page table image start stop i) :
    i.signature ++ ((i.origins page table image).map Origin.bytes).flatten =
      image.span start stop := by
  have hpieces : ((i.origins page table image).map Origin.bytes).flatten =
      image.span (start + i.signature.length) stop := by
    exact h.traced.bytes_eq
  have happ := Image.span_append image start (start + i.signature.length) stop (by omega) h.within
  rw [h.signature_eq] at happ
  rw [hpieces, happ]

theorem Located.assembleEntry_eq {i : Instruction} (h : Located page table image start stop i)
    (hf : ∀ r ∈ i.origins page table image, r.Faithful page) :
    Listing.assembleEntry (.terminated page) .little i.toJson = .ok (image.span start stop) := by
  rw [Listing.assembleEntry_toJson i (h.traced.stored hf), h.bytes_eq]

theorem Tiled.assemble_eq {a c : Nat} {xs : List Instruction} (h : Tiled page table image a xs c)
    (hf : ∀ i ∈ xs, ∀ r ∈ i.origins page table image, r.Faithful page) :
    ∃ parts, (xs.map Instruction.toJson).mapM (Listing.assembleEntry (.terminated page) .little) =
      .ok parts ∧ parts.flatten = image.span a c := by
  induction h with
  | nil n => exact ⟨[], rfl, (image.span_self n).symm⟩
  | @cons a b c i rest here there ih =>
    obtain ⟨parts, hparts, hflat⟩ := ih fun j hj => hf j (by simp [hj])
    refine ⟨image.span a b :: parts, ?_, ?_⟩
    · rw [List.map_cons, List.mapM_cons, here.assembleEntry_eq (hf i (by simp)), hparts]
      rfl
    · rw [List.flatten_cons, hflat,
        Image.span_append image a b c (Nat.le_of_lt here.advance) there.le]

end SceneText
