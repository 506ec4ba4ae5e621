import SceneText.Proofs.Charts
import SceneText.Proofs.Overlaps
import SceneText.Proofs.Rereading

/-!
# Instructions that are read again

A script is laid out from instructions whose operands are known with their bytes. It is cut into
these instructions again exactly if, wherever one of them begins, no longer signature fits than its
own; their operands then come back as they were, apart from the characters of a text that share
their code with a look-alike.
-/

namespace SceneText

open Dialogue List Opcodes Origin CodePage Disassembly

theorem Dialogue.spoken_of_valid {text : List Char} (h : isInvalid text = false) :
    text ≠ [] ∧ ∀ c ∈ text, isForeign c = false := by
  rw [isInvalid, Bool.or_eq_false_iff] at h
  refine ⟨?_, fun c hc => ?_⟩
  · rintro rfl
    cases h.1
  · have hany := any_eq_false.mp h.2 c hc
    simpa using hany

theorem Tile.voiced_of_valid {text : List Char} {bytes : List UInt8} (h : isInvalid text = false)
    (henc : cp932.encode text = .ok bytes) : Voiced (bytes ++ [0]) := by
  obtain ⟨hne, hspoken⟩ := spoken_of_valid h
  obtain ⟨c, rest, rfl⟩ := exists_cons_of_ne_nil hne
  obtain ⟨b, more, rfl, hhead⟩ := encodeFrom_head (hspoken c (by simp)) henc
  have bounds : 0x20 ≤ b.toNat → b.toNat ≤ 0xfc → 0x20 ≤ b ∧ b ≤ 0xfc :=
    fun hlow hhigh => ⟨UInt8.le_iff_toNat_le.mpr hlow, UInt8.le_iff_toNat_le.mpr hhigh⟩
  rcases hhead with ⟨hlow, hhigh, -, hrest⟩ | ⟨hlow, hhigh, -, hne⟩
  · obtain ⟨hb, hb'⟩ := bounds hlow (by omega)
    cases rest with
    | nil =>
      cases hrest
      exact ⟨b, 0, [], rfl, hb, hb', fun _ => .inl rfl⟩
    | cons d rest =>
      obtain ⟨b₂, more, rfl, hhead⟩ := encodeFrom_head (hspoken d (by simp)) hrest
      refine ⟨b, b₂, more ++ [0], rfl, hb, hb', fun _ => .inr (UInt8.le_iff_toNat_le.mpr ?_)⟩
      rcases hhead with hhead | hhead
      · exact hhead.1
      · exact Nat.le_trans (by decide) hhead.1
  · obtain ⟨hb, hb'⟩ := bounds (by omega) hhigh
    obtain ⟨trail, more, rfl⟩ := exists_cons_of_ne_nil hne
    refine ⟨b, trail, more ++ [0], rfl, hb, hb', fun hlt => ?_⟩
    rw [UInt8.lt_iff_toNat_lt] at hlt
    exact absurd hlt (by simp; omega)

theorem Dialogue.head_of_valid {s : String} {bytes : List UInt8} (h : isInvalid s.toList = false)
    (henc : cp932.encode s.toList = .ok bytes) :
    [0x31] <+: bytes ++ [0] ↔ s.toList.head? = some '1' := by
  obtain ⟨hne, hspoken⟩ := spoken_of_valid h
  obtain ⟨c, rest, htext⟩ := exists_cons_of_ne_nil hne
  rw [htext] at hspoken henc ⊢
  obtain ⟨b, more, rfl, hhead⟩ := encodeFrom_head (hspoken c (by simp)) henc
  have hb : [0x31] <+: b :: more ++ [0] ↔ b.toNat = 0x31 := by
    rw [cons_append, cons_prefix_cons, and_iff_left nil_prefix, eq_comm, ← UInt8.toNat_inj]
    rfl
  have hc : (c :: rest).head? = some '1' ↔ c.toNat = 0x31 := by
    rw [head?_cons, Option.some.injEq, ← Char.toNat_inj]
    rfl
  rw [hb, hc]
  rcases hhead with ⟨-, -, heq, -⟩ | ⟨hlow, -, hwide, -⟩
  · rw [heq]
  · exact iff_of_false (by omega) (by omega)

def respelled : Json → Json
  | .str s => .str (String.ofList (s.toList.map wide))
  | v => v

namespace Origin

variable {r : Origin}

def reread (r : Origin) : Origin :=
  if r.field = .text then { r with operand := respelled r.operand } else r

@[simp] theorem reread_field (r : Origin) : r.reread.field = r.field := by
  unfold reread
  split <;> rfl

@[simp] theorem reread_bytes (r : Origin) : r.reread.bytes = r.bytes := by
  unfold reread
  split <;> rfl

def Fresh (r : Origin) : Prop :=
  if r.field = .text then
    ∃ s bytes, r.operand = .str s ∧ isInvalid s.toList = false ∧
      cp932.encode s.toList = .ok bytes ∧ r.bytes = bytes ++ [0]
  else r.Legible .cp932

theorem Fresh.legible (h : r.Fresh) : r.reread.Legible .cp932 := by
  unfold Fresh at h
  split at h
  · next hfield =>
    obtain ⟨s, bytes, hop, hvalid, henc, hbytes⟩ := h
    obtain ⟨hdecode, hzero⟩ := decode_encode (spoken_of_valid hvalid).2 henc
    rw [reread, if_pos hfield, Legible]
    simp only [hfield, hop, respelled, hbytes]
    exact ⟨_, bytes, rfl, rfl, hzero, by rw [String.toList_ofList, hdecode]⟩
  · next hfield => rwa [reread, if_neg hfield]

def Plain (r : Origin) : Prop :=
  ∀ s, r.field = .text → r.operand = .str s → ∀ c ∈ s.toList, c ∉ wideSigns.map Prod.fst

theorem Fresh.reread_operand_iff (h : r.Fresh) : r.reread.operand = r.operand ↔ r.Plain := by
  unfold Fresh at h
  split at h
  · next hfield =>
    obtain ⟨s, bytes, hop, -⟩ := h
    have hsame : String.ofList (s.toList.map wide) = s ↔
        ∀ c ∈ s.toList, wide c = c := by
      rw [← String.toList_inj, String.toList_ofList]
      conv_lhs => rhs; rw [← map_id s.toList]
      exact map_inj_left
    rw [reread, if_pos hfield, Plain]
    simp only [hop, respelled, Json.str.injEq, hsame, hfield, true_implies, forall_eq',
      wide_eq_self_iff]
  · next hfield =>
    rw [reread, if_neg hfield]
    exact iff_of_true rfl fun s htext => absurd htext hfield

end Origin

/-- An instruction with its operands and their bytes. -/
structure Remade where
  instruction : Instruction
  origins : List Origin

/-- What a listing tells of an instruction besides its place. -/
def Instruction.content (i : Instruction) : String × List Json :=
  (i.opcode, i.operands)

namespace Remade

def bytes (z : Remade) : List UInt8 :=
  z.instruction.signature ++ z.origins.flatMap Origin.bytes

structure Sound (z : Remade) : Prop where
  operands_eq : z.origins.map operand = z.instruction.operands
  fresh : ∀ r ∈ z.origins, r.Fresh
  fits : ∃ specs, (.bytes z.instruction.signature, specs) ∈ table ∧
    FieldSpec.Fits [] specs (z.origins.map reread)

def Clear : List Remade → Prop
  | [] => True
  | z :: rest =>
    (∀ s ∈ signatures, s <+: (z :: rest).flatMap bytes →
      s.length ≤ z.instruction.signature.length) ∧
    (∀ r ∈ z.origins, r.Plain) ∧ Clear rest

theorem Sound.reread_iff {z : Remade} (h : z.Sound) :
    (z.origins.map reread).map operand = z.instruction.operands ↔ ∀ r ∈ z.origins, r.Plain := by
  rw [← h.operands_eq, map_map, map_inj_left]
  constructor
  · intro hall r hr
    exact (h.fresh r hr).reread_operand_iff.mp (hall r hr)
  · intro hall r hr
    exact (h.fresh r hr).reread_operand_iff.mpr (hall r hr)

theorem signature_eq_of_content {w z : Instruction} (h : w.content = z.content) :
    w.signature = z.signature ∧ w.operands = z.operands := by
  rw [Instruction.content, Instruction.content, Prod.mk.injEq] at h
  exact ⟨(w.opcode_eq_iff z.signature).mp h.1, h.2⟩

section laid

variable {image : Image} {before : List UInt8} {z : Remade} {rest : List Remade}
  {specs : List FieldSpec} (h : image.toList = before ++ (z :: rest).flatMap bytes)
include h

theorem laid_lt (hentry : (.bytes z.instruction.signature, specs) ∈ table) :
    before.length < image.size := by
  have hpos := length_pos_iff.mpr (signature_ne_nil _ (mem_signatures.mpr ⟨specs, hentry⟩))
  rw [← Array.length_toList, h, length_append, flatMap_cons, length_append, bytes, length_append]
  omega

theorem chosen_iff (hentry : (.bytes z.instruction.signature, specs) ∈ table) :
    firstMatch image before.length (SignatureTable.byLength table) =
        .ok (some (z.instruction.signature, specs)) ↔
      ∀ s ∈ signatures, s <+: (z :: rest).flatMap bytes →
        s.length ≤ z.instruction.signature.length := by
  rw [firstMatch_iff table_regular (Nat.le_of_lt (laid_lt h hentry)), h, drop_left]
  constructor
  · rintro ⟨-, -, hlongest⟩ s hs hfit
    obtain ⟨fields, hmem⟩ := mem_signatures.mp hs
    exact hlongest s fields hmem hfit
  · intro hall
    refine ⟨hentry, ?_, fun other fields hmem hfit => ?_⟩
    · rw [flatMap_cons, bytes, append_assoc]
      exact prefix_append _ _
    · exact hall other (mem_signatures.mpr ⟨fields, hmem⟩) hfit

theorem Sound.readFields_eq (hsound : z.Sound)
    (hfits : FieldSpec.Fits [] specs (z.origins.map reread)) :
    readFields .cp932 image [] ((before.length : Int) + z.instruction.signature.length) specs =
      ⟨(z.origins.map reread).map operand, (before.length + z.bytes.length : Nat), none⟩ := by
  have hlegible : ∀ r ∈ z.origins.map reread, r.Legible .cp932 := by
    rw [forall_mem_map]
    exact fun r hr => (hsound.fresh r hr).legible
  have hbytes : (z.origins.map Origin.reread).flatMap Origin.bytes =
      z.origins.flatMap Origin.bytes := by
    rw [flatMap_map]
    exact flatMap_congr fun r _ => r.reread_bytes
  have hfields := @readFields_of_fits .cp932 image (before ++ z.instruction.signature)
    (rest.flatMap bytes) specs [] _ hfits hlegible (by
      rw [h, hbytes, flatMap_cons, bytes]
      simp only [append_assoc])
  rw [hbytes] at hfields
  simpa [bytes, Int.add_assoc] using hfields

end laid

theorem parsed_iff {image : Image} {before : List UInt8} {zs : List Remade} (index : Nat)
    (hzs : ∀ z ∈ zs, z.Sound) (h : image.toList = before ++ zs.flatMap bytes) :
    (∃ ws, Parsed .cp932 table image index before.length ws ∧
        ws.map Instruction.content = zs.map fun z => z.instruction.content) ↔ Clear zs := by
  induction zs generalizing before index with
  | nil =>
    have hsize : before.length = image.size := by
      rw [← Array.length_toList, h]
      simp
    exact iff_of_true ⟨[], hsize ▸ .nil index, rfl⟩ trivial
  | cons z rest ih =>
    have hsound := hzs z (by simp)
    obtain ⟨specs, hentry, hfits⟩ := hsound.fits
    have hread := hsound.readFields_eq h hfits
    have hrest := @ih (before ++ z.bytes) (index + 1) (fun y hy => hzs y (by simp [hy]))
      (by rw [h, flatMap_cons, append_assoc])
    rw [length_append] at hrest
    rw [Clear, ← hrest, ← chosen_iff h hentry, ← hsound.reread_iff]
    constructor
    · rintro ⟨ws, hparsed, hcontent⟩
      cases ws with
      | nil => simp at hcontent
      | cons w ws =>
        rw [map_cons, map_cons, List.cons.injEq] at hcontent
        obtain ⟨hsig, hoperands⟩ := signature_eq_of_content hcontent.1
        obtain ⟨-, fields, b, hmatch, hfields, hthere⟩ := hparsed.uncons
        rw [hsig] at hmatch hfields
        have hmem := (firstMatch_spec hmatch).1
        rw [SignatureTable.byLength, mem_mergeSort] at hmem
        obtain rfl : fields = specs := Option.some.inj
          ((lookup_of_mem table_regular.keys hmem).symm.trans
            (lookup_of_mem table_regular.keys hentry))
        have hsame := hfields.symm.trans hread
        rw [FieldsRead.mk.injEq, Int.natCast_inj] at hsame
        refine ⟨hmatch, by rw [← hsame.1, hoperands], ws, ?_, hcontent.2⟩
        rw [← hsame.2.1]
        exact hthere
    · rintro ⟨hmatch, hoperands, ws, hparsed, hcontent⟩
      rw [hoperands] at hread
      refine ⟨⟨z.instruction.signature, before.length, index, z.instruction.operands⟩ :: ws,
        .cons (laid_lt h hentry) rfl rfl hmatch hread hparsed, ?_⟩
      rw [map_cons, map_cons, hcontent]
      rfl

theorem read_iff_clear {zs : List Remade} (hzs : ∀ z ∈ zs, z.Sound) :
    ((run .cp932 table (zs.flatMap bytes).toArray).offset = (zs.flatMap bytes).length ∧
        (run .cp932 table (zs.flatMap bytes).toArray).instructions.map
          Instruction.content = (zs.map instruction).map Instruction.content) ↔ Clear zs := by
  rw [← @parsed_iff (zs.flatMap bytes).toArray [] zs 0 hzs rfl, map_map]
  constructor
  · rintro ⟨hall, hcontent⟩
    refine ⟨_, run_parsed table_regular ?_, hcontent⟩
    rw [hall, size_toArray]
  · rintro ⟨ws, hparsed, hcontent⟩
    rw [run_of_parsed table_regular hparsed, size_toArray]
    exact ⟨rfl, hcontent⟩

end Remade
end SceneText
