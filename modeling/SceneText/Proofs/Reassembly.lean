import SceneText.Proofs.Renewal
import SceneText.Proofs.Refilling
import SceneText.Proofs.Translation

/-!
# Instructions of a translated script

Each instruction of a script that was read to its end is followed through the change of its texts
and the move of its jumps. It keeps its signature and its fields. Its texts are valid messages now,
its positions are new ones, and all else has the bytes that it had, so that it covers its place as
a tile of the new script.
-/

namespace SceneText

open Dialogue List Opcodes Instruction Origin Operand Width

variable {operands : List Json} {r : Origin} {image : Image} {i : Instruction} {start stop : Nat}
  {spec : FieldSpec} {fields specs : List FieldSpec} {rs rs' : List Origin}

namespace FieldSpec

variable {operands' : List Json}

def isUncounted : FieldSpec → Bool
  | .repeatedBy _ _ => false
  | _ => true

theorem Takes.of_uncounted (hs : spec.isUncounted = true) (h : spec.Takes operands fields) :
    spec.Takes operands' fields := by
  cases spec with
  | repeatedBy index spec => cases hs
  | _ => exact h

theorem Fits.of_uncounted (hs : ∀ spec ∈ specs, spec.isUncounted = true)
    (h : Fits operands specs rs) (hfields : rs'.map field = rs.map field) :
    Fits operands' specs rs' := by
  induction specs generalizing operands operands' rs rs' with
  | nil =>
    rw [h, map_nil, map_eq_nil_iff] at hfields
    exact hfields
  | cons spec rest ih =>
    obtain ⟨front, back, rfl, htakes, hback⟩ := h
    rw [map_append, map_eq_append_iff] at hfields
    obtain ⟨front', back', rfl, hfront', hback'⟩ := hfields
    refine ⟨front', back', rfl, ?_, ih (fun s hmem => hs s (by simp [hmem])) hback hback'⟩
    rw [hfront']
    exact htakes.of_uncounted (hs spec (by simp))

end FieldSpec

theorem Opcodes.uncounted : ∀ entry ∈ table, entry.1 = .bytes choiceSignature ∨
    ∀ spec ∈ entry.2, spec.isUncounted = true := by decide

theorem FieldSpec.Fits.renewed {signature : List UInt8}
    (hentry : (.bytes signature, specs) ∈ table) (h : Fits [] specs rs)
    (hfields : rs'.map field = rs.map field)
    (hcount : signature = choiceSignature → rs'[2]?.map operand = rs[2]?.map operand) :
    Fits [] specs rs' := by
  rcases uncounted _ hentry with hchoice | huncounted
  · have hsig := SignatureKey.bytes.inj hchoice
    rw [show specs = _ from choice_fields _ hentry hchoice] at h ⊢
    obtain ⟨_, _, rfl, t₀, _, _, rfl, t₁, _, _, rfl, t₂, _, _, rfl, t₃, ts, _, rfl, hts, rfl⟩ := h
    obtain ⟨r₀, rfl, h₀⟩ := map_eq_singleton_iff.mp t₀
    obtain ⟨r₁, rfl, h₁⟩ := map_eq_singleton_iff.mp t₁
    obtain ⟨r₂, rfl, h₂⟩ := map_eq_singleton_iff.mp t₂
    obtain ⟨r₃, rfl, h₃⟩ := map_eq_singleton_iff.mp t₃
    simp only [singleton_append, append_nil, map_cons, map_eq_cons_iff] at hfields
    obtain ⟨s₀, _, rfl, h₀', s₁, _, rfl, h₁', s₂, _, rfl, h₂', s₃, us, rfl, h₃', hus⟩ := hfields
    have one : ∀ {f g : FieldSpec}, f = g → [f] = [g] := fun h => by rw [h]
    have hsame : s₂.operand = r₂.operand := by simpa using hcount hsig
    refine ⟨[s₀], _, rfl, one (h₀'.trans h₀), [s₁], _, rfl, one (h₁'.trans h₁), [s₂], _, rfl,
      one (h₂'.trans h₂), [s₃], _, rfl, one (h₃'.trans h₃), us, [], by simp, ?_, rfl⟩
    rw [hus]
    refine ⟨?_, hts.2⟩
    rw [← hts.1]
    simp only [nil_append, singleton_append, map_singleton, hsame]
    rfl
  · exact h.of_uncounted huncounted hfields

theorem Opcodes.scalar_units : ∀ entry ∈ table, ∀ spec ∈ entry.2, spec.unit.isScalar = true := by
  decide

theorem Origin.legible_of_read {page : CodePage} (hread : r.Read page) (hwhole : r.Whole)
    (hscalar : r.field.isScalar = true) (htext : r.field ≠ .text) : r.Legible page := by
  obtain ⟨field, operand, bytes⟩ := r
  cases field with
  | int w => exact hread
  | text => exact absurd rfl htext
  | given arguments spec =>
    unfold FieldSpec.isScalar at hscalar
    split at hscalar
    · next heq => cases heq
    · next heq => cases heq
    · next length heq =>
      cases heq
      exact ⟨hread, hwhole length rfl⟩
    · cases hscalar
  | _ => cases hscalar

structure Settled (image : Image) (start stop : Nat) (i : Instruction) : Prop extends
    Located .cp932 table image start stop i where
  whole : ∀ r ∈ i.origins .cp932 table image, r.Whole
  longest : ∀ s ∈ signatures, s <+: image.toList.drop start → s.length ≤ i.signature.length

theorem Parsed.settled {index a : Nat} {rest : List Instruction}
    (h : Parsed .cp932 table image index a (i :: rest)) :
    ∃ b, Settled image a b i ∧ Parsed .cp932 table image (index + 1) b rest := by
  have hle := h.le_size
  obtain ⟨hoffset, specs, b, hchosen, hread, hrest⟩ := h.uncons
  have hloc := Parsed.located table_regular hoffset hchosen hread
  obtain ⟨hentry, -, hlongest⟩ := (Disassembly.firstMatch_iff table_regular hle).mp hchosen
  have horigins : i.origins .cp932 table image =
      fieldOrigins .cp932 image [] ((a : Int) + i.signature.length) specs := by
    rw [origins, lookup_of_mem table_regular.keys hentry, hoffset]
    rfl
  obtain ⟨more, -, hpassed, -⟩ := @readFields_spec .cp932 image specs
    (table_regular.plain _ hentry) [] (a + i.signature.length)
    (by rw [Int.natCast_add, hread])
  rw [Int.natCast_add, ← horigins, hread] at hpassed
  refine ⟨b, ⟨hloc, hpassed.whole ?_, fun s hs hfit => ?_⟩, hrest⟩
  · exact Int.ofNat_le.mpr hrest.le_size
  obtain ⟨fields, hmem⟩ := mem_signatures.mp hs
  exact hlongest s fields hmem hfit

theorem Settled.drop_eq (h : Settled image start stop i) : image.toList.drop start =
      i.signature ++ (i.origins .cp932 table image).flatMap bytes ++ image.toList.drop stop := by
  rw [flatMap_def, h.bytes_eq, Image.span]
  conv_lhs => rw [← take_append_drop (stop - start) (image.toList.drop start)]
  rw [drop_drop, Nat.add_sub_cancel' (Nat.le_of_lt h.advance)]

theorem Settled.legible (h : Settled image start stop i)
    (hr : r ∈ i.origins .cp932 table image) (htext : r.field ≠ .text) : r.Legible .cp932 := by
  obtain ⟨specs, hmem, hfields⟩ := h.fields
  obtain ⟨spec, hspec, hunit⟩ := hfields.unit_eq hr
  exact legible_of_read (h.traced.read r hr) (h.whole r hr)
    (hunit ▸ scalar_units _ hmem spec hspec) htext

/-- A message that is valid, has no colon and has bytes in a script. -/
def Dialogue.Sayable (v : Json) : Prop :=
  ∃ s bytes, v = .str s ∧ isInvalid s.toList = false ∧ ':' ∉ s.toList ∧
    CodePage.cp932.encode s.toList = .ok bytes

theorem Dialogue.Sayable.storable {v : Json} (h : Sayable v) : Storable v := by
  obtain ⟨s, bytes, rfl, -, hcolon, henc⟩ := h
  exact ⟨s, bytes, rfl, read_of_no_colon hcolon, henc⟩

namespace Segment

variable {place : Listing.Places} {s : Segment} {k : Nat}

theorem moved_jump (hs : s.Sound) (hr : s.Resolved place) (hk : k ∈ s.instruction.jumpPlaces) :
    ∃ p : Nat, p < 2 ^ 32 ∧
      (s.moved place).instruction.operands[k]? = some (.str (write (.int .u32 p))) ∧
      (s.moved place).pieces[k]? = some (word32 p) := by
  obtain ⟨n, p, hword, hp, hsmall⟩ := hr k hk
  exact ⟨p, hsmall, moved_word hs hk hword hp⟩

end Segment

theorem Origin.zipped {pieces : List (List UInt8)} (hoperands : operands.length = fields.length)
    (hpieces : pieces.length = fields.length) :
    let rs : List Origin := List.zipWith (fun field stored => ⟨field, stored.1, stored.2⟩) fields
      (operands.zip pieces)
    rs.map field = fields ∧ rs.map operand = operands ∧ rs.flatMap bytes = pieces.flatten := by
  induction fields generalizing operands pieces with
  | nil =>
    obtain rfl := length_eq_zero_iff.mp hoperands
    obtain rfl := length_eq_zero_iff.mp hpieces
    exact ⟨rfl, rfl, rfl⟩
  | cons field fields ih =>
    obtain ⟨v, operands, rfl⟩ := exists_cons_of_length_eq_add_one hoperands
    obtain ⟨piece, pieces, rfl⟩ := exists_cons_of_length_eq_add_one hpieces
    obtain ⟨hf, ho, hb⟩ := ih (Nat.succ.inj hoperands) (Nat.succ.inj hpieces)
    simp only [zip_cons_cons, zipWith_cons_cons, map_cons, flatMap_cons,
      flatten_cons, hf, ho, hb, and_self]

def Instruction.recast (image : Image) (i : Instruction) (s : Segment) : Remade :=
  ⟨s.instruction, List.zipWith (fun field stored => ⟨field, stored.1, stored.2⟩)
    ((i.origins .cp932 table image).map field)
    (s.instruction.operands.zip s.pieces)⟩

structure Recast (image : Image) (i : Instruction) (z : Remade) : Prop where
  sound : z.Sound
  signature_eq : z.instruction.signature = i.signature
  fields_eq : z.origins.map field = (i.origins .cp932 table image).map field
  unchanged : ∀ k, k ∉ textPlaces i → k ∉ i.jumpPlaces →
    z.origins[k]? = (i.origins .cp932 table image)[k]?

theorem Carried.zipped {s : Segment} (hc : Carried image i s) (hi : Settled image start stop i)
    (place : Listing.Places) :
    (i.recast image (s.moved place)).origins.map field = (i.origins .cp932 table image).map field ∧
      (i.recast image (s.moved place)).origins.map operand = (s.moved place).instruction.operands ∧
      (i.recast image (s.moved place)).bytes = (s.moved place).bytes := by
  have hlen : (s.moved place).instruction.operands.length =
      ((i.origins .cp932 table image).map field).length := by
    rw [length_map, hi.length_origins, ← hc.length_eq]
    exact length_mapIdx
  have hlen' : (s.moved place).pieces.length =
      ((i.origins .cp932 table image).map field).length := by
    rw [length_map, hi.length_origins, ← hc.length_eq, hc.sound.stored.length_eq]
    exact length_mapIdx
  obtain ⟨hfields, hoperands, hbytes⟩ := Origin.zipped hlen hlen'
  refine ⟨hfields, hoperands, ?_⟩
  rw [Segment.bytes, Slot.bytes, Segment.slot, ← hbytes]
  rfl

section recast

variable {image : Image} {start stop : Nat} {i : Instruction} {s : Segment} {texts : Json}
  {low high : Int} {place : Listing.Places} {single : Prop} (hi : Settled image start stop i)
  (hc : Carried image i s) (htold : Retold single texts low high i s.instruction) (hsingle : single)
  (hm : ∀ v, Said texts low high v → Sayable v) (hr : s.Resolved place) {k : Nat}
include hi hc htold hsingle hm hr

theorem Carried.renewed (hk : (i.origins .cp932 table image)[k]? = some r) :
    ∃ v piece, (s.moved place).instruction.operands[k]? = some v ∧
      (s.moved place).pieces[k]? = some piece ∧ (⟨r.field, v, piece⟩ : Origin).Fresh ∧
      (k ∉ textPlaces i → k ∉ i.jumpPlaces → ⟨r.field, v, piece⟩ = r) := by
  have hmem := mem_of_getElem? hk
  by_cases hjump : k ∈ i.jumpPlaces
  · obtain ⟨p, hp, hop, hpiece⟩ := Segment.moved_jump hc.sound hr (hc.jumpPlaces_eq ▸ hjump)
    have hfield := hi.jump_field hjump
    rw [getElem?_map, hk, Option.map_some, Option.some.injEq] at hfield
    refine ⟨_, _, hop, hpiece, ?_, fun _ hn => absurd hjump hn⟩
    rw [Fresh, hfield, if_neg (by simp)]
    exact ⟨p, rfl, u32_fits hp, (encode_u32 p hp).symm⟩
  · obtain ⟨hop, hpiece⟩ := @Segment.moved_other k place s (hc.jumpPlaces_eq ▸ hjump)
    rw [hop, hpiece]
    by_cases htext : k ∈ textPlaces i
    · have hfield := (hi.mem_textPlaces hk).mp htext
      obtain ⟨v, hv, hsaid⟩ := htold.told hsingle k htext
      obtain ⟨text, bytes, rfl, hvalid, hcolon, henc⟩ := hm v hsaid
      obtain ⟨hlt, hval⟩ := List.getElem?_eq_some_iff.mp hv
      have hlt' : k < s.pieces.length := hc.sound.stored.length_eq ▸ hlt
      have hstored := Listing.stored_getElem hc.sound.stored k hlt hlt'
      have hread := read_of_no_colon hcolon
      rw [hval, TextCode.script, storeJson_text _ _ _ _ hread henc,
        Except.ok.injEq] at hstored
      refine ⟨_, _, hv, getElem?_eq_getElem hlt', ?_, fun hn => absurd htext hn⟩
      rw [Fresh, if_pos hfield]
      exact ⟨text, bytes, rfl, hvalid, henc, hstored.symm⟩
    · have hfield : r.field ≠ .text := mt (hi.mem_textPlaces hk).mpr htext
      have hsame : s.instruction.operands[k]? = some r.operand := by
        rw [htold.unchanged k htext, ← hi.traced.operands_eq, getElem?_map, hk]
        rfl
      refine ⟨_, _, hsame, hc.pieces_eq k r hk hfield, ?_, fun _ _ => rfl⟩
      rw [Fresh, if_neg hfield]
      exact hi.legible hmem hfield

theorem Carried.recast_getElem (hk : (i.origins .cp932 table image)[k]? = some r) :
    ∃ q, (i.recast image (s.moved place)).origins[k]? = some q ∧ q.Fresh ∧
      (k ∉ textPlaces i → k ∉ i.jumpPlaces → q = r) := by
  obtain ⟨v, piece, hv, hpiece, hfresh, hsame⟩ := hc.renewed hi htold hsingle hm hr hk
  refine ⟨_, ?_, hfresh, hsame⟩
  have hstored := (@getElem?_zip_eq_some _ _ _ _ (v, piece) k).mpr ⟨hv, hpiece⟩
  rw [recast, getElem?_zipWith, getElem?_map, hk, hstored]
  rfl

theorem Carried.recast : Recast image i (i.recast image (s.moved place)) := by
  obtain ⟨hfields, hoperands, -⟩ := hc.zipped hi place
  have hlength : (i.recast image (s.moved place)).origins.length =
      (i.origins .cp932 table image).length := by
    simpa only [length_map] using congrArg List.length hfields
  have hunchanged : ∀ k, k ∉ textPlaces i → k ∉ i.jumpPlaces →
      (i.recast image (s.moved place)).origins[k]? = (i.origins .cp932 table image)[k]? := by
    intro k htext hjump
    cases hk : (i.origins .cp932 table image)[k]? with
    | none =>
      rw [List.getElem?_eq_none_iff] at hk ⊢
      exact hlength ▸ hk
    | some r =>
      obtain ⟨q, hq, -, hsame⟩ := hc.recast_getElem hi htold hsingle hm hr hk
      rw [hq, hsame htext hjump]
  obtain ⟨specs, hentry, hfits⟩ := hi.fields
  refine ⟨⟨hoperands, fun q hq => ?_, specs, hc.signature_eq ▸ hentry, ?_⟩, hc.signature_eq,
    hfields, hunchanged⟩
  · obtain ⟨k, hk⟩ := mem_iff_getElem?.mp hq
    have hlt := hlength ▸ (List.getElem?_eq_some_iff.mp hk).1
    obtain ⟨q', hq', hfresh, -⟩ :=
      hc.recast_getElem hi htold hsingle hm hr (List.getElem?_eq_getElem hlt)
    rw [hk, Option.some.injEq] at hq'
    exact hq' ▸ hfresh
  · refine hfits.renewed hentry ?_ fun hchoice => ?_
    · rw [map_map, ← hfields]
      exact map_congr_left fun r _ => r.reread_field
    · -- The number of texts is neither a text nor a position.
      have hop : i.opcode = choice := (i.opcode_eq_iff _).mpr hchoice
      have htext : 2 ∉ textPlaces i := by
        rw [textPlaces_choice hop, mem_range'_1, choiceTexts]
        omega
      have hjump : 2 ∉ i.jumpPlaces := by
        rw [jumpPlaces, Listing.jumpPlaces, hop, if_neg (by decide), if_pos rfl]
        decide
      rw [getElem?_map, hunchanged 2 htext hjump]
      cases hk : (i.origins .cp932 table image)[2]? with
      | none => rfl
      | some r =>
        rw [Option.map_some, reread, if_neg (mt (hi.mem_textPlaces hk).mpr htext)]

end recast

theorem Opcodes.sized_fields : ∀ entry ∈ table, ∀ size ∈ Tile.sizes, entry.1 = .bytes size.1 →
    entry.2 = [] ∧ size.2 = 0 ∨ entry.2 = [.int .u8] ∧ size.2 = 1 ∨
      entry.2 = [.int .u32] ∧ size.2 = 4 := by decide

namespace Remade

variable {z : Remade}

theorem Sound.single (h : z.Sound) (hspec : spec.isScalar = true)
    (hfits : FieldSpec.Fits [] [spec] (z.origins.map reread)) :
    ∃ r, z.origins = [r] ∧ r.field = spec ∧ r.Fresh := by
  obtain ⟨front, back, hsplit, htakes, rfl⟩ := hfits
  have hfields : front.map field = [spec] := by
    cases spec with
    | repeated count inner => cases hspec
    | repeatedBy index inner => cases hspec
    | _ => exact htakes
  obtain ⟨q, rfl, hfield⟩ := map_eq_singleton_iff.mp hfields
  rw [append_nil, map_eq_singleton_iff] at hsplit
  obtain ⟨r, hr, rfl⟩ := hsplit
  exact ⟨r, hr, r.reread_field ▸ hfield, h.fresh r (by simp [hr])⟩

theorem Sound.int (h : z.Sound) {w : Width}
    (hfits : FieldSpec.Fits [] [.int w] (z.origins.map reread)) :
    ∃ v, w.fits v = true ∧ z.instruction.operands = [.str (write (.int w v))] ∧
      z.origins.flatMap Origin.bytes = w.encode .little v := by
  obtain ⟨r, horigins, hfield, hfresh⟩ := h.single rfl hfits
  rw [Origin.Fresh, hfield, if_neg (by simp), Origin.Legible, hfield] at hfresh
  obtain ⟨v, hop, hv, hbytes⟩ := hfresh
  refine ⟨v, hv, ?_, ?_⟩
  · rw [← h.operands_eq, horigins, map_singleton, hop]
  · rw [horigins, flatMap_singleton, hbytes]

theorem Sound.text (h : z.Sound) (hsig : z.instruction.signature = [0x00]) :
    ∃ s bytes, isInvalid s.toList = false ∧ CodePage.cp932.encode s.toList = .ok bytes ∧
      z.instruction.operands = [.str s] ∧ z.origins.flatMap Origin.bytes = bytes ++ [0] := by
  obtain ⟨specs, hentry, hfits⟩ := h.fits
  rw [show specs = _ from text_fields _ hentry (by rw [hsig])] at hfits
  obtain ⟨r, horigins, hfield, hfresh⟩ := h.single rfl hfits
  rw [Fresh, if_pos hfield] at hfresh
  obtain ⟨s, bytes, hop, hvalid, henc, hbytes⟩ := hfresh
  refine ⟨s, bytes, hvalid, henc, ?_, ?_⟩
  · rw [← h.operands_eq, horigins, map_singleton, hop]
  · rw [horigins, flatMap_singleton, hbytes]

theorem Sound.word (h : z.Sound) (hmem : (z.instruction.signature, 4) ∈ Tile.sizes) :
    ∃ n : Nat, n < 2 ^ 32 ∧ z.instruction.numberAt? 0 = some (n : Int) ∧ ∀ bytes, bytes.length ≤ 4 →
        (bytes <+: z.origins.flatMap Origin.bytes ↔ n % 256 ^ bytes.length = ofLowBytes bytes) := by
  obtain ⟨specs, hentry, hfits⟩ := h.fits
  rcases sized_fields _ hentry _ hmem rfl with ⟨-, hsize⟩ | ⟨-, hsize⟩ | ⟨hspecs, -⟩
  · cases hsize
  · cases hsize
  · rw [show specs = _ from hspecs] at hfits
    obtain ⟨v, hv, hoperands, hbytes⟩ := h.int hfits
    obtain ⟨n, rfl, hn⟩ := nat_of_fits rfl hv
    refine ⟨n, hn, numberAt_of_typed hn (by rw [hoperands]; rfl), fun bytes hle => ?_⟩
    rw [hbytes, encode_u32 n hn]
    exact prefix_lowBytes hle

theorem Sound.length_of_sizes (h : z.Sound) {size : List UInt8 × Nat} (hmem : size ∈ Tile.sizes)
    (hsig : z.instruction.signature = size.1) :
    (z.origins.flatMap Origin.bytes).length = size.2 := by
  obtain ⟨specs, hentry, hfits⟩ := h.fits
  rcases sized_fields _ hentry size hmem (by rw [hsig]) with
    ⟨hspecs, hsize⟩ | ⟨hspecs, hsize⟩ | ⟨hspecs, hsize⟩
  · rw [show specs = [] from hspecs, FieldSpec.Fits, map_eq_nil_iff] at hfits
    rw [hfits, hsize]
    rfl
  · rw [show specs = _ from hspecs] at hfits
    obtain ⟨v, -, -, hbytes⟩ := h.int hfits
    rw [hbytes, hsize, length_encode]
    rfl
  · rw [show specs = _ from hspecs] at hfits
    obtain ⟨v, -, -, hbytes⟩ := h.int hfits
    rw [hbytes, hsize, length_encode]
    rfl

end Remade

def Instruction.tile (image : Image) (i : Instruction) (rs : List Origin) : Tile :=
  ⟨i.signature, (i.origins .cp932 table image).flatMap bytes, rs.flatMap bytes⟩

theorem Instruction.places_nil (h : i.signature ∉ changing) :
    textPlaces i = [] ∧ i.jumpPlaces = [] := by
  simp only [changing, moving, mem_cons, not_or] at h
  obtain ⟨htext, hchoice, hguarded, hjump⟩ := h
  have hchoice' : i.opcode ≠ choice := mt (i.opcode_eq_iff _).mp hchoice
  refine ⟨textPlaces_other (mt (i.opcode_eq_iff [0x00]).mp htext) hchoice', ?_⟩
  rw [jumpPlaces, Listing.jumpPlaces, jumps_eq, guardedJump_eq, if_neg, if_neg hchoice',
    if_neg (mt (i.opcode_eq_iff _).mp hguarded)]
  intro hmem
  obtain ⟨signature, hsig, heq⟩ := mem_map.mp hmem
  exact hjump ((i.opcode_eq_iff signature).mp heq.symm ▸ hsig)

theorem Recast.apt {z : Remade} (h : Recast image i z) : (i.tile image z.origins).Apt := by
  obtain ⟨specs, hentry, -⟩ := h.sound.fits
  rw [h.signature_eq] at hentry
  refine ⟨mem_signatures.mpr ⟨specs, hentry⟩, fun hsteady => ?_, fun size hmem hsig => ?_,
    fun hsig => ?_⟩
  · obtain ⟨htext, hjump⟩ := places_nil hsteady
    have hsame : z.origins = i.origins .cp932 table image :=
      ext_getElem? fun k => h.unchanged k (by simp [htext]) (by simp [hjump])
    rw [tile, hsame]
  · exact h.sound.length_of_sizes hmem (h.signature_eq.trans hsig)
  · obtain ⟨s, bytes, hvalid, henc, -, hbytes⟩ := h.sound.text (h.signature_eq.trans hsig)
    rw [tile, hbytes]
    exact Tile.voiced_of_valid hvalid henc

end SceneText
