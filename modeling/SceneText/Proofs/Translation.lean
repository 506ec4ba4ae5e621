import SceneText.Proofs.Lossless
import SceneText.Proofs.Refilling

/-!
# Jumps survive a translation

Putting dialogue back changes the sizes of texts and drops line breaks, so nearly every instruction
moves. The offsets in the listing still tell which instruction a jump meant. The rebuilt script has
in each jump the position of that instruction, and all operands that are no texts as they were. The
one obstacle is a jump to a line break, which is refused.
-/

namespace SceneText

open Dialogue List Opcodes Instruction Segment
open Operand (read_untagged storeJson)

variable {k : Nat} {image : Image} {i : Instruction} {texts : Json} {low high : Int} {s t : Segment}

theorem Opcodes.text_fields : ∀ entry ∈ table, entry.1 = .bytes [0x00] →
    entry.2 = [.text] := by decide

theorem Opcodes.text_entries : ∀ entry ∈ table, ∀ spec ∈ entry.2, spec.unit = .text →
    entry.1 = .bytes [0x00] ∨ entry.1 = .bytes choiceSignature := by decide

theorem Dialogue.jumpPlaces_textPlaces (i : Instruction) (hk : k ∈ i.jumpPlaces) :
    k ∉ textPlaces i := by
  intro ht
  by_cases htext : i.opcode = Role.text.signature
  · rw [jumpPlaces, htext, Listing.jumpPlaces_eq_nil (by decide)] at hk
    simp at hk
  · by_cases hchoice : i.opcode = Role.choice.signature
    · rw [jumpPlaces, hchoice, Listing.jumpPlaces, if_neg (by decide), Role.signature,
        if_pos rfl] at hk
      rw [textPlaces_choice hchoice, mem_range'_1, choiceTexts] at ht
      simp only [mem_cons, not_mem_nil, or_false] at hk
      omega
    · rw [textPlaces_other htext hchoice] at ht
      simp at ht

theorem Located.mem_textPlaces {start stop : Nat}
    (h : Located .cp932 table image start stop i) {r : Origin}
    (hr : (i.origins .cp932 table image)[k]? = some r) : k ∈ textPlaces i ↔ r.field = .text := by
  obtain ⟨specs, hmem, hfields⟩ := h.fields
  have hk : ((i.origins .cp932 table image).map Origin.field)[k]? = some r.field := by
    rw [getElem?_map, hr]
    rfl
  have hlt := (List.getElem?_eq_some_iff.mp hk).1
  by_cases htext : i.opcode = Role.text.signature
  · have hsame := (i.opcode_eq_iff [0x00]).mp htext
    rw [show specs = _ from text_fields _ hmem (by rw [hsame])] at hfields
    obtain ⟨_, _, hf, ht, rfl⟩ := hfields
    rw [hf, append_nil, show _ = _ from ht] at hk hlt
    obtain rfl : k = 0 := by simpa using hlt
    exact iff_of_true (by simp [textPlaces_text htext]) (Option.some.inj hk).symm
  · by_cases hchoice : i.opcode = Role.choice.signature
    · have hsame := (i.opcode_eq_iff _).mp hchoice
      rw [show specs = _ from choice_fields _ hmem (by rw [hsame])] at hfields
      rw [textPlaces_choice hchoice, mem_range'_1, choiceTexts, ← h.length_origins,
        ← length_map Origin.field]
      obtain ⟨_, _, hf, t₀, _, _, rfl, t₁, _, _, rfl, t₂, _, _, rfl, t₃, texts, _, rfl, ⟨-, hall⟩,
        rfl⟩ := hfields
      simp only [hf, map_append, show _ = _ from t₀, show _ = _ from t₁, show _ = _ from t₂,
        show _ = _ from t₃] at hk hlt ⊢
      -- four leading operands, then texts only
      rcases k with _ | _ | _ | _ | k
      · exact iff_of_false (by omega) (Option.some.inj hk ▸ nofun)
      · exact iff_of_false (by omega) (Option.some.inj hk ▸ nofun)
      · exact iff_of_false (by omega) (Option.some.inj hk ▸ nofun)
      · exact iff_of_false (by omega) (Option.some.inj hk ▸ nofun)
      · rw [map_nil, append_nil] at hk
        exact iff_of_true (by omega) (hall _ (mem_of_getElem? hk))
    · rw [textPlaces_other htext hchoice]
      refine iff_of_false (by simp) fun hfield => ?_
      obtain ⟨spec, hspec, hunit⟩ := hfields.unit_eq (mem_of_getElem? hr)
      rcases text_entries _ hmem spec hspec (hunit.trans hfield) with hsig | hsig
      · exact htext ((i.opcode_eq_iff [0x00]).mpr (SignatureKey.bytes.inj hsig))
      · exact hchoice ((i.opcode_eq_iff _).mpr (SignatureKey.bytes.inj hsig))

/-- A text that has bytes in a script and is not taken for another operand. -/
def Dialogue.Storable (v : Json) : Prop :=
  ∃ s bytes, v = .str s ∧ Operand.read s = .ok (.text s) ∧
    CodePage.cp932.encode s.toList = .ok bytes

theorem Dialogue.Supplied.storable {v : Json} (h : Supplied texts low high v)
    (hm : ∀ k v, low ≤ k → k < high → messageAt texts k = .ok v → Storable v) : Storable v := by
  rcases h with rfl | ⟨k, hl, hh, hk⟩
  · exact ⟨"", [], rfl, read_untagged "" (by decide), rfl⟩
  · exact hm k v hl hh hk

theorem Dialogue.Storable.stored {v : Json} (h : Storable v) :
    ∃ piece, storeJson .script .little v = .ok piece := by
  obtain ⟨s, bytes, rfl, hread, henc⟩ := h
  exact ⟨_, Operand.storeJson_text .cp932 .little s bytes hread henc⟩

def Listing.piecesOf (operands : List Json) : List (List UInt8) :=
  operands.map fun v =>
    match storeJson .script .little v with
    | .ok piece => piece
    | .error _ => []

theorem Listing.stored_piecesOf {operands : List Json}
    (h : ∀ v ∈ operands, ∃ piece, storeJson .script .little v = .ok piece) :
    Stored .script operands (piecesOf operands) := by
  rw [Stored, piecesOf, forall₂_map_right_iff, forall₂_same]
  intro v hv
  obtain ⟨piece, hp⟩ := h v hv
  rw [hp]

theorem Instruction.jumpPlaces_congr {j : Instruction} (hs : i.signature = j.signature)
    (hl : i.operands.length = j.operands.length) : i.jumpPlaces = j.jumpPlaces := by
  have hop : i.opcode = j.opcode := congrArg Hex.spaced hs
  rw [jumpPlaces, jumpPlaces, hop, hl]

structure Carried (image : Image) (i : Instruction) (s : Segment) : Prop where
  sound : s.Sound
  signature_eq : s.instruction.signature = i.signature
  offset_eq : s.instruction.offset = i.offset
  length_eq : s.instruction.operands.length = i.operands.length
  jumps_eq : ∀ k ∈ i.jumpPlaces, s.instruction.operands[k]? = i.operands[k]?
  pieces_eq : ∀ (k : Nat) (r : Origin), (i.origins .cp932 table image)[k]? = some r →
    r.field ≠ .text → s.pieces[k]? = some r.bytes

namespace Carried

variable {image : Image} {i : Instruction} {s : Segment}

theorem jumpPlaces_eq (h : Carried image i s) : s.instruction.jumpPlaces = i.jumpPlaces :=
  jumpPlaces_congr h.signature_eq h.length_eq

theorem numberAt_eq (h : Carried image i s) (hk : k ∈ i.jumpPlaces) :
    s.instruction.numberAt? k = i.numberAt? k := by
  rw [numberAt?, numberAt?, Listing.numberAt?, Listing.numberAt?, h.jumps_eq k hk]

end Carried

theorem Located.carried {start stop : Nat} {i' : Instruction}
    (h : Located .cp932 table image start stop i) (hfill : Refilled texts low high i i')
    (hm : ∀ k v, low ≤ k → k < high → messageAt texts k = .ok v → Storable v) :
    Carried image i ⟨i', Listing.piecesOf i'.operands⟩ := by
  -- an operand that is no text is stored as the bytes it came from
  have hplain : ∀ (k : Nat) (r : Origin), (i.origins .cp932 table image)[k]? = some r →
      k ∉ textPlaces i → i'.operands[k]? = some r.operand ∧
        storeJson .script .little r.operand = .ok r.bytes := by
    intro k r hr hk
    have hop : i.operands[k]? = some r.operand := by
      rw [← h.traced.operands_eq, getElem?_map, hr]
      rfl
    refine ⟨(hfill.unchanged k hk).trans hop, ?_⟩
    exact Origin.store_eq (h.traced.read r (mem_of_getElem? hr))
      fun hfield => absurd ((h.mem_textPlaces hr).mpr hfield) hk
  have hstored : ∀ v ∈ i'.operands, ∃ piece, storeJson .script .little v = .ok piece := by
    intro v hv
    obtain ⟨k, hk⟩ := mem_iff_getElem?.mp hv
    by_cases htext : k ∈ textPlaces i
    · obtain ⟨w, hw, hsup⟩ := hfill.filled k htext
      rw [hk, Option.some.injEq] at hw
      exact hw ▸ (hsup.storable hm).stored
    · have hlt : k < (i.origins .cp932 table image).length := by
        rw [h.length_origins, ← hfill.length_eq]
        exact (List.getElem?_eq_some_iff.mp hk).1
      obtain ⟨hop, hstore⟩ := hplain k _ (List.getElem?_eq_getElem hlt) htext
      rw [hk, Option.some.injEq] at hop
      exact ⟨_, hop ▸ hstore⟩
  have hjumps : ∀ k ∈ i.jumpPlaces, i'.operands[k]? = i.operands[k]? :=
    fun k hk => hfill.unchanged k (jumpPlaces_textPlaces i hk)
  refine ⟨⟨Listing.stored_piecesOf hstored, ?_⟩, hfill.signature_eq, hfill.offset_eq,
    hfill.length_eq, hjumps, ?_⟩
  · intro k hk
    have hk' : k ∈ i.jumpPlaces := jumpPlaces_congr hfill.signature_eq hfill.length_eq ▸ hk
    simpa only [hjumps k hk'] using h.jumpsTyped k hk'
  · intro k r hr hfield
    obtain ⟨hop, hstore⟩ := hplain k r hr (mt (h.mem_textPlaces hr).mp hfield)
    simp [Listing.piecesOf, hop, hstore]

structure Laid (image : Image) (place : Listing.Places) (s t : Segment) : Prop where
  carried : Carried image t.instruction s
  pieces_eq : t.pieces = (s.moved place).pieces

section layout

variable {image : Image} {place : Listing.Places} {xs : List Instruction}
  {ss layout : List Segment}

theorem Carried.offsets (h : List.Forall₂ (Carried image) xs ss) :
    (ss.map fun s => s.instruction.offset) = xs.map offset := by
  induction h with
  | nil => rfl
  | cons hc _ ih => rw [map_cons, map_cons, ih, hc.offset_eq]

theorem Carried.resolved_iff (h : List.Forall₂ (Carried image) xs ss) (hc : Carried image i s)
    (hsmall : ∀ n p : Nat, n < 2 ^ 32 → placeFrom 0 ss n = some p → p < 2 ^ 32) :
    s.Resolved (placeFrom 0 ss) ↔ ∀ n ∈ i.targets, ∃ j ∈ xs, j.offset = n := by
  have hmem : ∀ n, (∃ s ∈ ss, s.instruction.offset = n) ↔ ∃ j ∈ xs, j.offset = n := by
    intro n
    rw [← mem_map, ← mem_map, Carried.offsets h]
  have htargets : s.instruction.targets = i.targets := by
    rw [targets, targets, hc.jumpPlaces_eq]
    exact filterMap_congr fun k hk => hc.numberAt_eq hk
  rw [Segment.resolved_iff hc.sound hsmall]
  simp only [htargets, placeFrom_isSome, hmem]

theorem Carried.laid (place : Listing.Places) (h : List.Forall₂ (Carried image) xs ss) :
    ∃ layout : List Segment, layout.map instruction = xs ∧
      List.Forall₂ (Laid image place) ss layout := by
  induction h with
  | nil => exact ⟨[], rfl, .nil⟩
  | @cons i s _ _ hc _ ih =>
    obtain ⟨layout, rfl, hall⟩ := ih
    exact ⟨⟨i, (s.moved place).pieces⟩ :: layout, rfl, .cons ⟨hc, rfl⟩ hall⟩

theorem Laid.bytes_eq (h : Laid image place s t) : t.bytes = (s.moved place).bytes := by
  rw [bytes, Slot.bytes, slot, h.pieces_eq, ← h.carried.signature_eq]
  rfl

theorem Laid.script_eq (h : List.Forall₂ (Laid image place) ss layout) :
    layout.flatMap bytes = ss.flatMap fun s => (s.moved place).bytes := by
  induction h with
  | nil => rfl
  | cons hl _ ih => rw [flatMap_cons, flatMap_cons, ih, hl.bytes_eq]

theorem Laid.start_eq (h : List.Forall₂ (Laid image place) ss layout) (n : Nat) :
    start layout n = start ss n := by
  have hlen : ∀ {ss layout : List Segment}, List.Forall₂ (Laid image place) ss layout →
      (layout.flatMap bytes).length = (ss.flatMap bytes).length := by
    intro ss layout h
    induction h with
    | nil => rfl
    | cons hl _ ih =>
      rw [flatMap_cons, flatMap_cons, length_append, length_append, ih,
        hl.bytes_eq, length_moved hl.carried.sound]
  rw [start, start, Slot.start, Slot.start, ← map_take, ← map_take, flatMap_slots, flatMap_slots]
  exact hlen (forall₂_take n h)

theorem Laid.jump (h : List.Forall₂ (Laid image (placeFrom 0 ss)) ss layout)
    (ht : Laid image (placeFrom 0 ss) s t) (hr : s.Resolved (placeFrom 0 ss))
    (hk : k ∈ t.instruction.jumpPlaces) :
    ∃ n u, layout[n]? = some u ∧ t.instruction.numberAt? k = some u.instruction.offset ∧
      t.pieces[k]? = some (word32 (start layout n)) := by
  have hc := ht.carried
  have hk' : k ∈ s.instruction.jumpPlaces := hc.jumpPlaces_eq ▸ hk
  obtain ⟨offset, p, hword, hp, -⟩ := hr k hk'
  have hnum : s.instruction.numberAt? k = some (offset : Int) := hword.numberAt
  obtain ⟨n, v, hv, hoff, hstart⟩ := placeFrom_some hp
  obtain ⟨hlt, hget⟩ := List.getElem?_eq_some_iff.mp hv
  have hlt' : n < layout.length := h.length_eq ▸ hlt
  have hu := (List.forall₂_iff_get.mp h).2 n hlt hlt'
  refine ⟨n, layout[n], getElem?_eq_getElem hlt', ?_, ?_⟩
  · rw [← hc.numberAt_eq hk, hnum, ← hoff, ← hget]
    exact congrArg some hu.carried.offset_eq
  · rw [ht.pieces_eq, Laid.start_eq h, (moved_word hc.sound hk' hword hp).2, hstart, Nat.zero_add]

theorem Laid.unmoved (h : Laid image place s t) {piece : List UInt8}
    (hk : k ∉ t.instruction.jumpPlaces) (hp : s.pieces[k]? = some piece) :
    t.pieces[k]? = some piece := by
  rw [← h.carried.jumpPlaces_eq] at hk
  rw [h.pieces_eq, (moved_other hk).2, hp]

end layout

theorem Tiled.carried {a c : Nat} {xs ys : List Instruction} (h : Tiled .cp932 table image a xs c)
    (hfill : List.Forall₂ (Refilled texts low high) (spoken xs) ys)
    (hm : ∀ k v, low ≤ k → k < high → messageAt texts k = .ok v → Storable v) :
    List.Forall₂ (Carried image) (spoken xs)
      (ys.map fun y => ⟨y, Listing.piecesOf y.operands⟩) := by
  have hlocated : ∀ i ∈ spoken xs, ∃ start stop, Located .cp932 table image start stop i := by
    intro i hi
    obtain ⟨start, stop, -, hloc⟩ := h.located i (mem_of_mem_filter hi)
    exact ⟨start, stop, hloc⟩
  rw [forall₂_map_right_iff]
  refine ((forall₂_and_left _ _).mpr ⟨hlocated, hfill⟩).imp ?_
  rintro i y ⟨⟨start, stop, hloc⟩, hr⟩
  exact hloc.carried hr hm

theorem Tiled.lost_iff {a c : Nat} {xs : List Instruction} (h : Tiled .cp932 table image a xs c)
    (htargets : ∀ i ∈ xs, ∀ n ∈ i.targets, ∃ j ∈ xs, j.offset = n) :
    (∃ i ∈ spoken xs, ¬∀ n ∈ i.targets, ∃ j ∈ spoken xs, j.offset = n) ↔
      ∃ i ∈ spoken xs, ∃ n ∈ i.targets, ∃ j ∈ xs,
        j.opcode = Role.lineBreak.signature ∧ j.offset = n := by
  have hunique : ∀ i ∈ xs, ∀ j ∈ xs, i.offset = j.offset → i = j := fun i hi j hj =>
    inj_on_of_nodup_map (h.offsets_increasing.imp Int.ne_of_lt) hi hj
  constructor
  · rintro ⟨i, hi, hlost⟩
    simp only [not_forall] at hlost
    obtain ⟨n, hn, hnone⟩ := hlost
    obtain ⟨j, hj, hoff⟩ := htargets i (mem_of_mem_filter hi) n hn
    refine ⟨i, hi, n, hn, j, hj, ?_, hoff⟩
    by_contra hop
    exact hnone ⟨j, mem_filter.mpr ⟨hj, by simpa using hop⟩, hoff⟩
  · rintro ⟨i, hi, n, hn, j, hj, hop, hoff⟩
    refine ⟨i, hi, fun hall => ?_⟩
    obtain ⟨j', hj', hoff'⟩ := hall n hn
    obtain ⟨hmem, hop'⟩ := mem_filter.mp hj'
    rw [hunique j' hmem j hj (hoff'.trans hoff.symm)] at hop'
    simp [hop] at hop'

/-- A script whose jumps all lead to instructions is rebuilt after its dialogue has been put back,
unless a jump that is kept leads to a line break. Then every jump holds the position at which the
instruction it led to begins, and every other operand that is no text has the bytes that it had. -/
theorem Dialogue.rebuild_replaced (file : String) (data : List UInt8) (texts : Json)
    (start next : Int) (listing : List Json)
    (htargets : ∀ i ∈ (Disassembly.run .cp932 Opcodes.table data.toArray).instructions,
      ∀ n ∈ i.targets, ∃ j ∈ (Disassembly.run .cp932 Opcodes.table data.toArray).instructions,
        j.offset = n)
    (hreplace : replace (.arr ((Disassembly.run .cp932 Opcodes.table data.toArray).instructions.map
      Instruction.toJson)) texts start = .ok (listing, next))
    (hmessages : ∀ k v, start ≤ k → k < next → messageAt texts k = .ok v → Storable v)
    (hsize : ∀ bytes, Listing.assembleAll listing = .ok bytes → bytes.length < 2 ^ 32) :
    let script := (Disassembly.run .cp932 Opcodes.table data.toArray).instructions
    let lost := ∃ i ∈ spoken script, ∃ n ∈ i.targets, ∃ j ∈ script,
      j.opcode = Role.lineBreak.signature ∧ j.offset = n
    ((∃ shown target, Listing.rebuild file listing =
        .error (.refused (.lostJump file shown target))) ↔ lost) ∧
    (¬lost → ∃ layout : List Segment, layout.map Segment.instruction = spoken script ∧
      Listing.rebuild file listing = .ok (layout.flatMap Segment.bytes) ∧
      ∀ s ∈ layout, (∀ k ∈ s.instruction.jumpPlaces, ∃ n t, layout[n]? = some t ∧
          s.instruction.numberAt? k = some t.instruction.offset ∧
          s.pieces[k]? = some (word32 (Segment.start layout n))) ∧
        ∀ (k : Nat) (r : Origin),
          (s.instruction.origins .cp932 Opcodes.table data.toArray)[k]? = some r →
          k ∉ s.instruction.jumpPlaces → r.field ≠ .text → s.pieces[k]? = some r.bytes) := by
  intro script lost
  obtain ⟨m, hoffset, htiled⟩ := Disassembly.run_tiled Opcodes.table_regular .cp932 data.toArray
  obtain ⟨ys, rfl, hkept⟩ := replace_kept hreplace
  have hfill := hkept.refilled
  have hcarried := htiled.carried hfill hmessages
  have hlost := htiled.lost_iff htargets
  -- from here on only the segments of what is kept matter
  generalize hss : ys.map (fun y => (⟨y, Listing.piecesOf y.operands⟩ : Segment)) = ss at hcarried
  have hentries : ys.map Instruction.toJson = Segment.entries ss := by
    rw [← hss, Segment.entries, List.map_map]
    rfl
  have hsound : ∀ s ∈ ss, s.Sound := by
    intro s hs
    obtain ⟨i, -, hc⟩ := exists_left hcarried hs
    exact hc.sound
  have hnodup : (ss.map fun s => s.instruction.offset).Nodup := by
    rw [Carried.offsets hcarried]
    exact (htiled.offsets_increasing.imp Int.ne_of_lt).sublist (List.filter_sublist.map _)
  rw [hentries] at hsize ⊢
  have hsmall : ∀ n p : Nat, n < 2 ^ 32 → Segment.placeFrom 0 ss n = some p → p < 2 ^ 32 := by
    intro n p _ hp
    obtain ⟨k, s, -, -, rfl⟩ := Segment.placeFrom_some hp
    have htotal := hsize _ (Segment.assembleAll_entries fun s hs => (hsound s hs).stored)
    have := Segment.start_le ss k
    omega
  by_cases hl : lost
  · obtain ⟨i, hi, hunresolved⟩ := hlost.mpr hl
    obtain ⟨s, hs, hc⟩ := exists_right hcarried hi
    have hfault := Segment.rebuild_lost file hsound hnodup hsmall
      ⟨s, hs, mt (Carried.resolved_iff hcarried hc hsmall).mp hunresolved⟩
    exact ⟨iff_of_true hfault hl, fun hn => absurd hl hn⟩
  · have hresolved : ∀ s ∈ ss, s.Resolved (Segment.placeFrom 0 ss) := by
      intro s hs
      obtain ⟨i, hi, hc⟩ := exists_left hcarried hs
      by_contra hn
      exact hl (hlost.mp ⟨i, hi, mt (Carried.resolved_iff hcarried hc hsmall).mpr hn⟩)
    have hfound := Segment.rebuild_found file hsound hnodup hresolved
    refine ⟨iff_of_false ?_ hl, fun _ => ?_⟩
    · rintro ⟨shown, target, hfault⟩
      rw [hfound] at hfault
      cases hfault
    · obtain ⟨layout, hinstructions, hlaid⟩ := Carried.laid (Segment.placeFrom 0 ss) hcarried
      refine ⟨layout, hinstructions, by rw [hfound, Laid.script_eq hlaid], fun t ht => ?_⟩
      obtain ⟨s, hs, hst⟩ := exists_left hlaid ht
      refine ⟨fun k hk => Laid.jump hlaid hst (hresolved s hs) hk, fun k r hr hk hfield => ?_⟩
      exact hst.unmoved hk (hst.carried.pieces_eq k r hr hfield)

def sentenceScript : List UInt8 :=
  [0x00, 0x41, 0x41, 0x00, 0x14, 0x15, 0x06, 0x05, 0x00, 0x00, 0x00]

def sentence : List Instruction :=
  [⟨[0x00], 0, 0, [.str "AA"]⟩, ⟨[0x14], 4, 1, []⟩, ⟨[0x15], 5, 2, []⟩,
   ⟨[0x06], 6, 3, [.str "u32:5"]⟩]

theorem run_sentenceScript :
    (Disassembly.run .cp932 Opcodes.table sentenceScript.toArray).instructions = sentence := by cbv

theorem Dialogue.rebuild_replaced_sentence :
    ∃ listing, replace (.arr ((Disassembly.run .cp932 Opcodes.table
        sentenceScript.toArray).instructions.map Instruction.toJson))
        (.arr [.obj [("message", .str "B")]]) 0 = .ok (listing, 1) ∧
      ∃ layout : List Segment, layout.map Segment.instruction =
          spoken (Disassembly.run .cp932 Opcodes.table sentenceScript.toArray).instructions ∧
        Listing.rebuild "sentence" listing = .ok (layout.flatMap Segment.bytes) := by
  have hreplace : replace (.arr (sentence.map Instruction.toJson))
      (.arr [.obj [("message", .str "B")]]) 0 =
      .ok (List.map Instruction.toJson [⟨[0x00], 0, 0, [.str "B"]⟩, ⟨[0x15], 5, 2, []⟩,
        ⟨[0x06], 6, 3, [.str "u32:5"]⟩], 1) := by cbv
  rw [← run_sentenceScript] at hreplace
  obtain ⟨-, hlayout⟩ := rebuild_replaced "sentence" sentenceScript _ 0 1 _
    (by rw [run_sentenceScript]; decide +kernel) hreplace
    (fun k v hl hh hk => by
      obtain rfl : k = 0 := by omega
      have hv : v = .str "B" := (Except.ok.inj hk).symm
      exact ⟨"B", [0x42], hv, read_untagged _ (by decide), rfl⟩)
    (fun bytes hbytes => by
      rw [← Except.ok.inj hbytes]
      decide)
  obtain ⟨layout, hinstructions, hrebuilt, -⟩ := hlayout (by
    rw [run_sentenceScript]
    decide +kernel)
  exact ⟨_, hreplace, layout, hinstructions, hrebuilt⟩

end SceneText
