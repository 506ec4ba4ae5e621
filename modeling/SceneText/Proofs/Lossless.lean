import Mathlib
import SceneText.Proofs.Relocation

/-!
# Disassembly loses nothing

The instructions of a script, stored one behind the other, are the script up to where the
disassembly ended. If that is its end, a listing that was left alone is rebuilt into the very same
script, unless one of its jumps leads to no instruction.
-/

namespace SceneText

open List Opcodes Instruction Segment
open Listing (Places assembleAll rebuild)

namespace FieldSpec

def unit : FieldSpec → FieldSpec
  | .repeated _ spec | .repeatedBy _ spec => spec
  | spec => spec

theorem Takes.unit_eq {spec f : FieldSpec} {operands : List Json} {fields : List FieldSpec}
    (h : spec.Takes operands fields) (hf : f ∈ fields) : spec.unit = f := by
  unfold Takes at h
  split at h
  · exact (h.2 f hf).symm
  · exact (h.2 f hf).symm
  · next hr hrb =>
    have hspec : f = spec := mem_singleton.mp (h ▸ hf)
    cases spec with
    | repeated count inner => exact absurd rfl (hr count inner)
    | repeatedBy index inner => exact absurd rfl (hrb index inner)
    | _ => exact hspec.symm

theorem Fits.unit_eq {specs : List FieldSpec} {operands : List Json} {r : Origin} {rs : List Origin}
    (h : Fits operands specs rs) (hr : r ∈ rs) : ∃ spec ∈ specs, spec.unit = r.field := by
  induction specs generalizing operands rs with
  | nil =>
    rw [Fits] at h
    simp [h] at hr
  | cons spec rest ih =>
    obtain ⟨front, back, rfl, hfront, hback⟩ := h
    rcases mem_append.mp hr with hr | hr
    · exact ⟨spec, by simp, hfront.unit_eq (mem_map_of_mem hr)⟩
    · obtain ⟨other, hmem, heq⟩ := ih hback hr
      exact ⟨other, by simp [hmem], heq⟩

end FieldSpec

namespace Opcodes

def jumpSignatures : List (List UInt8) :=
  [[0x06], [0x00, 0xff, 0x03, 0x00], [0x11, 0xff], [0x12, 0xff]]

theorem jumps_eq : jumps = jumpSignatures.map Hex.spaced := by decide

theorem guardedJump_eq : guardedJump = Hex.spaced [0x15, 0xff] := by decide

theorem jump_fields : ∀ entry ∈ table, ∀ signature ∈ jumpSignatures, entry.1 = .bytes signature →
    ∀ spec ∈ entry.2, spec.unit = .int .u32 := by decide

theorem guardedJump_fields : ∀ entry ∈ table, entry.1 = .bytes [0x15, 0xff] →
    entry.2 = [.times 2 (.int .u32)] := by decide

theorem choice_fields : ∀ entry ∈ table, entry.1 = .bytes choiceSignature →
    entry.2 = [.int .u32, .bytes 1, .int .u8, .int .u32, .timesBy (-2) .text] := by decide

end Opcodes

namespace Located

variable {page : CodePage} {image : Image} {start stop : Nat} {i : Instruction} {table : FlatTable}
  {k : Nat}

theorem word_operand (h : Located page table image start stop i)
    (hk : ((i.origins page table image).map Origin.field)[k]? = some (.int .u32)) :
    ∃ n : Nat, n < 2 ^ 32 ∧ i.operands[k]? = some (.str (Operand.write (.int .u32 n))) := by
  rw [getElem?_map, Option.map_eq_some_iff] at hk
  obtain ⟨r, hr, hfield⟩ := hk
  have hread := h.traced.read r (mem_of_getElem? hr)
  simp only [Origin.Read, hfield] at hread
  obtain ⟨v, hop, hfits, -⟩ := hread
  have hget : i.operands[k]? = some r.operand := by
    rw [← h.traced.operands_eq, getElem?_map, hr]
    rfl
  obtain ⟨n, rfl, hn⟩ := Width.nat_of_fits rfl hfits
  exact ⟨n, hn, hget.trans (congrArg some hop)⟩

theorem length_origins (h : Located page table image start stop i) :
    (i.origins page table image).length = i.operands.length := by
  rw [← h.traced.operands_eq, length_map]

theorem jump_field (h : Located page Opcodes.table image start stop i) (hk : k ∈ i.jumpPlaces) :
    ((i.origins page Opcodes.table image).map Origin.field)[k]? = some (.int .u32) := by
  obtain ⟨specs, hmem, hfields⟩ := h.fields
  unfold jumpPlaces Listing.jumpPlaces at hk
  split at hk
  · next hjump =>
    rw [Opcodes.jumps_eq, mem_map] at hjump
    obtain ⟨signature, hsig, heq⟩ := hjump
    have hsame := (i.opcode_eq_iff signature).mp heq.symm
    have hlt := h.length_origins ▸ mem_range.mp hk
    obtain ⟨spec, hspec, hunit⟩ := hfields.unit_eq (getElem_mem hlt)
    rw [getElem?_map, getElem?_eq_getElem hlt, Option.map_some, ← hunit,
      Opcodes.jump_fields _ hmem signature hsig (by rw [hsame]) spec hspec]
  · split at hk
    · next hchoice =>
      have hsame := (i.opcode_eq_iff _).mp hchoice
      rw [show specs = _ from Opcodes.choice_fields _ hmem (by rw [hsame])] at hfields
      obtain ⟨_, _, hf, t₀, _, _, rfl, t₁, _, _, rfl, t₂, _, _, rfl, t₃, -⟩ := hfields
      simp only [hf, map_append, show _ = _ from t₀, show _ = _ from t₁, show _ = _ from t₂,
        show _ = _ from t₃]
      simp only [mem_cons, not_mem_nil, or_false] at hk
      rcases hk with rfl | rfl <;> rfl
    · split at hk
      · next hguarded =>
        rw [Opcodes.guardedJump_eq] at hguarded
        have hsame := (i.opcode_eq_iff _).mp hguarded
        rw [show specs = _ from Opcodes.guardedJump_fields _ hmem (by rw [hsame])] at hfields
        obtain ⟨_, _, hf, ⟨htwo, hall⟩, -⟩ := hfields
        rw [hf, map_append, eq_replicate_of_mem hall, ← Except.ok.inj htwo, mem_singleton.mp hk]
        rfl
      · simp at hk

theorem jumpsTyped (h : Located page Opcodes.table image start stop i) : i.JumpsTyped :=
  fun _ hk => h.word_operand (h.jump_field hk)

end Located

def Instruction.segment (image : Image) (i : Instruction) : Segment :=
  ⟨i, (i.origins .cp932 table image).map Origin.bytes⟩

theorem Segment.moved_fixed {place : Places} {s : Segment} (hs : s.Sound)
    (h : ∀ n : Nat, (n : Int) ∈ s.instruction.targets → place n = some n) :
    (s.moved place).bytes = s.bytes := by
  have hpieces : (s.moved place).pieces = s.pieces := by
    apply ext_getElem?
    intro k
    by_cases hk : k ∈ s.instruction.jumpPlaces
    · obtain ⟨n, hn, hop⟩ := hs.jumps k hk
      obtain ⟨hlt, hval⟩ := List.getElem?_eq_some_iff.mp hop
      have hlt' : k < s.pieces.length := hs.stored.length_eq ▸ hlt
      have hplace := h n (List.mem_filterMap.mpr ⟨k, hk, numberAt_of_typed hn hop⟩)
      have hstored := Listing.stored_getElem hs.stored k hlt hlt'
      rw [hval, Operand.storeJson_int _ _ _ _ (u32_fits hn), Width.encode_u32 n hn,
        Except.ok.injEq] at hstored
      rw [(moved_word hs hk (wordAt_of_typed hn hop) hplace).2, hstored, getElem?_eq_getElem hlt']
    · exact (moved_other hk).2
  rw [bytes, bytes, Slot.bytes, slot, hpieces]
  rfl

namespace Tiled

variable {image : Image} {a c : Nat} {xs : List Instruction}

section

variable (h : Tiled .cp932 table image a xs c)
include h

theorem segments_sound (hf : ∀ i ∈ xs, ∀ r ∈ i.origins .cp932 table image, r.Faithful .cp932) :
    ∀ s ∈ xs.map (segment image), s.Sound := by
  intro s hs
  obtain ⟨i, hi, rfl⟩ := mem_map.mp hs
  obtain ⟨start, stop, -, hloc⟩ := h.located i hi
  exact ⟨hloc.traced.stored (hf i hi), hloc.jumpsTyped⟩

theorem segments_bytes : (xs.map (segment image)).flatMap bytes = image.span a c := by
  induction h with
  | nil n => exact (image.span_self n).symm
  | @cons a b c i rest here there ih =>
    rw [map_cons, flatMap_cons, ih,
      show (i.segment image).bytes = image.span a b from here.bytes_eq,
      Image.span_append image a b c (Nat.le_of_lt here.advance) there.le]

theorem segments_offsets : ((xs.map (segment image)).map fun s => s.instruction.offset).Nodup := by
  rw [map_map]
  exact h.offsets_increasing.imp Int.ne_of_lt

theorem placeFrom_eq (hc : c ≤ image.size) {n : Int}
    {p : Nat} (hp : placeFrom a (xs.map (segment image)) n = some p) : n = p := by
  induction h with
  | nil m => cases hp
  | @cons a b c i rest here there ih =>
    have hlen : (i.segment image).bytes.length = b - a := by
      have := there.le
      rw [show (i.segment image).bytes = image.span a b from here.bytes_eq,
        Image.length_span _ _ _ (by omega)]
    have hnext : a + (i.segment image).slot.bytes.length = b := by
      have := here.advance
      rw [← Segment.bytes, hlen]
      omega
    rw [placeFrom, map_cons, map_cons, Slot.placeFrom, hnext] at hp
    split at hp
    · next hoff =>
      rw [← hoff, ← Option.some.inj hp]
      exact here.offset_eq
    · exact ih hc hp

end

theorem entries_segments (image : Image) (xs : List Instruction) :
    entries (xs.map (segment image)) = xs.map toJson := by
  rw [entries, map_map]
  rfl

section script

variable (file : String) (h : Tiled .cp932 table image 0 xs image.size)
  (hf : ∀ i ∈ xs, ∀ r ∈ i.origins .cp932 table image, r.Faithful .cp932)
include h hf

theorem resolved_iff {i : Instruction} (hi : i ∈ xs) :
    (i.segment image).Resolved (placeFrom 0 (xs.map (segment image))) ↔
      ∀ n ∈ i.targets, (placeFrom 0 (xs.map (segment image)) n).isSome = true :=
  Segment.resolved_iff (h.segments_sound hf _ (mem_map_of_mem hi)) fun n p hn hp => by
    have := h.placeFrom_eq (Nat.le_refl _) hp
    omega

theorem rebuild_found (hr : ∀ i ∈ xs, ∀ n ∈ i.targets, ∃ j ∈ xs, j.offset = n) :
    rebuild file (xs.map toJson) = .ok image.toList := by
  have hplaces : ∀ i ∈ xs, ∀ n ∈ i.targets,
      (placeFrom 0 (xs.map (segment image)) n).isSome = true := by
    intro i hi n hn
    obtain ⟨j, hj, hoffset⟩ := hr i hi n hn
    exact (placeFrom_isSome _ _ _).mpr ⟨j.segment image, mem_map_of_mem hj, hoffset⟩
  have hresolved : ∀ s ∈ xs.map (segment image),
      s.Resolved (placeFrom 0 (xs.map (segment image))) := by
    intro s hs
    obtain ⟨i, hi, rfl⟩ := mem_map.mp hs
    exact (h.resolved_iff hf hi).mpr (hplaces i hi)
  have hsound := h.segments_sound hf
  have hsame : ∀ s ∈ xs.map (segment image),
      (s.moved (placeFrom 0 (xs.map (segment image)))).bytes = s.bytes := by
    intro s hs
    apply moved_fixed (hsound s hs)
    intro n hn
    obtain ⟨i, hi, rfl⟩ := mem_map.mp hs
    obtain ⟨p, hp⟩ := Option.isSome_iff_exists.mp (hplaces i hi n hn)
    rw [hp, Int.ofNat.inj (h.placeFrom_eq (Nat.le_refl _) hp)]
  rw [← entries_segments image, Segment.rebuild_found file hsound h.segments_offsets hresolved,
    flatMap_congr hsame, h.segments_bytes, Image.span, drop_zero, Nat.sub_zero]
  exact congrArg Except.ok take_length

theorem rebuild_lost (hr : ∃ i ∈ xs, ∃ n ∈ i.targets, ∀ j ∈ xs, j.offset ≠ n) :
    ∃ shown target, rebuild file (xs.map toJson) =
      .error (.refused (.lostJump file shown target)) := by
  obtain ⟨i, hi, n, hn, hnone⟩ := hr
  rw [← entries_segments image]
  apply Segment.rebuild_lost file (h.segments_sound hf) h.segments_offsets
  · intro n p hn hp
    have := h.placeFrom_eq (Nat.le_refl _) hp
    omega
  · refine ⟨i.segment image, mem_map_of_mem hi, fun hres => ?_⟩
    obtain ⟨s, hs, heq⟩ := (placeFrom_isSome _ _ _).mp ((h.resolved_iff hf hi).mp hres n hn)
    obtain ⟨j, hj, rfl⟩ := mem_map.mp hs
    exact hnone j hj heq

end script
end Tiled

/-- A script whose texts are written as they were read is the bytes of its instructions, up to
where its disassembly ended. Disassembled to its end it is rebuilt as it was, or a jump is refused;
the latter happens exactly if some jump leads to no instruction. -/
theorem Disassembly.rebuild_run (file : String) (data : List UInt8)
    (hf : ∀ i ∈ (run .cp932 Opcodes.table data.toArray).instructions,
      ∀ r ∈ i.origins .cp932 Opcodes.table data.toArray, r.Faithful .cp932) :
    let result := run .cp932 Opcodes.table data.toArray
    let entries := result.instructions.map Instruction.toJson
    result.halt ≠ .endless ∧
    assembleAll entries = .ok (data.take result.offset.toNat) ∧
    (result.offset = data.length → (rebuild file entries = .ok data ∨
        ∃ shown target, rebuild file entries =
          .error (.refused (.lostJump file shown target))) ∧
      ((∃ fault, rebuild file entries = .error fault) ↔
        ∃ i ∈ result.instructions, ∃ n ∈ i.targets, ∀ j ∈ result.instructions, j.offset ≠ n)) := by
  intro result entries
  obtain ⟨m, hoffset, htiled⟩ := run_tiled Opcodes.table_regular .cp932 data.toArray
  have hspan : Image.span data.toArray 0 m = data.take m := by simp [Image.span]
  refine ⟨run_not_endless Opcodes.table_regular _ _, ?_, ?_⟩
  · obtain ⟨parts, hparts, hflat⟩ := htiled.assemble_eq hf
    rw [show result.offset = m from hoffset, Int.toNat_natCast, ← hspan, ← hflat]
    simp only [assembleAll, entries]
    rw [TextCode.script, hparts]
    rfl
  · intro hend
    have hm : m = Array.size data.toArray := by
      rw [List.size_toArray]
      have := hoffset.symm.trans hend
      omega
    rw [hm] at htiled
    by_cases hlost : ∃ i ∈ result.instructions, ∃ n ∈ i.targets,
        ∀ j ∈ result.instructions, j.offset ≠ n
    · obtain ⟨shown, target, hfault⟩ := htiled.rebuild_lost file hf hlost
      exact ⟨.inr ⟨shown, target, hfault⟩, iff_of_true ⟨_, hfault⟩ hlost⟩
    · have hfound := htiled.rebuild_found file hf (by simpa using hlost)
      refine ⟨.inl hfound, iff_of_false ?_ hlost⟩
      rintro ⟨fault, hfault⟩
      rw [show rebuild file entries = _ from hfound] at hfault
      cases hfault

def loopScript : List UInt8 := [0x00, 0x41, 0x00, 0x15, 0x06, 0x00, 0x00, 0x00, 0x00]

theorem Disassembly.rebuild_run_loop :
    (run .cp932 Opcodes.table loopScript.toArray).offset = loopScript.length ∧
    (∀ i ∈ (run .cp932 Opcodes.table loopScript.toArray).instructions,
      ∀ r ∈ i.origins .cp932 Opcodes.table loopScript.toArray, r.Faithful .cp932) ∧
    rebuild "loop"
        ((run .cp932 Opcodes.table loopScript.toArray).instructions.map Instruction.toJson) =
      .ok loopScript := by
  have hrun : run .cp932 Opcodes.table loopScript.toArray =
      ⟨[⟨[0x00], 0, 0, [.str "A"]⟩, ⟨[0x15], 3, 1, []⟩, ⟨[0x06], 4, 2, [.str "u32:0"]⟩], 9,
        .atEnd⟩ := by cbv
  have hoffset : (run .cp932 Opcodes.table loopScript.toArray).offset = loopScript.length := by
    rw [hrun]
    rfl
  have horigins : (run .cp932 Opcodes.table loopScript.toArray).instructions.flatMap
      (Instruction.origins .cp932 Opcodes.table loopScript.toArray) =
      [⟨.text, .str "A", [0x41, 0x00]⟩, ⟨.int .u32, .str "u32:0", [0, 0, 0, 0]⟩] := by
    rw [hrun]
    cbv
  have hf : ∀ i ∈ (run .cp932 Opcodes.table loopScript.toArray).instructions,
      ∀ r ∈ i.origins .cp932 Opcodes.table loopScript.toArray, r.Faithful .cp932 := by
    intro i hi r hr hfield
    have hmem := List.mem_flatMap.mpr ⟨i, hi, hr⟩
    rw [horigins, List.mem_cons, List.mem_singleton] at hmem
    rcases hmem with rfl | rfl
    · exact ⟨"A", [0x41], rfl, rfl, by cbv, by cbv⟩
    · cases hfield
  refine ⟨hoffset, hf, ?_⟩
  obtain ⟨-, -, h⟩ := rebuild_run "loop" loopScript hf
  refine (h hoffset).1.resolve_right ?_
  rintro ⟨shown, target, hfault⟩
  refine absurd ((h hoffset).2.mp ⟨_, hfault⟩) ?_
  rw [hrun]
  decide +kernel

end SceneText
