import SceneText.Proofs.Slots

/-!
# Moving jumps

A script is rebuilt from segments: instructions with the pieces that their operands are stored as.
They are the slots of a listing that has one spelling for everything, and their jumps are moved as
those of slots are.
-/

namespace SceneText

open List Instruction Operand

variable {n k p : Nat}

namespace Instruction

variable {i : Instruction}

/-- The places of the operands that hold offsets of instructions. -/
def jumpPlaces (i : Instruction) : List Nat :=
  Listing.jumpPlaces i.opcode i.operands.length

def numberAt? (i : Instruction) (k : Nat) : Option Int :=
  Listing.numberAt? i.operands k

def targets (i : Instruction) : List Int :=
  i.jumpPlaces.filterMap i.numberAt?

def JumpsTyped (i : Instruction) : Prop :=
  ∀ k ∈ i.jumpPlaces, ∃ n : Nat, n < 2 ^ 32 ∧
    i.operands[k]? = some (.str (write (.int .u32 n)))

theorem u32_fits (h : n < 2 ^ 32) : Width.u32.fits n = true :=
  Width.fits_u32.mpr h

theorem wordAt_of_typed (hn : n < 2 ^ 32)
    (h : i.operands[k]? = some (.str (write (.int .u32 n)))) :
    Listing.WordAt i.operands k n :=
  ⟨_, h, read_int _ _ (u32_fits hn)⟩

theorem numberAt_of_typed (hn : n < 2 ^ 32)
    (h : i.operands[k]? = some (.str (write (.int .u32 n)))) :
    i.numberAt? k = some (n : Int) :=
  (wordAt_of_typed hn h).numberAt

end Instruction

/-- An instruction with the pieces that its operands are stored as. -/
structure Segment where
  instruction : Instruction
  pieces : List (List UInt8)

namespace Segment

open Listing

def slot (s : Segment) : Slot where
  entry := s.instruction.toJson
  opcode := s.instruction.opcode
  offset := s.instruction.offset
  operands := s.instruction.operands
  head := s.instruction.signature
  pieces := s.pieces

def bytes (s : Segment) : List UInt8 :=
  s.slot.bytes

structure Sound (s : Segment) : Prop where
  stored : Stored .script s.instruction.operands s.pieces
  jumps : s.instruction.JumpsTyped

theorem sound_of_no_jumps {s : Segment} (h : Stored .script s.instruction.operands s.pieces)
    (hnone : s.instruction.jumpPlaces = []) : s.Sound :=
  ⟨h, fun k hk => by simp [hnone] at hk⟩

def entries (ss : List Segment) : List Json :=
  ss.map fun s => s.instruction.toJson

def placeFrom (cursor : Nat) (ss : List Segment) : Places :=
  Slot.placeFrom cursor (ss.map slot)

def movesFrom (cursor : Nat) (ss : List Segment) : Moves :=
  Slot.movesFrom cursor (ss.map slot)

def start (ss : List Segment) (n : Nat) : Nat :=
  Slot.start (ss.map slot) n

def moved (place : Places) (s : Segment) : Segment where
  instruction := { s.instruction with operands := (s.slot.moved place).operands }
  pieces := (s.slot.moved place).pieces

def Resolved (place : Places) (s : Segment) : Prop :=
  s.slot.Resolved place

theorem made_slot {s : Segment} (h : Stored .script s.instruction.operands s.pieces) :
    Made s.slot.entry s.slot.head s.slot.operands s.slot.pieces := by
  refine ⟨?_, ⟨_, rfl, rfl⟩, h⟩
  change signatureOf s.instruction.toJson = .ok s.instruction.signature
  rw [signatureOf, s.instruction.field_op]
  simp only [opcode, Hex.read_spaced]

theorem sound_slot {s : Segment} (h : s.Sound) : s.slot.Sound where
  opcode := rfl
  offset := rfl
  made := made_slot h.stored
  value _ := rfl
  jumps k hk := by
    obtain ⟨n, hn, hop⟩ := h.jumps k hk
    exact ⟨n, wordAt_of_typed hn hop⟩

theorem sound_slots {ss : List Segment} (h : ∀ s ∈ ss, s.Sound) : ∀ s ∈ ss.map slot, s.Sound :=
  forall_mem_map.mpr fun s hmem => sound_slot (h s hmem)

theorem entries_eq (ss : List Segment) : entries ss = (ss.map slot).map Slot.entry := by
  rw [entries, map_map]
  rfl

theorem offsets_slots (ss : List Segment) :
    (ss.map slot).map Slot.offset = ss.map fun s => s.instruction.offset :=
  map_map ..

theorem nodup_slots {ss : List Segment} (h : (ss.map fun s => s.instruction.offset).Nodup) :
    ((ss.map slot).map Slot.offset).Nodup := by
  rwa [offsets_slots]

theorem flatMap_slots (ss : List Segment) : (ss.map slot).flatMap Slot.bytes = ss.flatMap bytes :=
  flatMap_map ..

theorem slot_moved (place : Places) (s : Segment) : (s.moved place).slot = s.slot.moved place := by
  cases h : isMoving s.slot.opcode with
  | true =>
    rw [Slot.moved, if_pos h]
    rfl
  | false =>
    rw [slot, moved, Slot.moved, h, Slot.jumpPlaces, jumpPlaces_eq_nil h, movedAt_nil]
    rfl

section moved

variable {place : Places} {s : Segment}

theorem moved_other (hk : k ∉ s.instruction.jumpPlaces) :
    (s.moved place).instruction.operands[k]? = s.instruction.operands[k]? ∧
      (s.moved place).pieces[k]? = s.pieces[k]? :=
  Slot.moved_other hk

theorem moved_word (hs : s.Sound) (hk : k ∈ s.instruction.jumpPlaces)
    (hword : WordAt s.instruction.operands k n) (hp : place n = some p) :
    (s.moved place).instruction.operands[k]? = some (.str (write (.int .u32 p))) ∧
      (s.moved place).pieces[k]? = some (word32 p) :=
  Slot.moved_word (sound_slot hs) hk hword hp

theorem resolved_iff (hs : s.Sound)
    (hsmall : ∀ n p : Nat, n < 2 ^ 32 → place n = some p → p < 2 ^ 32) :
    s.Resolved place ↔ ∀ n ∈ s.instruction.targets, (place n).isSome = true := by
  constructor
  · intro hr n hn
    obtain ⟨k, hk, hnum⟩ := mem_filterMap.mp hn
    obtain ⟨m, p, hword, hp, -⟩ := hr k hk
    obtain rfl := Option.some.inj (hword.numberAt.symm.trans hnum)
    rw [hp]
    rfl
  · intro hr k hk
    obtain ⟨n, hn, hop⟩ := hs.jumps k hk
    have hword := wordAt_of_typed hn hop
    obtain ⟨p, hp⟩ := Option.isSome_iff_exists.mp
      (hr n (mem_filterMap.mpr ⟨k, hk, hword.numberAt⟩))
    exact ⟨n, p, hword, hp, hsmall n p hn hp⟩

theorem length_moved (hs : s.Sound) : (s.moved place).bytes.length = s.bytes.length :=
  Slot.length_moved (sound_slot hs)

end moved

theorem placeFrom_isSome (cursor : Nat) (ss : List Segment) (n : Int) :
    (placeFrom cursor ss n).isSome = true ↔ ∃ s ∈ ss, s.instruction.offset = n := by
  rw [placeFrom, Slot.placeFrom_isSome, offsets_slots, mem_map]

theorem placeFrom_some {cursor : Nat} {ss : List Segment} {offset : Int}
    (h : placeFrom cursor ss offset = some p) :
    ∃ n s, ss[n]? = some s ∧ s.instruction.offset = offset ∧ p = cursor + start ss n := by
  obtain ⟨n, t, ht, hoffset, hp⟩ := Slot.placeFrom_some h
  rw [getElem?_map, Option.map_eq_some_iff] at ht
  obtain ⟨s, hs, rfl⟩ := ht
  exact ⟨n, s, hs, hoffset, hp⟩

theorem start_le (ss : List Segment) (n : Nat) : start ss n ≤ (ss.flatMap bytes).length := by
  rw [← flatMap_slots]
  exact Slot.start_le _ n

theorem placeFrom_le {ss : List Segment} {n : Int} (h : placeFrom 0 ss n = some p) :
    p ≤ (ss.flatMap bytes).length := by
  rw [← flatMap_slots]
  exact Slot.placeFrom_le h

section rebuild

variable (file : String) {ss : List Segment}

theorem assembleAll_entries (h : ∀ s ∈ ss, Stored .script s.instruction.operands s.pieces) :
    assembleAll (entries ss) = .ok (ss.flatMap bytes) := by
  rw [entries_eq, ← flatMap_slots]
  exact Slot.assembleAll_made (f := id) (forall_mem_map.mpr fun s hmem => made_slot (h s hmem))

section

variable (hs : ∀ s ∈ ss, s.Sound) (hnodup : (ss.map fun s => s.instruction.offset).Nodup)
include hs hnodup

theorem rebuild_found (hr : ∀ s ∈ ss, s.Resolved (placeFrom 0 ss)) :
    rebuild file (entries ss) = .ok (ss.flatMap fun s => (s.moved (placeFrom 0 ss)).bytes) := by
  rw [entries_eq, Slot.rebuild_found file (sound_slots hs) (nodup_slots hnodup)
    (forall_mem_map.mpr hr), flatMap_map]
  rfl

theorem rebuild_small (hsize : (ss.flatMap bytes).length < 2 ^ 32)
    (hr : ∀ s ∈ ss, ∀ n ∈ s.instruction.targets, (placeFrom 0 ss n).isSome = true) :
    rebuild file (entries ss) = .ok (ss.flatMap fun s => (s.moved (placeFrom 0 ss)).bytes) := by
  refine rebuild_found file hs hnodup fun s hmem => (resolved_iff (hs s hmem) ?_).mpr (hr s hmem)
  exact fun n p _ hp => Nat.lt_of_le_of_lt (placeFrom_le hp) hsize

theorem rebuild_lost (hsmall : ∀ n p : Nat, n < 2 ^ 32 → placeFrom 0 ss n = some p → p < 2 ^ 32)
    (hr : ∃ s ∈ ss, ¬s.Resolved (placeFrom 0 ss)) :
    ∃ shown target, rebuild file (entries ss) =
      .error (.refused (.lostJump file shown target)) := by
  obtain ⟨s, hmem, hres⟩ := hr
  rw [entries_eq]
  exact Slot.rebuild_lost file (sound_slots hs) (nodup_slots hnodup) hsmall
    ⟨s.slot, mem_map_of_mem hmem, hres⟩

theorem rebuild_ok {bytes : List UInt8} (h : rebuild file (entries ss) = .ok bytes) :
    newOffsets [] 0 (entries ss) = .ok (movesFrom 0 ss) ∧
      fixAllJumps file (movesFrom 0 ss) (entries ss) =
        .ok (entries (ss.map (moved (placeFrom 0 ss)))) ∧
      (∀ s ∈ ss, s.Resolved (placeFrom 0 ss)) ∧
      bytes = ss.flatMap fun s => (s.moved (placeFrom 0 ss)).bytes := by
  rw [entries_eq] at h
  have hslots := Slot.resolved_of_rebuild file (sound_slots hs) (nodup_slots hnodup) h
  have hresolved : ∀ s ∈ ss, s.Resolved (placeFrom 0 ss) :=
    fun s hmem => hslots s.slot (mem_map_of_mem hmem)
  refine ⟨?_, ?_, hresolved, ?_⟩
  · rw [entries_eq]
    exact Slot.newOffsets_eq _ (sound_slots hs) (nodup_slots hnodup) [] 0 (by simp)
  · have hmoved : entries (ss.map (moved (placeFrom 0 ss))) =
        (ss.map slot).map fun s => (s.moved (placeFrom 0 ss)).entry := by
      rw [entries_eq, map_map, map_map, map_map]
      exact map_congr_left fun s _ => congrArg Slot.entry (slot_moved _ s)
    rw [entries_eq, hmoved]
    exact Slot.fixAllJumps_found file (Slot.movesFrom_follows 0 _) (sound_slots hs) hslots
  · rw [← entries_eq, rebuild_found file hs hnodup hresolved] at h
    exact (Except.ok.inj h).symm

end

end rebuild
end Segment
end SceneText
