import SceneText.Proofs.Entries

/-!
# Slots of a listing

A slot is an entry of a listing with what it says and with the pieces that it is stored as. The
first pass over a listing learns where each slot begins. The second one puts, for every jump, the
place of its target into the four bytes of the operand, so that no slot changes its size and the
places hold in the image that is written. A jump to an offset that no slot has is refused, and
nothing else can go wrong while the image is smaller than a jump can reach.
-/

namespace SceneText

open List Json Except Fault Width Operand

variable {n : Int} {p k : Nat}

structure Slot where
  entry : Json
  opcode : String
  offset : Int
  operands : List Json
  head : List UInt8
  pieces : List (List UInt8)

namespace Slot

open Listing Dialogue

def bytes (s : Slot) : List UInt8 :=
  s.head ++ s.pieces.flatten

def jumpPlaces (s : Slot) : List Nat :=
  Listing.jumpPlaces s.opcode s.operands.length

/-- The slot says what its entry says, and every jump in it is a number of 32 bits. Only an entry
with jumps needs a list of operands; any other may leave it out. -/
structure Sound (s : Slot) : Prop where
  opcode : s.entry.field "op" = .ok (.str s.opcode)
  offset : s.entry.field "offset" = .ok (.int s.offset)
  made : Made s.entry s.head s.operands s.pieces
  value : isMoving s.opcode = true → s.entry.field "value" = .ok (.arr s.operands)
  jumps : ∀ k ∈ s.jumpPlaces, ∃ n, WordAt s.operands k n

def placeFrom (cursor : Nat) : List Slot → Places
  | [], _ => none
  | s :: rest, n => if s.offset = n then some cursor else placeFrom (cursor + s.bytes.length) rest n

def movesFrom (cursor : Nat) : List Slot → Moves
  | [] => []
  | s :: rest => (.int s.offset, .int cursor) :: movesFrom (cursor + s.bytes.length) rest

def start (ss : List Slot) (n : Nat) : Nat :=
  ((ss.take n).flatMap bytes).length

variable {ss : List Slot}

theorem movesFrom_follows (cursor : Nat) (ss : List Slot) :
    (movesFrom cursor ss).Follows (placeFrom cursor ss) := by
  induction ss generalizing cursor with
  | nil => exact fun n => rfl
  | cons s rest ih =>
    intro n
    have hrest := ih (cursor + s.bytes.length) n
    simp only [Moves.target?, movesFrom, placeFrom, find?_cons, sameKey, sameNumber] at hrest ⊢
    by_cases hn : s.offset = n
    · simp [hn]
    · simpa [hn] using hrest

theorem insert_new (moves : Moves) (n : Int) (new : Json)
    (h : ∀ m ∈ moves, m.1.sameKey (.int n) = false) :
    moves.insert (.int n) new = moves ++ [(.int n, new)] := by
  induction moves with
  | nil => rfl
  | cons m rest ih =>
    have hm : m.1.sameKey (.int n) = false := h m (by simp)
    rw [Moves.insert, hm]
    simp [ih fun k hk => h k (by simp [hk])]

theorem newOffsets_eq (ss : List Slot) (hs : ∀ s ∈ ss, s.Sound) (hnodup : (ss.map offset).Nodup)
    (moves : Moves) (cursor : Nat)
    (hnew : ∀ s ∈ ss, ∀ m ∈ moves, m.1.sameKey (.int s.offset) = false) :
    newOffsets moves cursor (ss.map entry) = .ok (moves ++ movesFrom cursor ss) := by
  induction ss generalizing moves cursor with
  | nil => simp [newOffsets, movesFrom]
  | cons s rest ih =>
    rw [map_cons, nodup_cons] at hnodup
    have hsound := hs s (by simp)
    rw [map_cons, newOffsets, hsound.offset]
    simp only [hsound.made.assembleEntry_eq, bind, Except.bind, asKey,
      insert_new moves _ _ (hnew s (by simp))]
    rw [ih (fun t ht => hs t (by simp [ht])) hnodup.2]
    · simp [movesFrom, bytes]
    · intro t ht m hm
      rcases mem_append.mp hm with hm | hm
      · exact hnew t (by simp [ht]) m hm
      · have hne : s.offset ≠ t.offset := fun e => hnodup.1 (mem_map.mpr ⟨t, ht, e.symm⟩)
        rw [mem_singleton.mp hm]
        simpa [sameKey, sameNumber] using hne

theorem placeFrom_isSome (cursor : Nat) (ss : List Slot) (n : Int) :
    (placeFrom cursor ss n).isSome = true ↔ n ∈ ss.map offset := by
  induction ss generalizing cursor with
  | nil => simp [placeFrom]
  | cons s rest ih =>
    rw [placeFrom]
    by_cases hn : s.offset = n
    · simp [hn]
    · rw [if_neg hn, ih, map_cons, mem_cons, or_iff_right (Ne.symm hn)]

theorem placeFrom_some {cursor : Nat} (h : placeFrom cursor ss n = some p) :
    ∃ j s, ss[j]? = some s ∧ s.offset = n ∧ p = cursor + start ss j := by
  induction ss generalizing cursor with
  | nil => simp [placeFrom] at h
  | cons s rest ih =>
    rw [placeFrom] at h
    split at h
    · next hoff => exact ⟨0, s, rfl, hoff, by simpa [start] using h.symm⟩
    · obtain ⟨j, t, ht, hoff, hp⟩ := ih h
      refine ⟨j + 1, t, ht, hoff, ?_⟩
      rw [hp, start, start, take_succ_cons, flatMap_cons, length_append]
      omega

theorem start_le (ss : List Slot) (n : Nat) : start ss n ≤ (ss.flatMap bytes).length := by
  have h : ss.flatMap bytes = (ss.take n).flatMap bytes ++ (ss.drop n).flatMap bytes := by
    rw [← flatMap_append, take_append_drop]
  rw [start, h, length_append]
  omega

theorem placeFrom_le (h : placeFrom 0 ss n = some p) :
    p ≤ (ss.flatMap bytes).length := by
  obtain ⟨k, s, -, -, rfl⟩ := placeFrom_some h
  rw [Nat.zero_add]
  exact start_le ss k

def movedPiece (place : Places) (operands : List Json) (k : Nat) (piece : List UInt8) :
    List UInt8 :=
  (((numberAt? operands k).bind place).map word32).getD piece

def moved (place : Places) (s : Slot) : Slot :=
  { s with
    entry :=
      if isMoving s.opcode then withOperands s.entry (movedAt place s.jumpPlaces s.operands)
      else s.entry
    operands := movedAt place s.jumpPlaces s.operands
    pieces := s.pieces.mapIdx fun k piece =>
      if k ∈ s.jumpPlaces then movedPiece place s.operands k piece else piece }

def Resolved (place : Places) (s : Slot) : Prop :=
  ∀ k ∈ s.jumpPlaces, ∃ n p : Nat, WordAt s.operands k n ∧ place n = some p ∧ p < 2 ^ 32

section moved

variable {file : String} {moves : Moves} {place : Places} {s : Slot}

theorem isMoving_of_mem (hk : k ∈ s.jumpPlaces) : isMoving s.opcode = true := by
  cases h : isMoving s.opcode with
  | true => rfl
  | false =>
    rw [jumpPlaces, jumpPlaces_eq_nil h] at hk
    cases hk

theorem movedPiece_word {n : Nat} (h : WordAt s.operands k n) (hp : place n = some p)
    (piece : List UInt8) : movedPiece place s.operands k piece = word32 p := by
  simp [movedPiece, h.numberAt, hp]

theorem moved_other (hk : k ∉ s.jumpPlaces) :
    (s.moved place).operands[k]? = s.operands[k]? ∧ (s.moved place).pieces[k]? = s.pieces[k]? := by
  simp [moved, movedAt, hk]

theorem moved_word (hs : s.Sound) (hk : k ∈ s.jumpPlaces) {n : Nat} (h : WordAt s.operands k n)
    (hp : place n = some p) :
    (s.moved place).operands[k]? = some (.str (write (.int .u32 p))) ∧
      (s.moved place).pieces[k]? = some (word32 p) := by
  obtain ⟨v, hv, hread⟩ := id h
  have hlt : k < s.pieces.length := by
    rw [← hs.made.stored.length_eq]
    exact (List.getElem?_eq_some_iff.mp hv).1
  constructor
  · simp [moved, movedAt, hv, hk, movedOperand_word hread hp]
  · simp [moved, List.getElem?_eq_getElem hlt, hk, movedPiece_word h hp]

theorem moved_stored (hs : s.Sound) (hr : s.Resolved place) :
    Stored .script (s.moved place).operands (s.moved place).pieces := by
  have hlen : s.operands.length = s.pieces.length := hs.made.stored.length_eq
  refine forall₂_iff_get.mpr ⟨by simpa [moved, movedAt] using hlen, ?_⟩
  intro k hk hk'
  have hop : k < s.operands.length := by simpa [moved, movedAt] using hk
  simp only [moved, movedAt, get_eq_getElem, getElem_mapIdx]
  by_cases hjump : k ∈ s.jumpPlaces
  · obtain ⟨n, p, hword, hp, hsmall⟩ := hr k hjump
    obtain ⟨v, hv, hread⟩ := id hword
    obtain ⟨_, rfl⟩ := List.getElem?_eq_some_iff.mp hv
    rw [if_pos hjump, if_pos hjump, movedOperand_word hread hp, movedPiece_word hword hp,
      storeJson_int _ _ _ _ (fits_u32.mpr hsmall), encode_u32 p hsmall]
  · rw [if_neg hjump, if_neg hjump]
    exact stored_getElem hs.made.stored k hop (hlen ▸ hop)

theorem moved_made (hs : s.Sound) (hr : s.Resolved place) :
    Made (s.moved place).entry s.head (s.moved place).operands (s.moved place).pieces := by
  have hstored := moved_stored hs hr
  cases h : isMoving s.opcode with
  | true =>
    have hentry : (s.moved place).entry = withOperands s.entry (s.moved place).operands := by
      simp only [moved, h, if_true]
    rw [hentry]
    exact hs.made.withOperands (hs.value h) hstored
  | false =>
    have hentry : (s.moved place).entry = s.entry := by simp [moved, h]
    have hops : (s.moved place).operands = s.operands := by
      rw [moved, jumpPlaces, jumpPlaces_eq_nil h, movedAt_nil]
    exact ⟨hentry ▸ hs.made.signature, by rw [hentry, hops]; exact hs.made.value, hstored⟩

theorem length_movedPiece (hs : s.Sound) (hk : k ∈ s.jumpPlaces) (hlt : k < s.pieces.length) :
    (movedPiece place s.operands k s.pieces[k]).length = s.pieces[k].length := by
  obtain ⟨n, v, hv, hread⟩ := hs.jumps k hk
  obtain ⟨hlt', rfl⟩ := List.getElem?_eq_some_iff.mp hv
  have hstored := stored_getElem hs.made.stored k hlt' hlt
  rw [storeJson, hread] at hstored
  rw [← ok.inj hstored, length_encode, movedPiece]
  cases (numberAt? s.operands k).bind place with
  | none => exact length_encode _ _
  | some p => exact length_lowBytes 4 p

theorem length_moved (hs : s.Sound) : (s.moved place).bytes.length = s.bytes.length := by
  have hlengths : (s.moved place).pieces.map List.length = s.pieces.map List.length := by
    apply ext_getElem
    · simp [moved]
    · intro k hk hk'
      simp only [moved, getElem_map, getElem_mapIdx]
      split
      · next hjump => exact length_movedPiece hs hjump (by simpa using hk')
      · rfl
  simp only [bytes, length_append, length_flatten, hlengths]
  rfl

theorem fixJumps_cases (file : String) (hm : moves.Follows place) (hs : s.Sound) :
    s.Resolved place ∧ fixJumps file moves s.entry = .ok (s.moved place).entry ∨
      ∃ k ∈ s.jumpPlaces, ∃ (n : Nat) (fault : Fault), WordAt s.operands k n ∧
        fixJumps file moves s.entry = .error fault ∧
        (place n = none ∧ (∃ shown target, fault = .refused (.lostJump file shown target)) ∨
          ∃ p, place n = some p ∧ ¬p < 2 ^ 32) := by
  rw [fixJumps_eq file moves hs.opcode hs.value]
  cases h : isMoving s.opcode with
  | true =>
    rw [moved, if_pos h]
    exact moveOperands_cases file hm _ (jumpPlaces_nodup _ _) (hs.value h) hs.jumps
  | false =>
    have hnone : s.jumpPlaces = [] := jumpPlaces_eq_nil h _
    refine .inl ⟨by simp [Resolved, hnone], ?_⟩
    rw [jumpPlaces_eq_nil h, moved, h]
    rfl

theorem fixJumps_found (hm : moves.Follows place) (hs : s.Sound) (hr : s.Resolved place) :
    fixJumps file moves s.entry = .ok (s.moved place).entry := by
  rcases fixJumps_cases file hm hs with ⟨-, hrun⟩ | ⟨k, hk, n, fault, hword, -, hbad⟩
  · exact hrun
  · obtain ⟨m, p, hword', hp, hsmall⟩ := hr k hk
    rw [hword.unique hword', hp] at hbad
    rcases hbad with ⟨hnone, -⟩ | ⟨p', hp', hfar⟩
    · cases hnone
    · cases hp'
      exact absurd hsmall hfar

theorem resolved_of_fixJumps {entry : Json} (hm : moves.Follows place) (hs : s.Sound)
    (h : fixJumps file moves s.entry = .ok entry) : s.Resolved place := by
  rcases fixJumps_cases file hm hs with ⟨hr, -⟩ | ⟨_, -, _, fault, -, hfault, -⟩
  · exact hr
  · rw [hfault] at h
    cases h

theorem fixJumps_lost (hm : moves.Follows place)
    (hsmall : ∀ n p : Nat, n < 2 ^ 32 → place n = some p → p < 2 ^ 32) (hs : s.Sound)
    (hlost : ∃ k ∈ s.jumpPlaces, ∃ n : Nat, WordAt s.operands k n ∧ place n = none) :
    ∃ shown target, fixJumps file moves s.entry =
      .error (.refused (.lostJump file shown target)) := by
  rcases fixJumps_cases file hm hs with ⟨hr, -⟩ | ⟨k, -, n, fault, hword, hfault, hbad⟩
  · obtain ⟨k, hk, n, hword, hnone⟩ := hlost
    obtain ⟨m, p, hword', hp, -⟩ := hr k hk
    rw [hword.unique hword', hp] at hnone
    cases hnone
  · rcases hbad with ⟨-, shown, target, rfl⟩ | ⟨p, hp, hfar⟩
    · exact ⟨shown, target, hfault⟩
    · exact absurd (hsmall n p hword.lt hp) hfar

theorem lost_of_not_resolved (hsmall : ∀ n p : Nat, n < 2 ^ 32 → place n = some p → p < 2 ^ 32)
    (hs : s.Sound) (hr : ¬s.Resolved place) :
    ∃ k ∈ s.jumpPlaces, ∃ n : Nat, WordAt s.operands k n ∧ place n = none := by
  simp only [Resolved, Classical.not_forall] at hr
  obtain ⟨k, hk, hnone⟩ := hr
  obtain ⟨n, hword⟩ := hs.jumps k hk
  cases hp : place n with
  | none => exact ⟨k, hk, n, hword, hp⟩
  | some p => exact absurd ⟨n, p, hword, hp, hsmall n p hword.lt hp⟩ hnone

end moved

section rebuild

variable (file : String)

theorem assembleAll_made {f : Slot → Slot}
    (h : ∀ s ∈ ss, Made (f s).entry (f s).head (f s).operands (f s).pieces) :
    assembleAll (ss.map fun s => (f s).entry) = .ok (ss.flatMap fun s => (f s).bytes) := by
  have hparts : (ss.map fun s => (f s).entry).mapM (assembleEntry .script .little) =
      .ok (ss.map fun s => (f s).bytes) := by
    rw [mapM_map]
    exact mapM_ok _ _ _ fun s hs => (h s hs).assembleEntry_eq
  simp only [assembleAll, hparts, bind, Except.bind, pure, Except.pure, flatMap_def]

theorem fixAllJumps_found {moves : Moves} {place : Places} (hm : moves.Follows place)
    (hs : ∀ s ∈ ss, s.Sound) (hr : ∀ s ∈ ss, s.Resolved place) :
    fixAllJumps file moves (ss.map entry) = .ok (ss.map fun s => (s.moved place).entry) := by
  rw [fixAllJumps, mapM_map]
  exact mapM_ok _ _ _ fun s hmem => fixJumps_found hm (hs s hmem) (hr s hmem)

section

variable (hs : ∀ s ∈ ss, s.Sound) (hnodup : (ss.map offset).Nodup)
include hs hnodup

theorem rebuild_found (hr : ∀ s ∈ ss, s.Resolved (placeFrom 0 ss)) :
    rebuild file (ss.map entry) = .ok (ss.flatMap fun s => (s.moved (placeFrom 0 ss)).bytes) := by
  -- Moving changes no sizes, so the offsets found before it hold after it.
  have hmoves := newOffsets_eq ss hs hnodup [] 0 (by simp)
  have hfix := fixAllJumps_found file (movesFrom_follows 0 ss) hs hr
  have hall := assembleAll_made (f := moved (placeFrom 0 ss)) fun s hmem =>
    moved_made (hs s hmem) (hr s hmem)
  simp only [rebuild, hmoves, nil_append, bind, Except.bind, hfix, hall]

theorem rebuild_lost (hsmall : ∀ n p : Nat, n < 2 ^ 32 → placeFrom 0 ss n = some p → p < 2 ^ 32)
    (hlost : ∃ s ∈ ss, ¬s.Resolved (placeFrom 0 ss)) :
    ∃ shown target, rebuild file (ss.map entry) =
      .error (.refused (.lostJump file shown target)) := by
  have hmoves := newOffsets_eq ss hs hnodup [] 0 (by simp)
  have hfollows := movesFrom_follows 0 ss
  have hone : ∀ s ∈ ss, ¬s.Resolved (placeFrom 0 ss) → ∃ shown target,
      fixJumps file (movesFrom 0 ss) s.entry = .error (.refused (.lostJump file shown target)) :=
    fun s hmem hres => fixJumps_lost hfollows hsmall (hs s hmem)
      (lost_of_not_resolved hsmall (hs s hmem) hres)
  have hfix : ∃ fault, fixAllJumps file (movesFrom 0 ss) (ss.map entry) = .error fault ∧
      ∃ shown target, fault = .refused (.lostJump file shown target) := by
    rw [fixAllJumps, mapM_map]
    apply mapM_error
    · intro s hmem
      by_cases hres : s.Resolved (placeFrom 0 ss)
      · exact .inl ⟨_, fixJumps_found hfollows (hs s hmem) hres⟩
      · obtain ⟨shown, target, h⟩ := hone s hmem hres
        exact .inr ⟨_, h, shown, target, rfl⟩
    · obtain ⟨s, hmem, hres⟩ := hlost
      obtain ⟨shown, target, h⟩ := hone s hmem hres
      exact ⟨s, hmem, _, h⟩
  obtain ⟨fault, hfault, shown, target, rfl⟩ := hfix
  refine ⟨shown, target, ?_⟩
  simp only [rebuild, hmoves, nil_append, bind, Except.bind, hfault]

theorem resolved_of_rebuild {image : List UInt8} (h : rebuild file (ss.map entry) = .ok image) :
    ∀ s ∈ ss, s.Resolved (placeFrom 0 ss) := by
  intro s hmem
  have hmoves := newOffsets_eq ss hs hnodup [] 0 (by simp)
  obtain ⟨moves, hfirst, h⟩ := bind_ok h
  obtain ⟨moved, hfix, -⟩ := bind_ok h
  obtain rfl := ok.inj (hmoves.symm.trans hfirst)
  rw [nil_append, fixAllJumps, mapM_map] at hfix
  obtain ⟨entry, hentry⟩ := ok_of_mapM hfix hmem
  exact resolved_of_fixJumps (movesFrom_follows 0 ss) (hs s hmem) hentry

end

end rebuild

def Lost (offsets : List Int) (s : Slot) : Prop :=
  ∃ k ∈ s.jumpPlaces, ∃ n : Nat, WordAt s.operands k n ∧ (n : Int) ∉ offsets

/-- The slot `t` of a layout is `s`, with each jump to where the slot that it names by its old
offset begins in the layout, and with all other pieces as they were. -/
structure Relocated (offsets : List Int) (layout : List Slot) (s t : Slot) : Prop where
  head : t.head = s.head
  size : t.bytes.length = s.bytes.length
  count : t.pieces.length = s.pieces.length
  other : ∀ k, k ∉ s.jumpPlaces → t.pieces[k]? = s.pieces[k]?
  jump : ∀ k ∈ s.jumpPlaces, ∃ n j : Nat, WordAt s.operands k n ∧ offsets[j]? = some (n : Int) ∧
    t.pieces[k]? = some (word32 (start layout j))

theorem resolved_iff {s : Slot} (hs : s.Sound)
    (hsmall : ∀ n p : Nat, n < 2 ^ 32 → placeFrom 0 ss n = some p → p < 2 ^ 32) :
    s.Resolved (placeFrom 0 ss) ↔ ¬s.Lost (ss.map offset) := by
  constructor
  · rintro hr ⟨k, hk, n, hword, hnot⟩
    obtain ⟨m, p, hword', hp, -⟩ := hr k hk
    rw [← placeFrom_isSome 0, hword.unique hword', hp] at hnot
    exact hnot rfl
  · intro hlost
    by_contra hr
    obtain ⟨k, hk, n, hword, hnone⟩ := lost_of_not_resolved hsmall hs hr
    refine hlost ⟨k, hk, n, hword, ?_⟩
    rw [← placeFrom_isSome 0, hnone]
    exact Bool.false_ne_true

theorem start_map_moved (place : Places) (hs : ∀ s ∈ ss, s.Sound) (n : Nat) :
    start (ss.map (moved place)) n = start ss n := by
  rw [start, start, ← map_take, flatMap_map, length_flatMap, length_flatMap]
  congr 1
  exact map_congr_left fun s hmem => length_moved (hs s (mem_of_mem_take hmem))

theorem relocated_moved (hs : ∀ s ∈ ss, s.Sound) {s : Slot} (hmem : s ∈ ss)
    (hr : s.Resolved (placeFrom 0 ss)) :
    Relocated (ss.map offset) (ss.map (moved (placeFrom 0 ss))) s (s.moved (placeFrom 0 ss)) where
  head := rfl
  size := length_moved (hs s hmem)
  count := by simp [moved]
  other k hk := (moved_other hk).2
  jump k hk := by
    obtain ⟨n, p, hword, hp, -⟩ := hr k hk
    obtain ⟨j, t, ht, hoffset, rfl⟩ := placeFrom_some hp
    refine ⟨n, j, hword, by rw [getElem?_map, ht, ← hoffset]; rfl, ?_⟩
    rw [(moved_word (hs s hmem) hk hword hp).2, start_map_moved _ hs, Nat.zero_add]

theorem exists_slot {entry : Json} {bytes : List UInt8}
    (hoffset : entry.field "offset" = .ok (.int n)) (hjumps : JumpsTyped entry)
    (h : assembleEntry .script .little entry = .ok bytes) :
    ∃ s : Slot, s.entry = entry ∧ s.offset = n ∧ s.Sound := by
  obtain ⟨head, operands, pieces, hmade, -⟩ := made_of_assembleEntry h
  obtain ⟨op, hop⟩ := hmade.exists_opcode
  have hvalue : isMoving op = true → entry.field "value" = .ok (.arr operands) ∧
      ∀ k ∈ Listing.jumpPlaces op operands.length, ∃ n, WordAt operands k n := by
    intro hmoving
    obtain ⟨items, hitems, hwords⟩ := hjumps op hop hmoving
    obtain rfl := hmade.operands_eq hitems
    exact ⟨hitems, hwords⟩
  refine ⟨⟨entry, op, n, operands, head, pieces⟩, rfl, rfl, hop, hoffset, hmade,
    fun hmoving => (hvalue hmoving).1, fun k hk => ?_⟩
  exact (hvalue (isMoving_of_mem hk)).2 k hk

theorem exists_slots {entries : List Json} {offsets : List Int}
    (hoffsets : entries.map (·.field "offset") = offsets.map fun n => .ok (.int n))
    (hjumps : ∀ entry ∈ entries, JumpsTyped entry)
    (h : ∀ entry ∈ entries, ∃ bytes, assembleEntry .script .little entry = .ok bytes) :
    ∃ ss : List Slot, ss.map entry = entries ∧ ss.map offset = offsets ∧ ∀ s ∈ ss, s.Sound := by
  induction entries generalizing offsets with
  | nil =>
    obtain rfl := map_eq_nil_iff.mp hoffsets.symm
    exact ⟨[], rfl, rfl, by simp⟩
  | cons entry entries ih =>
    obtain ⟨n, offsets, rfl, hoffset, hrest⟩ := map_eq_cons_iff.mp hoffsets.symm
    obtain ⟨bytes, hbytes⟩ := h entry (by simp)
    obtain ⟨s, rfl, rfl, hs⟩ := exists_slot hoffset.symm (hjumps entry (by simp)) hbytes
    obtain ⟨ss, rfl, rfl, hss⟩ := ih hrest.symm (fun e he => hjumps e (by simp [he]))
      fun e he => h e (by simp [he])
    exact ⟨s :: ss, rfl, rfl, by simpa [hs] using hss⟩

/-- A listing with one entry for each offset, whose jumps are numbers of 32 bits and whose image is
smaller than they can reach, is refused exactly if a jump leads to none of the offsets. If all lead
to one, its entries are stored one behind the other, with each jump to where its target begins in
the image that is written, and with all else and all sizes as they were. -/
theorem rebuild_relocates (file : String) {entries : List Json} {offsets : List Int}
    {image : List UInt8}
    (hoffsets : entries.map (·.field "offset") = offsets.map fun n => .ok (.int n))
    (hdistinct : offsets.Nodup) (hjumps : ∀ entry ∈ entries, JumpsTyped entry)
    (himage : assembleAll entries = .ok image) (hsize : image.length < 2 ^ 32) :
    ∃ ss : List Slot, ss.map entry = entries ∧ ss.map offset = offsets ∧ (∀ s ∈ ss, s.Sound) ∧
      image = ss.flatMap bytes ∧
      ((∃ shown target, rebuild file entries = .error (.refused (.lostJump file shown target))) ↔
        ∃ s ∈ ss, s.Lost offsets) ∧
      ((∀ s ∈ ss, ¬s.Lost offsets) → ∃ layout : List Slot,
        rebuild file entries = .ok (layout.flatMap bytes) ∧
          List.Forall₂ (Relocated offsets layout) ss layout) := by
  have hstored : ∀ entry ∈ entries, ∃ bytes, assembleEntry .script .little entry = .ok bytes := by
    intro entry hentry
    obtain ⟨parts, hparts, -⟩ := bind_ok himage
    exact ok_of_mapM hparts hentry
  obtain ⟨ss, rfl, rfl, hs⟩ := exists_slots hoffsets hjumps hstored
  have hall : assembleAll (ss.map entry) = .ok (ss.flatMap bytes) :=
    assembleAll_made (f := id) fun s hmem => (hs s hmem).made
  obtain rfl := Except.ok.inj (himage.symm.trans hall)
  have hsmall : ∀ n p : Nat, n < 2 ^ 32 → placeFrom 0 ss n = some p → p < 2 ^ 32 :=
    fun n p _ hp => Nat.lt_of_le_of_lt (placeFrom_le hp) hsize
  have hfound : (∀ s ∈ ss, ¬s.Lost (ss.map offset)) → ∃ layout : List Slot,
      rebuild file (ss.map entry) = .ok (layout.flatMap bytes) ∧
        List.Forall₂ (Relocated (ss.map offset) layout) ss layout := by
    intro hlost
    have hr : ∀ s ∈ ss, s.Resolved (placeFrom 0 ss) := fun s hmem =>
      (resolved_iff (hs s hmem) hsmall).mpr (hlost s hmem)
    refine ⟨ss.map (moved (placeFrom 0 ss)), ?_, ?_⟩
    · rw [rebuild_found file hs hdistinct hr, List.flatMap_map]
    · rw [List.forall₂_map_right_iff, List.forall₂_same]
      exact fun s hmem => relocated_moved hs hmem (hr s hmem)
  refine ⟨ss, rfl, rfl, hs, rfl, ⟨?_, ?_⟩, hfound⟩
  · rintro ⟨shown, target, herror⟩
    by_contra hnone
    simp only [not_exists, not_and] at hnone
    obtain ⟨layout, hok, -⟩ := hfound hnone
    rw [hok] at herror
    cases herror
  · rintro ⟨s, hmem, hlost⟩
    exact rebuild_lost file hs hdistinct hsmall
      ⟨s, hmem, fun hr => (resolved_iff (hs s hmem) hsmall).mp hr hlost⟩

def detour : List Json :=
  [.obj [("op", .str "06"), ("offset", .int 9), ("value", .arr [.str "u32:+4"])],
   .obj [("note", .bool true), ("op", .str "ff"), ("offset", .int (-1))],
   .obj [("offset", .int 4), ("value", .arr [.str "u32:9", .str "u32:7"]), ("op", .str "15 FF")]]

theorem detour_typed : ∀ entry ∈ detour, JumpsTyped entry := by
  simp only [detour, forall_mem_cons]
  refine ⟨?_, ?_, ?_, by simp⟩
  · rintro op hop -
    obtain rfl := str.inj (ok.inj hop)
    refine ⟨_, rfl, ?_⟩
    rw [show Listing.jumpPlaces "06" _ = [0] by decide, forall_mem_singleton]
    exact ⟨4, _, rfl, rfl⟩
  · intro op hop hmoving
    obtain rfl := str.inj (ok.inj hop)
    exact absurd hmoving (by decide)
  · rintro op hop -
    obtain rfl := str.inj (ok.inj hop)
    refine ⟨_, rfl, ?_⟩
    rw [show Listing.jumpPlaces "15 FF" _ = [0] by decide, forall_mem_singleton]
    exact ⟨9, _, rfl, rfl⟩

theorem rebuild_relocates_detour :
    ∃ ss layout : List Slot, ss.map entry = detour ∧
      rebuild "a" detour = .ok [6, 6, 0, 0, 0, 0xff, 0x15, 0xff, 0, 0, 0, 0, 7, 0, 0, 0] ∧
      layout.flatMap bytes = [6, 6, 0, 0, 0, 0xff, 0x15, 0xff, 0, 0, 0, 0, 7, 0, 0, 0] ∧
      List.Forall₂ (Relocated [9, -1, 4] layout) ss layout := by
  have himage : assembleAll detour =
      .ok [6, 4, 0, 0, 0, 0xff, 0x15, 0xff, 9, 0, 0, 0, 7, 0, 0, 0] := rfl
  have hrebuild : rebuild "a" detour =
      .ok [6, 6, 0, 0, 0, 0xff, 0x15, 0xff, 0, 0, 0, 0, 7, 0, 0, 0] := rfl
  have hoffsets : detour.map (·.field "offset") = [9, -1, 4].map fun n => .ok (.int n) := rfl
  obtain ⟨ss, hentries, -, -, -, hlost, hfound⟩ :=
    rebuild_relocates "a" hoffsets (by decide) detour_typed himage (by decide)
  have hnone : ∀ s ∈ ss, ¬s.Lost [9, -1, 4] := by
    intro s hmem h
    obtain ⟨shown, target, herror⟩ := hlost.mpr ⟨s, hmem, h⟩
    cases hrebuild.symm.trans herror
  obtain ⟨layout, hok, hall⟩ := hfound hnone
  exact ⟨ss, layout, hentries, hrebuild, Except.ok.inj (hok.symm.trans hrebuild), hall⟩

end Slot
end SceneText
