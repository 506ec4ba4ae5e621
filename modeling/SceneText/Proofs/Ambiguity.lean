import SceneText.Proofs.Reassembly

/-!
# Scripts that are read as they were written

A script does not say where its instructions begin: reading it takes the longest signature that
fits. So a script that was rebuilt with other messages may be read as other instructions than those
it was assembled from. It is so exactly if an instruction runs into a longer signature, by the
position that a jump holds or by the first character of a text, or if a text has a character that
shares its code with a look-alike. Which listings these are can be decided.
-/

namespace SceneText

open Dialogue List Opcodes Option Instruction Segment Disassembly Tile CodePage Operand

variable {i : Instruction} {image : Image} {c : Char} {s : String} {start stop : Nat}

namespace Instruction

def textAt? (i : Instruction) (k : Nat) : Option String :=
  match i.operands[k]? with
  | some (.str s) => some s
  | _ => none

theorem textAt_eq_some {k : Nat} : i.textAt? k = some s ↔ i.operands[k]? = some (.str s) := by
  unfold textAt?
  split
  · next t h => simp [h]
  · next h => simpa using h s

/-- The texts of an instruction have none of the characters that share their code with a
look-alike. -/
def Plain (i : Instruction) : Prop :=
  ∀ k ∈ textPlaces i, ∀ s ∈ i.textAt? k, ∀ c ∈ s.toList, c ∉ wideSigns.map Prod.fst

/-- An instruction that is taken for another one, whose signature is longer, by the position it
leads to or by the text or the position in the instruction behind it. -/
def Mistaken (i : Instruction) (rest : List Instruction) : Prop :=
  (i.signature = [0x11, 0xff] ∧ ∃ p ∈ i.numberAt? 0, p % 0x10000 = 0x0500 ∨ p = 0x000a0502) ∨
  (i.signature = [0x12, 0xff] ∧ ∃ p ∈ i.numberAt? 0, p % 0x10000 = 0x0500 ∨ p = 0x01ff1300) ∨
  ∃ next ∈ rest.head?, (i.signature = [0x20] ∧ next.signature = [0x00] ∧
      ∃ s ∈ next.textAt? 0, s.toList.head? = some '1') ∨
    (i.signature = [0x00, 0x02] ∧ next.signature = [0x06] ∧
      ∃ p ∈ next.numberAt? 0, p % 0x1000000 = 0x00ff00)

instance (i : Instruction) : Decidable i.Plain :=
  -- Only the characters of the text are looked at, never all that there are.
  have (s : String) : Decidable (∀ c ∈ s.toList, c ∉ wideSigns.map Prod.fst) :=
    List.decidableBAll (fun c => c ∉ wideSigns.map Prod.fst) s.toList
  inferInstanceAs (Decidable (∀ k ∈ _, _))

instance (i : Instruction) (rest : List Instruction) : Decidable (i.Mistaken rest) :=
  inferInstanceAs (Decidable (_ ∨ _ ∨ _))

end Instruction

/-- Instructions that are read from their bytes as they are. -/
structure Dialogue.Unambiguous (xs : List Instruction) : Prop where
  plain : ∀ i ∈ xs, i.Plain
  apart : ∀ i rest, i :: rest <:+ xs → ¬ i.Mistaken rest

theorem Dialogue.Unambiguous.cons_iff {rest : List Instruction} :
    Unambiguous (i :: rest) ↔ ¬ i.Mistaken rest ∧ i.Plain ∧ Unambiguous rest := by
  constructor
  · intro h
    refine ⟨h.apart i rest (suffix_refl _), h.plain i (by simp), fun j hj => ?_, ?_⟩
    · exact h.plain j (by simp [hj])
    · intro j more hsuffix
      exact h.apart j more (hsuffix.trans (suffix_cons i rest))
  · rintro ⟨hapart, hplain, hrest⟩
    constructor
    · intro j hj
      rcases mem_cons.mp hj with rfl | hj
      · exact hplain
      · exact hrest.plain j hj
    · intro j more hsuffix
      rcases suffix_cons_iff.mp hsuffix with heq | hsuffix
      · obtain ⟨rfl, rfl⟩ := List.cons.inj heq
        exact hapart
      · exact hrest.apart j more hsuffix

instance Dialogue.decidableUnambiguous : DecidablePred Unambiguous
  | [] => .isTrue ⟨by simp, by simp⟩
  | _ :: rest =>
    have := decidableUnambiguous rest
    decidable_of_iff _ Unambiguous.cons_iff.symm

inductive Recut (image : Image) : Nat → List UInt8 → List Tile → List Remade → Prop
  | nil (last : List UInt8) : Recut image image.size last [] []
  | gone {a b : Nat} {last : List UInt8} {i : Instruction} {ts : List Tile} {zs : List Remade}
      (here : Settled image a b i) (op : i.signature = lineBreak)
      (behind : last ∈ breakable) (there : Recut image b last ts zs) :
      Recut image a last (i.tile image (i.origins .cp932 table image) :: ts) zs
  | cons {a b : Nat} {last : List UInt8} {i : Instruction} {z : Remade} {ts : List Tile}
      {zs : List Remade} (here : Settled image a b i) (op : i.signature ≠ lineBreak)
      (recast : Recast image i z) (there : Recut image b i.signature ts zs) :
      Recut image a last (i.tile image z.origins :: ts) (z :: zs)

namespace Recut

variable {image : Image} {a : Nat} {last : List UInt8} {ts : List Tile} {zs : List Remade}

variable (h : Recut image a last ts zs)
include h

theorem sound : ∀ z ∈ zs, z.Sound := by
  induction h with
  | nil => simp
  | gone _ _ _ _ ih => exact ih
  | cons _ _ recast _ ih => exact forall_mem_cons.mpr ⟨recast.sound, ih⟩

theorem apt : ∀ t ∈ ts, t.Apt := by
  induction h with
  | nil => simp
  | @gone a b last i ts zs here op behind there ih =>
    refine forall_mem_cons.mpr ⟨?_, ih⟩
    obtain ⟨specs, hentry, -⟩ := here.fields
    refine ⟨mem_signatures.mpr ⟨specs, hentry⟩, fun _ => rfl, ?_, fun hsig => ?_⟩
    · intro size hmem hsig
      have hother : ∀ size ∈ sizes, lineBreak ≠ size.1 := by decide
      exact absurd (op.symm.trans hsig) (hother size hmem)
    · exact absurd (op.symm.trans hsig) (by decide)
  | cons _ _ recast _ ih => exact forall_mem_cons.mpr ⟨recast.apt, ih⟩

theorem broken : Tile.Broken last ts := by
  induction h with
  | nil => trivial
  | gone _ op behind _ ih =>
    rw [Tile.Broken, if_pos (show Tile.signature _ = _ from op)]
    exact ⟨behind, ih⟩
  | cons _ op _ _ ih =>
    rw [Tile.Broken, if_neg (show ¬ Tile.signature _ = _ from op)]
    exact ih

theorem old_eq : old ts = image.toList.drop a := by
  induction h with
  | nil => simp [old]
  | gone here _ _ _ ih =>
    rw [old, flatMap_cons, ← old, ih]
    exact here.drop_eq.symm
  | cons here _ _ _ ih =>
    rw [old, flatMap_cons, ← old, ih]
    exact here.drop_eq.symm

theorem new_eq : Tile.new ts = zs.flatMap Remade.bytes := by
  induction h with
  | nil => rfl
  | gone _ op _ _ ih =>
    rw [Tile.new, if_pos (show Tile.signature _ = _ from op), ih]
  | cons _ op recast _ ih =>
    rw [Tile.new, if_neg (show ¬ Tile.signature _ = _ from op), ih, flatMap_cons, Remade.bytes,
      recast.signature_eq]
    rfl

end Recut

theorem Recast.mem_textPlaces {z : Remade} (h : Recast image i z)
    (hi : Settled image start stop i) {k : Nat} {r : Origin} (hk : z.origins[k]? = some r) :
    k ∈ textPlaces z.instruction ↔ r.field = .text := by
  have hlen : z.instruction.operands.length = i.operands.length := by
    have hsame := congrArg List.length h.fields_eq
    rw [length_map, length_map, hi.length_origins] at hsame
    rw [← h.sound.operands_eq, length_map, hsame]
  have hplaces : textPlaces z.instruction = textPlaces i := by
    rw [textPlaces, textPlaces, hlen, opcode, opcode, h.signature_eq]
  have hfield : ((i.origins .cp932 table image).map Origin.field)[k]? = some r.field := by
    rw [← h.fields_eq, getElem?_map, hk]
    rfl
  rw [getElem?_map, map_eq_some_iff] at hfield
  obtain ⟨q, hq, hsame⟩ := hfield
  rw [hplaces, hi.mem_textPlaces hq, hsame]

theorem Recast.plain_iff {z : Remade} (h : Recast image i z) (hi : Settled image start stop i) :
    (∀ r ∈ z.origins, r.Plain) ↔ z.instruction.Plain := by
  constructor
  · intro hall k hk s hop
    rw [mem_def, textAt_eq_some, ← h.sound.operands_eq, getElem?_map, map_eq_some_iff] at hop
    obtain ⟨r, hr, hs⟩ := hop
    exact hall r (mem_of_getElem? hr) s ((h.mem_textPlaces hi hr).mp hk) hs
  · intro hplain r hr s hfield hs
    obtain ⟨k, hk⟩ := mem_iff_getElem?.mp hr
    refine hplain k ((h.mem_textPlaces hi hk).mpr hfield) s ?_
    rw [mem_def, textAt_eq_some, ← h.sound.operands_eq, getElem?_map, hk, map_some, hs]

namespace Remade.Sound

variable {z : Remade}

theorem opening_iff (h : z.Sound) (hsig : z.instruction.signature = [0x00]) :
    [0x31] <+: z.origins.flatMap Origin.bytes ↔
      ∃ s ∈ z.instruction.textAt? 0, s.toList.head? = some '1' := by
  obtain ⟨s, bytes, hvalid, henc, hoperands, hbytes⟩ := h.text hsig
  have htext : z.instruction.textAt? 0 = some s := textAt_eq_some.mpr (by rw [hoperands]; rfl)
  rw [hbytes, htext, head_of_valid hvalid henc]
  simp

theorem leading_iff (h : z.Sound) (hmem : (z.instruction.signature, 4) ∈ sizes)
    {word : List UInt8} (hword : word.length = 4) :
    ([0x00, 0x05] <+: z.origins.flatMap Origin.bytes ∨ word <+: z.origins.flatMap Origin.bytes) ↔
      ∃ p ∈ z.instruction.numberAt? 0, p % 0x10000 = 0x0500 ∨ p = (ofLowBytes word : Int) := by
  obtain ⟨n, hn, hnum, hbegin⟩ := h.word hmem
  have hlow : ofLowBytes [0x00, 0x05] = 0x0500 := rfl
  have hfull : n % 256 ^ 4 = n := Nat.mod_eq_of_lt (by omega)
  rw [hbegin _ (by decide), hbegin word (Nat.le_of_eq hword), hword, hnum, hlow, hfull]
  simp only [mem_def, some.injEq, exists_eq_left', Int.natCast_inj]
  exact or_congr_left (by simp; omega)

theorem marking_iff (h : z.Sound) (hsig : z.instruction.signature = [0x06]) :
    [0x00, 0xff, 0x00] <+: z.origins.flatMap Origin.bytes ↔
      ∃ p ∈ z.instruction.numberAt? 0, p % 0x1000000 = 0x00ff00 := by
  obtain ⟨n, hn, hnum, hbegin⟩ := h.word (by rw [hsig]; decide)
  have hlow : ofLowBytes [0x00, 0xff, 0x00] = 0x00ff00 := rfl
  rw [hbegin _ (by decide), hnum, hlow]
  simp
  omega

end Remade.Sound

namespace Recut

variable {image : Image} {a b : Nat} {last : List UInt8} {i : Instruction} {z : Remade}
  {ts : List Tile} {zs : List Remade}

theorem overlapped_iff (recast : Recast image i z) (there : Recut image b i.signature ts zs) :
    Overlapped (i.tile image z.origins) ts ↔
      z.instruction.Mistaken (zs.map Remade.instruction) := by
  have hsig := recast.signature_eq
  unfold Overlapped Mistaken
  rw [hsig]
  refine or_congr ?_ (or_congr ?_ ?_)
  · refine and_congr_right fun h => recast.sound.leading_iff ?_ rfl
    rw [hsig, show i.signature = _ from h]
    decide
  · refine and_congr_right fun h => recast.sound.leading_iff ?_ rfl
    rw [hsig, show i.signature = _ from h]
    decide
  · cases there with
    | nil => simp
    | gone here op behind there =>
      -- Neither of the two instructions is one that a line break may follow.
      refine iff_of_false ?_ ?_
      · rintro ⟨u, more, hts, ⟨-, hu, -⟩ | ⟨-, hu, -⟩⟩
        · rw [← (List.cons.inj hts).1] at hu
          exact absurd (op.symm.trans hu) (by decide)
        · rw [← (List.cons.inj hts).1] at hu
          exact absurd (op.symm.trans hu) (by decide)
      · rintro ⟨next, -, ⟨h, -⟩ | ⟨h, -⟩⟩
        · rw [h] at behind
          exact absurd behind (by decide)
        · rw [h] at behind
          exact absurd behind (by decide)
    | @cons _ _ _ j w _ _ here op recast' there =>
      have hsig' := recast'.signature_eq
      simp only [List.cons.injEq, map_cons, and_assoc, exists_and_left, exists_eq_left', hsig',
        tile, head?_cons, mem_def, some.injEq]
      refine or_congr ?_ ?_
      · exact and_congr_right fun _ => and_congr_right fun h =>
          recast'.sound.opening_iff (hsig'.trans h)
      · exact and_congr_right fun _ => and_congr_right fun h =>
          recast'.sound.marking_iff (hsig'.trans h)

theorem clear_iff (h : Recut image a last ts zs) :
    Remade.Clear zs ↔ Unambiguous (zs.map Remade.instruction) := by
  induction h with
  | nil => exact iff_of_true trivial ⟨by simp, by simp⟩
  | gone _ _ _ _ ih => exact ih
  | @cons a b last i z ts zs here op recast there ih =>
    have hall := @Recut.cons image a b last i z ts zs here op recast there
    have hlongest := longest_iff hall.apt op there.broken (by
      rw [hall.old_eq]
      exact here.longest)
    rw [hall.new_eq, overlapped_iff recast there] at hlongest
    rw [Remade.Clear, map_cons, Unambiguous.cons_iff, recast.signature_eq, ← ih]
    exact and_congr hlongest (and_congr_left' (recast.plain_iff here))

end Recut

def Listing.segment (y : Instruction) : Segment := ⟨y, piecesOf y.operands⟩

theorem Dialogue.Kept.recut {texts : Json} {low high : Int} {last : List UInt8}
    {xs ys : List Instruction} {place : Listing.Places} {index a : Nat} {single : Prop}
    (h : Kept single texts low high last xs ys) (hsingle : single)
    (hp : Parsed .cp932 table image index a xs)
    (hm : ∀ k v, low ≤ k → k < high → messageAt texts k = .ok v → Sayable v)
    (hr : ∀ y ∈ ys, (Listing.segment y).Resolved place) :
    ∃ ts zs, Recut image a last ts zs ∧ zs.map Remade.instruction =
        ys.map (fun y => ((Listing.segment y).moved place).instruction) ∧
      zs.flatMap Remade.bytes = ys.flatMap fun y => ((Listing.segment y).moved place).bytes := by
  induction h generalizing index a with
  | nil last =>
    cases hp
    exact ⟨[], [], .nil last, rfl, rfl⟩
  | @gone last i xs ys op behind _ ih =>
    obtain ⟨b, here, hthere⟩ := hp.settled
    obtain ⟨ts, zs, hrecut, hinstructions, hbytes⟩ := ih hthere hr
    refine ⟨_, zs, .gone here ((i.opcode_eq_iff [0x14]).mp op) ?_ hrecut, hinstructions, hbytes⟩
    simpa [breakable] using behind
  | @cons last i i' xs ys op told _ ih =>
    obtain ⟨b, here, hthere⟩ := hp.settled
    obtain ⟨ts, zs, hrecut, hinstructions, hbytes⟩ := ih hthere fun y hy => hr y (by simp [hy])
    have hsaid : ∀ v, Said texts low high v → Sayable v := by
      rintro v ⟨k, hl, hh, hk⟩
      exact hm k v hl hh hk
    have hcarried : Carried image i (Listing.segment i') :=
      here.toLocated.carried told.toRefilled fun k v hl hh hk => (hm k v hl hh hk).storable
    have hrecast := hcarried.recast here told hsingle hsaid (hr i' (by simp))
    refine ⟨_, _, .cons here (mt (i.opcode_eq_iff [0x14]).mpr op) hrecast hrecut, ?_, ?_⟩
    · rw [map_cons, map_cons, hinstructions]
      rfl
    · rw [flatMap_cons, flatMap_cons, hbytes, (hcarried.zipped here place).2.2]

/-- A script whose sentences have one text each is rebuilt with other messages. The instructions
that were assembled are read from the new script, to its end, exactly if no text has a character
that shares its code with a look-alike and no instruction is mistaken for a longer one. -/
theorem Dialogue.rebuilt_reads_iff_unambiguous (file : String) (data : List UInt8) (texts : Json)
    (start next : Int) (listing : List Json) (bytes : List UInt8)
    (hall : (run .cp932 Opcodes.table data.toArray).offset = data.length)
    (hsingle : SingleTexts (run .cp932 Opcodes.table data.toArray).instructions)
    (hreplace : replace (.arr ((run .cp932 Opcodes.table data.toArray).instructions.map
      Instruction.toJson)) texts start = .ok (listing, next))
    (hmessages : ∀ k v, start ≤ k → k < next → messageAt texts k = .ok v → Sayable v)
    (hrebuild : Listing.rebuild file listing = .ok bytes) :
    ∃ moves moved, Listing.newOffsets [] 0 listing = .ok moves ∧
      Listing.fixAllJumps file moves listing = .ok (moved.map Instruction.toJson) ∧
      Listing.assembleAll (moved.map Instruction.toJson) = .ok bytes ∧
      let again := run .cp932 Opcodes.table bytes.toArray
      (again.offset = bytes.length ∧
          again.instructions.map Instruction.content = moved.map Instruction.content ↔
        Unambiguous moved) := by
  obtain ⟨m, -, htiled⟩ := run_tiled Opcodes.table_regular .cp932 data.toArray
  have hparsed : Parsed .cp932 Opcodes.table data.toArray 0 0 _ :=
    run_parsed Opcodes.table_regular (by simpa using hall)
  obtain ⟨ys, rfl, hkept⟩ := replace_kept hreplace
  have hcarried : List.Forall₂ (Carried data.toArray) (spoken _) (ys.map Listing.segment) :=
    htiled.carried hkept.refilled fun k v hl hh hk => (hmessages k v hl hh hk).storable
  have hsound : ∀ s ∈ ys.map Listing.segment, s.Sound := by
    intro s hs
    obtain ⟨i, -, hc⟩ := exists_left hcarried hs
    exact hc.sound
  have hnodup : ((ys.map Listing.segment).map fun s => s.instruction.offset).Nodup := by
    rw [Carried.offsets hcarried]
    exact (htiled.offsets_increasing.imp Int.ne_of_lt).sublist (List.filter_sublist.map _)
  have hentries : ys.map Instruction.toJson = Segment.entries (ys.map Listing.segment) := by
    rw [Segment.entries, List.map_map]
    rfl
  rw [hentries] at hrebuild ⊢
  obtain ⟨hmoves, hfix, hresolved, rfl⟩ := Segment.rebuild_ok file hsound hnodup hrebuild
  obtain ⟨ts, zs, hrecut, hinstructions, hbytes⟩ := hkept.recut hsingle hparsed hmessages
    fun y hy => hresolved _ (List.mem_map_of_mem hy)
  have hmoved : Segment.entries ((ys.map Listing.segment).map
      (Segment.moved (Segment.placeFrom 0 (ys.map Listing.segment)))) =
        (zs.map Remade.instruction).map Instruction.toJson := by
    rw [hinstructions, Segment.entries, List.map_map, List.map_map, List.map_map]
    rfl
  rw [hmoved] at hfix
  rw [List.flatMap_map, ← hbytes] at hrebuild ⊢
  refine ⟨_, _, hmoves, hfix, ?_, ?_⟩
  · simpa only [Listing.rebuild, hmoves, hfix, bind, Except.bind] using hrebuild
  · rw [← hrecut.clear_iff]
    exact Remade.read_iff_clear hrecut.sound

theorem CodePage.encodeChar_comma : cp932.encodeChar '、' = some [0x81, 0x41] := by
  obtain ⟨piece, pieces, rows, hchart, hpiece⟩ : ∃ piece pieces rows,
      chartRows = (0x81, piece :: pieces) :: rows ∧ piece.toList.take 2 = ['　', '、'] :=
    ⟨_, _, _, rfl, by simp⟩
  have hrow : (String.join (piece :: pieces)).toList =
      ['　'] ++ '、' :: (piece.toList.drop 2 ++ (String.join pieces).toList) := by
    rw [String.toList_join, flatMap_cons, ← String.toList_join]
    conv_lhs => rw [← take_append_drop 2 piece.toList, hpiece]
    rfl
  rw [cp932_encodeChar, double932?, codes932_first (by decide) hchart hrow (by decide)]
  rfl

theorem CodePage.encode_pair {page : CodePage} {d : Char} {front back : List UInt8}
    (hc : page.encodeChar c = some front) (hd : page.encodeChar d = some back) :
    page.encode [c, d] = .ok (front ++ back) := by
  simp [encode, encodeFrom, hc, hd]

theorem Dialogue.encode_comma (hc : c.toNat ≤ 0x80) :
    cp932.encode (String.ofList [c, '、']).toList =
      .ok [UInt8.ofNat c.toNat, 0x81, 0x41] := by
  have hascii : cp932.encodeChar c = some [UInt8.ofNat c.toNat] := by
    rw [cp932_encodeChar, single932?, if_pos hc]
    rfl
  rw [String.toList_ofList, encode_pair hascii encodeChar_comma]
  rfl

theorem Dialogue.store_comma (hc : c.toNat ≤ 0x80) (hcolon : ':' ≠ c) :
    storeJson .script .little (.str (String.ofList [c, '、'])) =
      .ok [UInt8.ofNat c.toNat, 0x81, 0x41, 0x00] := by
  apply storeJson_text .cp932 .little _ _ _ (encode_comma hc)
  apply read_of_no_colon
  simp [hcolon]

theorem Dialogue.sayable_comma (hs : Sayable (.str s)) (k : Int) (v : Json) (hlow : 0 ≤ k)
    (hhigh : k < 1) (hk : messageAt (.arr [.obj [("message", .str s)]]) k = .ok v) : Sayable v := by
  obtain rfl : k = 0 := by omega
  exact Except.ok.inj hk ▸ hs

def commaScript : List UInt8 :=
  [0x00, 0x41, 0x00, 0x14, 0x15, 0x06, 0x04, 0x00, 0x00, 0x00]

def commaSegments : List Segment :=
  [⟨⟨[0x00], 0, 0, [.str "B、"]⟩, [[0x42, 0x81, 0x41, 0x00]]⟩, ⟨⟨[0x15], 4, 2, []⟩, []⟩,
    ⟨⟨[0x06], 5, 3, [.str "u32:4"]⟩, [[0x04, 0x00, 0x00, 0x00]]⟩]

theorem commaSegments_sound : ∀ s ∈ commaSegments, s.Sound := by
  simp only [commaSegments, forall_mem_cons, not_mem_nil, false_implies, implies_true, and_true]
  refine ⟨?_, ?_, ⟨.cons rfl .nil, fun k hk => ?_⟩⟩
  · exact sound_of_no_jumps (.cons (store_comma (by decide) (by decide)) .nil) (by decide)
  · exact sound_of_no_jumps .nil (by decide)
  · rw [show jumpPlaces _ = [0] by decide, mem_singleton] at hk
    exact ⟨4, by decide, by rw [hk]; rfl⟩

theorem commaSegments_rebuilt : Listing.rebuild "comma" (entries commaSegments) =
    .ok [0x00, 0x42, 0x81, 0x41, 0x00, 0x15, 0x06, 0x05, 0x00, 0x00, 0x00] := by
  rw [rebuild_small "comma" commaSegments_sound (by decide) (by decide) (by decide)]
  rfl

theorem Dialogue.rebuilt_reads_comma :
    ∃ listing bytes, replace (.arr ((run .cp932 Opcodes.table
        commaScript.toArray).instructions.map Instruction.toJson))
        (.arr [.obj [("message", .str "B、")]]) 0 = .ok (listing, 1) ∧
      Listing.rebuild "comma" listing = .ok bytes ∧
      (run .cp932 Opcodes.table bytes.toArray).offset = bytes.length ∧
      (run .cp932 Opcodes.table bytes.toArray).instructions.map Instruction.content =
        [("00", [.str "B、"]), ("15", []), ("06", [.str "u32:5"])] := by
  have hrun : run .cp932 Opcodes.table commaScript.toArray =
      ⟨[⟨[0x00], 0, 0, [.str "A"]⟩, ⟨[0x14], 3, 1, []⟩, ⟨[0x15], 4, 2, []⟩,
        ⟨[0x06], 5, 3, [.str "u32:4"]⟩], 10, .atEnd⟩ := by cbv
  have hreplace : replace (.arr ((run .cp932 Opcodes.table
      commaScript.toArray).instructions.map Instruction.toJson))
      (.arr [.obj [("message", .str "B、")]]) 0 = .ok (Segment.entries commaSegments, 1) := by
    rw [hrun]
    cbv
  have hall : (run .cp932 Opcodes.table commaScript.toArray).offset =
      commaScript.length := by
    rw [hrun]
    rfl
  have hsingle : SingleTexts
      (run .cp932 Opcodes.table commaScript.toArray).instructions := by
    apply SingleTexts.of_count
    rw [hrun]
    decide
  have hmessages := sayable_comma ⟨"B、", _, rfl, by decide, by decide, encode_comma (by decide)⟩
  obtain ⟨moves, moved, hmoves, hfix, -, hread⟩ := rebuilt_reads_iff_unambiguous "comma" commaScript
    (.arr [.obj [("message", .str "B、")]]) 0 1 _ _ hall hsingle hreplace hmessages
    commaSegments_rebuilt
  obtain ⟨hmoves', hfix', -⟩ := Segment.rebuild_ok "comma" commaSegments_sound (by decide)
    commaSegments_rebuilt
  rw [hmoves', Except.ok.injEq] at hmoves
  rw [← hmoves, hfix', Except.ok.injEq] at hfix
  obtain rfl : [⟨[0x00], 0, 0, [.str "B、"]⟩, ⟨[0x15], 4, 2, []⟩, ⟨[0x06], 5, 3, [.str "u32:5"]⟩] =
      moved := List.map_injective_iff.mpr Instruction.toJson_injective hfix
  obtain ⟨hend, hcontent⟩ := hread.mpr (by decide +kernel)
  exact ⟨_, _, hreplace, commaSegments_rebuilt, hend, hcontent⟩

def oneScript : List UInt8 := [0x20, 0x00, 0x41, 0x00, 0x15]

def oneSegments : List Segment :=
  [⟨⟨[0x20], 0, 0, []⟩, []⟩, ⟨⟨[0x00], 1, 1, [.str "1、"]⟩, [[0x31, 0x81, 0x41, 0x00]]⟩,
    ⟨⟨[0x15], 4, 2, []⟩, []⟩]

theorem oneSegments_rebuilt : Listing.rebuild "one" (entries oneSegments) =
    .ok [0x20, 0x00, 0x31, 0x81, 0x41, 0x00, 0x15] := by
  have hsound : ∀ s ∈ oneSegments, s.Sound := by
    simp only [oneSegments, forall_mem_cons, not_mem_nil, false_implies, implies_true, and_true]
    refine ⟨?_, ?_, ?_⟩
    · exact sound_of_no_jumps .nil (by decide)
    · exact sound_of_no_jumps (.cons (store_comma (by decide) (by decide)) .nil) (by decide)
    · exact sound_of_no_jumps .nil (by decide)
  rw [rebuild_small "one" hsound (by decide) (by decide) (by decide)]
  rfl

/-- Behind the instruction "20" a text that begins with a one is not read again: both are taken for
one instruction, and the script is read no further. -/
theorem Dialogue.rebuilt_misread :
    (run .cp932 Opcodes.table oneScript.toArray).offset = oneScript.length ∧
      SingleTexts (run .cp932 Opcodes.table oneScript.toArray).instructions ∧
      (∀ k v, 0 ≤ k → k < 1 →
        messageAt (.arr [.obj [("message", .str "1、")]]) k = .ok v → Sayable v) ∧
      ∃ listing bytes, replace (.arr ((run .cp932 Opcodes.table
          oneScript.toArray).instructions.map Instruction.toJson))
          (.arr [.obj [("message", .str "1、")]]) 0 = .ok (listing, 1) ∧
        Listing.rebuild "one" listing = .ok bytes ∧ bytes.length = 7 ∧
        (run .cp932 Opcodes.table bytes.toArray).offset = 3 ∧
        (run .cp932 Opcodes.table bytes.toArray).instructions =
          [⟨[0x20, 0x00, 0x31], 0, 0, []⟩] := by
  have hrun : run .cp932 Opcodes.table oneScript.toArray =
      ⟨[⟨[0x20], 0, 0, []⟩, ⟨[0x00], 1, 1, [.str "A"]⟩, ⟨[0x15], 4, 2, []⟩], 5, .atEnd⟩ := by cbv
  have hread : run .cp932 Opcodes.table #[0x20, 0x00, 0x31, 0x81, 0x41, 0x00, 0x15] =
        ⟨[⟨[0x20, 0x00, 0x31], 0, 0, []⟩], 3, .unknown 0x81⟩ := by cbv
  have hreplace : replace (.arr ((run .cp932 Opcodes.table
      oneScript.toArray).instructions.map Instruction.toJson))
      (.arr [.obj [("message", .str "1、")]]) 0 = .ok (Segment.entries oneSegments, 1) := by
    rw [hrun]
    cbv
  refine ⟨by rw [hrun]; rfl, .of_count (by rw [hrun]; decide), sayable_comma ?_, _, _, hreplace,
    oneSegments_rebuilt, rfl, ?_⟩
  · exact ⟨"1、", _, rfl, by decide, by decide, encode_comma (by decide)⟩
  · rw [hread]
    exact ⟨rfl, rfl⟩

end SceneText
