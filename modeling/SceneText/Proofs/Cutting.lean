import SceneText.Proofs.Forward

/-!
# How an image is cut into instructions

For any table of non-empty signatures whose fields never move back, disassembly ends, and its
instructions lie one behind the other from the start of the image, each at the longest signature
that stands in its place. It ends at the end of the image, where no signature stands, where a field
cannot be read, or at a stop.

What is recorded lies inside the image exactly if every byte slice has its full length. Only the
last instruction can fall short of that, and none can if an integer or a text follows every slice.
-/

namespace SceneText

open List Option Instruction
open FieldSpec (slicesGuarded spread)
open CodePage (cp932)

variable {signature : List UInt8} {n : Nat} {i : Instruction}

/-- A table of non-empty signatures, one entry for each, whose fields never move back. -/
structure ForwardTable (table : FlatTable) : Prop where
  keys : (table.map Prod.fst).Nodup
  signatures : ∀ entry ∈ table, entry.1 ≠ .default ∧ entry.1 ≠ .bytes []
  forward : ∀ entry ∈ table, ∀ spec ∈ entry.2, spec.isForward = true

theorem Opcodes.table_forward : ForwardTable Opcodes.table where
  keys := Opcodes.table_regular.keys
  signatures := Opcodes.table_regular.signatures
  forward := by decide

theorem Opcodes.table_guarded :
    ∀ entry ∈ Opcodes.table, slicesGuarded entry.2 = true := by
  decide

namespace SignatureTable

def fieldsOf (table : FlatTable) (signature : List UInt8) : List FieldSpec :=
  (table.lookup (.bytes signature)).getD []

structure Longest (table : FlatTable) (image : Image) (n : Nat) (signature : List UInt8) :
    Prop where
  key : .bytes signature ∈ table.map Prod.fst
  stands : signature <+: image.toList.drop n
  longest : ∀ other, .bytes other ∈ table.map Prod.fst → other <+: image.toList.drop n →
    other.length ≤ signature.length

end SignatureTable

open SignatureTable (fieldsOf Longest)

namespace ForwardTable

variable {table : FlatTable} {image : Image}

theorem fieldsOf_mem (ht : ForwardTable table) {specs : List FieldSpec}
    (h : (.bytes signature, specs) ∈ table) : fieldsOf table signature = specs := by
  rw [fieldsOf, lookup_of_mem ht.keys h, getD_some]

theorem fieldsOf_of_key (ht : ForwardTable table) {P : List FieldSpec → Prop}
    (hP : ∀ entry ∈ table, P entry.2) (h : .bytes signature ∈ table.map Prod.fst) :
    P (fieldsOf table signature) := by
  obtain ⟨⟨key, specs⟩, hmem, rfl⟩ := mem_map.mp h
  rw [ht.fieldsOf_mem hmem]
  exact hP _ hmem

theorem signature_end (ht : ForwardTable table) (h : Longest table image n signature) :
    n < n + signature.length ∧ n + signature.length ≤ image.size := by
  obtain ⟨⟨key, specs⟩, hmem, rfl⟩ := mem_map.mp h.key
  have hpos : signature ≠ [] := fun hnil => (ht.signatures _ hmem).2 (by rw [hnil])
  have hlen := h.stands.length_le
  rw [← length_pos_iff] at hpos
  rw [length_drop] at hlen
  have hsize : image.toList.length = image.size := Array.length_toList
  omega

end ForwardTable

namespace Instruction

variable (page : CodePage) (table : FlatTable) (image : Image) (i : Instruction)

def reading : FieldsRead :=
  readFields page image [] (i.offset + i.signature.length) (fieldsOf table i.signature)

def values : List (FieldSpec × Json) :=
  readValues page image [] (i.offset + i.signature.length) (fieldsOf table i.signature)

/-- Whether all byte slices of an instruction have the length that they were asked for. -/
def isWhole : Bool :=
  (i.values page table image).all fun p => p.1.isWhole p.2

end Instruction

/-- Instructions that lie one behind the other from the start of the image to an offset. -/
structure Cut (page : CodePage) (table : FlatTable) (image : Image)
    (instructions : List Instruction) (offset : Int) : Prop where
  index_eq : ∀ (k : Nat) i, instructions[k]? = some i → i.index = k
  first : ∀ i, instructions[0]? = some i → i.offset = 0
  next : ∀ (k : Nat) i j, instructions[k]? = some i → instructions[k + 1]? = some j →
    (i.reading page table image).halt = none ∧ j.offset = (i.reading page table image).offset
  longest : ∀ i ∈ instructions, ∃ n : Nat, i.offset = n ∧ Longest table image n i.signature
  operands_eq : ∀ i ∈ instructions, i.operands = (i.reading page table image).operands
  readable : ∀ i ∈ instructions, ∀ fault, (i.reading page table image).halt ≠ some (.failed fault)
  last : offset = (instructions.getLast?.map fun i => (i.reading page table image).offset).getD 0

namespace Cut

variable {page : CodePage} {table : FlatTable} {image : Image} {xs : List Instruction} {a : Int}

theorem nil (page : CodePage) (table : FlatTable) (image : Image) : Cut page table image [] 0 where
  index_eq := by simp
  first := by simp
  next := by simp
  longest := by simp
  operands_eq := by simp
  readable := by simp
  last := rfl

theorem extend (h : Cut page table image xs a)
    (hread : ∀ i ∈ xs, (i.reading page table image).halt = none) {x : Instruction}
    (hindex : x.index = xs.length) (hoffset : x.offset = a)
    (hlongest : ∃ n : Nat, x.offset = n ∧ Longest table image n x.signature)
    (hoperands : x.operands = (x.reading page table image).operands)
    (hreadable : ∀ fault, (x.reading page table image).halt ≠ some (.failed fault)) :
    Cut page table image (xs ++ [x]) (x.reading page table image).offset where
  index_eq := by
    intro k i hi
    rcases Nat.lt_trichotomy k xs.length with hk | hk | hk
    · rw [getElem?_append_left hk] at hi
      exact h.index_eq k i hi
    · subst hk
      rw [getElem?_concat_length, some.injEq] at hi
      rw [← hi, hindex]
    · rw [getElem?_eq_none (by simp; omega)] at hi
      cases hi
  first := by
    intro i hi
    cases xs with
    | nil =>
      rw [nil_append, getElem?_cons_zero, some.injEq] at hi
      rw [← hi, hoffset, h.last]
      rfl
    | cons y ys => exact h.first i hi
  next := by
    intro k i j hi hj
    have hk : k < xs.length := by
      by_contra hle
      rw [getElem?_eq_none (by simp; omega)] at hj
      cases hj
    rw [getElem?_append_left hk] at hi
    by_cases hnext : k + 1 < xs.length
    · rw [getElem?_append_left hnext] at hj
      exact h.next k i j hi hj
    · -- the new instruction stands behind the one that was the last
      obtain rfl : k = xs.length - 1 := by omega
      rw [show xs.length - 1 + 1 = xs.length by omega, getElem?_concat_length, some.injEq] at hj
      refine ⟨hread i (mem_of_getElem? hi), ?_⟩
      rw [← hj, hoffset, h.last, getLast?_eq_getElem?, hi]
      rfl
  longest := forall_mem_append.mpr ⟨h.longest, forall_mem_singleton.mpr hlongest⟩
  operands_eq := forall_mem_append.mpr ⟨h.operands_eq, forall_mem_singleton.mpr hoperands⟩
  readable := forall_mem_append.mpr ⟨h.readable, forall_mem_singleton.mpr hreadable⟩
  last := by
    rw [getLast?_concat]
    rfl

theorem operands_values (h : Cut page table image xs a) (hi : i ∈ xs) :
    i.operands = (i.values page table image).flatMap fun p => spread p.2 := by
  rw [h.operands_eq i hi, reading, readFields_operands, nil_append, values]

theorem end_le_iff (ht : ForwardTable table) (h : Cut page table image xs a) (hi : i ∈ xs) :
    (i.reading page table image).offset ≤ image.size ↔ i.isWhole page table image = true := by
  obtain ⟨n, hn, hlongest⟩ := h.longest i hi
  have hstart := (ht.signature_end hlongest).2
  have hforward := ht.fieldsOf_of_key (P := fun specs => ∀ spec ∈ specs, spec.isForward = true)
    ht.forward hlongest.key
  obtain ⟨m, hm, hstride⟩ := @readFields_stride page image _ hforward [] (n + i.signature.length)
  rw [Int.natCast_add, ← hn] at hm hstride
  rw [reading, hm, isWhole, values, ← hstride.within hstart]
  omega

theorem whole_of_next (ht : ForwardTable table) (h : Cut page table image xs a)
    (hi : i ∈ xs.dropLast) : i.isWhole page table image = true := by
  obtain ⟨k, hk, hget⟩ := mem_iff_getElem.mp hi
  rw [length_dropLast] at hk
  rw [getElem_dropLast] at hget
  have hthis : xs[k]? = some i := by rw [getElem?_eq_getElem (by omega), hget]
  have hnext : xs[k + 1]? = some xs[k + 1] := getElem?_eq_getElem (by omega)
  obtain ⟨n, hn, hlongest⟩ := h.longest _ (mem_of_getElem? hnext)
  have hstart := ht.signature_end hlongest
  rw [← h.end_le_iff ht (mem_of_getElem? hthis), ← (h.next k i _ hthis hnext).2, hn]
  omega

theorem offset_le_iff (ht : ForwardTable table) (h : Cut page table image xs a) :
    a ≤ image.size ↔ ∀ i ∈ xs, i.isWhole page table image = true := by
  rcases eq_nil_or_concat xs with rfl | ⟨ys, x, hxs⟩
  · simp [h.last]
  · rw [concat_eq_append] at hxs
    subst hxs
    have hx : x ∈ ys ++ [x] := by simp
    have hlast : a = (x.reading page table image).offset := by
      rw [h.last, getLast?_concat]
      rfl
    rw [hlast, h.end_le_iff ht hx]
    constructor
    · intro hwhole i hi
      rcases mem_append.mp hi with hi | hi
      · exact h.whole_of_next ht (by rwa [dropLast_concat])
      · rwa [mem_singleton.mp hi]
    · intro hall
      exact hall x hx

end Cut

/-- The four reasons for which disassembly ends, with what each says about the place. Except at a
stop, the fields of all instructions have been read to their end. -/
inductive Ended (page : CodePage) (table : FlatTable) (image : Image) (d : Disassembly) : Prop
  | atEnd (halt_eq : d.halt = .atEnd)
      (complete : ∀ i ∈ d.instructions, (i.reading page table image).halt = none)
      (beyond : image.size ≤ d.offset)
  | unknown (n : Nat) (byte : UInt8) (halt_eq : d.halt = .unknown byte)
      (complete : ∀ i ∈ d.instructions, (i.reading page table image).halt = none)
      (offset_eq : d.offset = n) (here : image[n]? = some byte)
      (none_stands : ∀ signature, .bytes signature ∈ table.map Prod.fst →
        ¬ signature <+: image.toList.drop n)
  | failed (n : Nat) (byte : UInt8) (signature : List UInt8) (before after : List FieldSpec)
      (spec : FieldSpec) (operands : List Json) (offset : Int) (fault : Fault)
      (halt_eq : d.halt = .failed byte fault)
      (complete : ∀ i ∈ d.instructions, (i.reading page table image).halt = none)
      (offset_eq : d.offset = n) (here : image[n]? = some byte)
      (longest : Longest table image n signature)
      (fields_eq : fieldsOf table signature = before ++ spec :: after)
      (front : readFields page image [] (n + signature.length) before = ⟨operands, offset, none⟩)
      (fails : spec.read page image operands offset = .error (.failed fault))
  | stopped (i : Instruction) (before after : List FieldSpec) (spec : FieldSpec)
      (halt_eq : d.halt = .stopped) (last : d.instructions.getLast? = some i)
      (fields_eq : fieldsOf table i.signature = before ++ spec :: after)
      (front : readFields page image [] (i.offset + i.signature.length) before =
        ⟨i.operands, d.offset, none⟩)
      (stops : spec.Stops i.operands)

namespace Disassembly

variable {page : CodePage} {table : FlatTable} {image : Image}

theorem firstMatch_ne_error {entries : FlatTable} {fault : Fault}
    (hkeys : ∀ entry ∈ entries, entry.1 ≠ .default) :
    firstMatch image n entries ≠ .error fault := by
  induction entries with
  | nil => simp [firstMatch]
  | cons entry rest ih =>
    obtain ⟨key, specs⟩ := entry
    cases key with
    | default => exact absurd rfl (hkeys _ mem_cons_self)
    | bytes signature =>
      rw [firstMatch_cons]
      split
      · simp
      · exact ih fun e he => hkeys e (mem_cons_of_mem _ he)

theorem longest_of_match (hn : n ≤ image.size) {specs : List FieldSpec}
    (h : firstMatch image n (SignatureTable.byLength table) = .ok (some (signature, specs))) :
    Longest table image n signature := by
  obtain ⟨hmem, hstands, hlongest⟩ := firstMatch_longest hn h
  refine ⟨mem_map.mpr ⟨_, hmem, rfl⟩, hstands, ?_⟩
  intro other hother hprefix
  obtain ⟨⟨key, fields⟩, hentry, rfl⟩ := mem_map.mp hother
  exact hlongest other fields hentry hprefix

theorem not_stands_of_match (ht : ForwardTable table) (hn : n ≤ image.size)
    (h : firstMatch image n (SignatureTable.byLength table) = .ok none) (signature : List UInt8)
    (hkey : .bytes signature ∈ table.map Prod.fst) : ¬ signature <+: image.toList.drop n := by
  intro hprefix
  obtain ⟨⟨key, fields⟩, hentry, rfl⟩ := mem_map.mp hkey
  obtain ⟨found, hfound⟩ := @firstMatch_found image _ n _ _
    (fun e he => (ht.signatures e (mem_byLength.mp he)).1) (mem_byLength.mpr hentry)
    ((image.startsAt_iff _ n hn).mpr hprefix)
  rw [h] at hfound
  cases hfound

section Step

variable {n : Nat} {signature : List UInt8} {specs : List FieldSpec}

section

variable (ht : ForwardTable table) (hn : n ≤ image.size)
  (hm : firstMatch image n (SignatureTable.byLength table) = .ok (some (signature, specs)))
include ht hn hm

theorem reading_of_match (index : Nat) (operands : List Json) :
    reading page table image ⟨signature, n, index, operands⟩ =
      readFields page image [] (n + signature.length) specs := by
  rw [reading, ht.fieldsOf_mem (firstMatch_longest hn hm).1]

theorem offset_of_match :
    ∃ m : Nat, (readFields page image [] (n + signature.length) specs).offset = m ∧ n < m := by
  have hforward := ht.forward _ (firstMatch_longest hn hm).1
  obtain ⟨m, hoffset, hstride⟩ := @readFields_stride page image _ hforward [] (n + signature.length)
  have hstart := (ht.signature_end (longest_of_match hn hm)).1
  have hon := hstride.on
  exact ⟨m, hoffset, by omega⟩

theorem cut_of_match
    (hreadable : ∀ fault,
      (readFields page image [] (n + signature.length) specs).halt ≠ some (.failed fault))
    {done : List Instruction} (hcut : Cut page table image done.reverse n)
    (hread : ∀ i ∈ done.reverse, (i.reading page table image).halt = none) :
    Cut page table image (⟨signature, n, done.length,
        (readFields page image [] (n + signature.length) specs).operands⟩ :: done).reverse
      (readFields page image [] (n + signature.length) specs).offset := by
  have hreading := @reading_of_match page _ _ _ _ _ ht hn hm done.length
    (readFields page image [] (n + signature.length) specs).operands
  have hmore := hcut.extend hread (x := ⟨signature, n, done.length, _⟩) length_reverse.symm rfl
    ⟨n, rfl, longest_of_match hn hm⟩ (congrArg FieldsRead.operands hreading.symm)
    (by rwa [hreading])
  rwa [hreading, ← reverse_cons] at hmore

end

end Step

theorem runFrom_cut (ht : ForwardTable table) (fuel : Nat) (done : List Instruction) (n : Nat)
    (hpos : 0 < fuel) (hfuel : image.size < n + fuel) (hcut : Cut page table image done.reverse n)
    (hread : ∀ i ∈ done.reverse, (i.reading page table image).halt = none) :
    Cut page table image
        (runFrom page (SignatureTable.byLength table) image fuel done n).instructions
        (runFrom page (SignatureTable.byLength table) image fuel done n).offset ∧
      Ended page table image (runFrom page (SignatureTable.byLength table) image fuel done n) := by
  induction fuel generalizing done n with
  | zero => omega
  | succ fuel ih =>
    rw [runFrom]
    by_cases hsize : (image.size : Int) ≤ n
    · rw [if_pos hsize]
      exact ⟨hcut, .atEnd rfl hread hsize⟩
    rw [if_neg hsize]
    have hlt : n < image.size := by omega
    have hn := Nat.le_of_lt hlt
    obtain ⟨byte, hbyte⟩ : ∃ byte, image[n]? = some byte := ⟨_, Array.getElem?_eq_getElem hlt⟩
    have hat : image.byteAt? n = some byte := by simpa [Image.byteAt?] using hbyte
    simp only [hat, map_some, getD_some]
    cases hm : firstMatch image n (SignatureTable.byLength table) with
    | error fault =>
      exact absurd hm (firstMatch_ne_error fun e he => (ht.signatures e (mem_byLength.mp he)).1)
    | ok found =>
      cases found with
      | none =>
        exact ⟨hcut, .unknown n byte rfl hread rfl hbyte (not_stands_of_match ht hn hm)⟩
      | some entry =>
        obtain ⟨signature, specs⟩ := entry
        have hfields := ht.fieldsOf_mem (firstMatch_longest hn hm).1
        dsimp only
        cases hh : (readFields page image [] (n + signature.length) specs).halt with
        | none =>
          have hmore := cut_of_match ht hn hm (by simp [hh]) hcut hread
          obtain ⟨m, hoffset, hnm⟩ := @offset_of_match page _ _ _ _ _ ht hn hm
          rw [hoffset] at hmore ⊢
          refine ih _ m (by omega) (by omega) hmore ?_
          rw [reverse_cons]
          refine forall_mem_append.mpr ⟨hread, forall_mem_singleton.mpr ?_⟩
          rw [reading_of_match ht hn hm, hh]
        | some halt =>
          obtain ⟨before, spec, after, hspecs, hfront, hspec⟩ := readFields_halted hh
          rw [hspecs] at hfields
          cases halt with
          | stopped =>
            refine ⟨cut_of_match ht hn hm (by simp [hh]) hcut hread, ?_⟩
            exact .stopped ⟨signature, n, done.length, _⟩ before after spec rfl
              (by rw [reverse_cons, getLast?_concat]) hfields hfront
              ((FieldSpec.readWith_stopped_iff spec _).mp hspec)
          | failed fault =>
            exact ⟨hcut, .failed n byte signature before after spec _ _ fault rfl hread rfl hbyte
              (longest_of_match hn hm) hfields hfront hspec⟩

theorem run_cut (ht : ForwardTable table) (page : CodePage) (image : Image) :
    Cut page table image (run page table image).instructions (run page table image).offset ∧
      Ended page table image (run page table image) := by
  have hfuel : image.size + 1 ≤ fuelFor table image := Nat.le_mul_of_pos_right _ (Nat.succ_pos _)
  exact runFrom_cut ht _ [] 0 (by omega) (by omega) (.nil page table image) (by simp)

theorem run_within (ht : ForwardTable table)
    (hguarded : ∀ entry ∈ table, slicesGuarded entry.2 = true) (page : CodePage)
    (image : Image) : (run page table image).offset ≤ image.size := by
  obtain ⟨hcut, -⟩ := run_cut ht page image
  rw [hcut.last]
  cases hlast : (run page table image).instructions.getLast? with
  | none => simp
  | some i =>
    have hi := mem_of_getLast? hlast
    obtain ⟨n, hn, hlongest⟩ := hcut.longest i hi
    have hstart := (ht.signature_end hlongest).2
    have hforward := ht.fieldsOf_of_key (P := fun specs => ∀ spec ∈ specs, spec.isForward = true)
      ht.forward hlongest.key
    have hslices := ht.fieldsOf_of_key (P := fun specs => slicesGuarded specs = true)
      hguarded hlongest.key
    have hwithin := @readFields_within page image _ hforward hslices [] (n + i.signature.length)
      (.inl hstart)
    rw [Int.natCast_add, ← hn] at hwithin
    exact hwithin (hcut.readable i hi)

theorem ofDatum_bytes {data : List UInt8} (h : Ended page table data.toArray
    (run page table data.toArray)) (file : String) (base : Int) :
    ∃ line, ofDatum page table file (.int base) (.bytes data) =
      .ok (run page table data.toArray, line) := by
  obtain ⟨line, hline⟩ : ∃ line, (run page table data.toArray).report file base = .ok line := by
    cases h with
    | atEnd halt_eq => exact ⟨_, by rw [report, halt_eq]⟩
    | unknown n byte halt_eq => exact ⟨_, by rw [report, halt_eq]⟩
    | failed n byte signature before after spec operands offset fault halt_eq =>
      exact ⟨_, by rw [report, halt_eq]⟩
    | stopped i before after spec halt_eq => exact ⟨_, by rw [report, halt_eq]⟩
  refine ⟨line, ?_⟩
  simp [ofDatum, Json.toInt?, hline, bind, Except.bind, pure, Except.pure]

/-- Any byte string is disassembled to one of the four ends, without a fault, and its instructions
lie one behind the other, each at the longest signature. Of a scene script no byte is recorded that
is not there. -/
theorem ofDatum_cut (ht : ForwardTable table) (page : CodePage) (file : String) (base : Int)
    (data : List UInt8) :
    ∃ d line, ofDatum page table file (.int base) (.bytes data) = .ok (d, line) ∧
      Cut page table data.toArray d.instructions d.offset ∧
      Ended page table data.toArray d ∧
      (table = Opcodes.table → d.offset ≤ data.length) := by
  obtain ⟨hcut, hended⟩ := run_cut ht page data.toArray
  obtain ⟨line, hline⟩ := ofDatum_bytes hended file base
  refine ⟨_, line, hline, hcut, hended, fun hopcodes => ?_⟩
  subst hopcodes
  simpa using run_within ht Opcodes.table_guarded page data.toArray

def stoppedTable : FlatTable :=
  [(.bytes [1], [.int .u8, .timesBy (-1) (.bytes 2)]), (.bytes [1, 2], [.int .u8, .times 1 .stop])]

theorem ofDatum_cut_stopped :
    (ForwardTable stoppedTable ∧ ∃ d line,
      ofDatum cp932 stoppedTable "f" (.int 0) (.bytes [1, 1, 7, 8, 1, 2, 9, 5]) =
        .ok (d, line) ∧
      Cut cp932 stoppedTable #[1, 1, 7, 8, 1, 2, 9, 5] d.instructions d.offset ∧
      Ended cp932 stoppedTable #[1, 1, 7, 8, 1, 2, 9, 5] d) ∧
    ForwardTable Opcodes.table ∧ ∃ d line,
      ofDatum cp932 Opcodes.table "f" (.int 0) (.bytes [0, 0x41, 0, 0x15, 0x10]) =
        .ok (d, line) ∧ d.offset ≤ 5 := by
  have ht : ForwardTable stoppedTable := ⟨by decide, by decide, by decide⟩
  obtain ⟨d, line, hrun, hcut, hended, -⟩ :=
    ofDatum_cut ht cp932 "f" 0 [1, 1, 7, 8, 1, 2, 9, 5]
  obtain ⟨d', line', hscene, -, -, hwithin⟩ :=
    ofDatum_cut Opcodes.table_forward cp932 "f" 0 [0, 0x41, 0, 0x15, 0x10]
  exact ⟨⟨ht, d, line, hrun, hcut, hended⟩, Opcodes.table_forward, d', line', hscene, hwithin rfl⟩

/-- What is recorded lies inside the image exactly if every byte slice has the length that it was
asked for. Only the last instruction may have a slice that is cut short, and none has one if an
integer or a text follows every slice. -/
theorem run_within_iff_whole (ht : ForwardTable table) (page : CodePage) (image : Image) :
    ((run page table image).offset ≤ image.size ↔
        ∀ i ∈ (run page table image).instructions, i.isWhole page table image = true) ∧
      (∀ i ∈ (run page table image).instructions,
        i.operands = (i.values page table image).flatMap fun p => spread p.2) ∧
      (∀ i ∈ (run page table image).instructions.dropLast, i.isWhole page table image = true) ∧
      ((∀ entry ∈ table, slicesGuarded entry.2 = true) →
        (run page table image).offset ≤ image.size) := by
  obtain ⟨hcut, -⟩ := run_cut ht page image
  exact ⟨hcut.offset_le_iff ht, fun i hi => hcut.operands_values hi,
    fun i hi => hcut.whole_of_next ht hi, fun hguarded => run_within ht hguarded page image⟩

def pairTable : FlatTable :=
  [(.bytes [1], [.int .u8, .timesBy (-1) (.bytes 2)])]

theorem pairTable_forward : ForwardTable pairTable :=
  ⟨by decide, by decide, by decide⟩

def clippedPairs : Image := #[1, 1, 7, 8, 1, 2, 9]

theorem run_clippedPairs :
    run cp932 pairTable clippedPairs = ⟨[⟨[1], 0, 0, [.str "u8:1", .str "bytes:07 08"]⟩,
        ⟨[1], 4, 1, [.str "u8:2", .str "bytes:09", .str "bytes:"]⟩], 10, .atEnd⟩ := by
  rw [run, SignatureTable.byLength, pairTable, mergeSort_singleton]
  rfl

theorem run_within_iff_whole_clipped :
    ForwardTable pairTable ∧ (run cp932 pairTable clippedPairs).offset = 10 ∧
      (¬ ∀ i ∈ (run cp932 pairTable clippedPairs).instructions,
        i.isWhole cp932 pairTable clippedPairs = true) ∧
      (∀ i ∈ (run cp932 pairTable clippedPairs).instructions.dropLast,
        i.isWhole cp932 pairTable clippedPairs = true) ∧
      (run cp932 Opcodes.table clippedPairs).offset ≤ clippedPairs.size := by
  have hoffset : (run cp932 pairTable clippedPairs).offset = 10 := by
    rw [run_clippedPairs]
  obtain ⟨hiff, -, hbefore, -⟩ := run_within_iff_whole pairTable_forward cp932 clippedPairs
  obtain ⟨-, -, -, hguarded⟩ :=
    run_within_iff_whole Opcodes.table_forward cp932 clippedPairs
  refine ⟨pairTable_forward, hoffset, ?_, hbefore, hguarded Opcodes.table_guarded⟩
  rw [← hiff, hoffset]
  decide

/-- A byte slice at the end of an image is cut short, and the place behind it is outside. -/
theorem run_outside_clipped :
    ForwardTable pairTable ∧
      ¬ (run cp932 pairTable clippedPairs).offset ≤ clippedPairs.size ∧
      ∃ i ∈ (run cp932 pairTable clippedPairs).instructions,
        i.isWhole cp932 pairTable clippedPairs = false := by
  have hcut : Instruction.isWhole cp932 pairTable clippedPairs
      ⟨[1], 4, 1, [.str "u8:2", .str "bytes:09", .str "bytes:"]⟩ = false := by decide +kernel
  rw [run_clippedPairs]
  exact ⟨pairTable_forward, by decide, _, List.mem_cons_of_mem _ List.mem_cons_self, hcut⟩

end Disassembly
end SceneText
