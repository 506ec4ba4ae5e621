import SceneText.Proofs.Charts
import SceneText.Proofs.Cutting
import SceneText.Proofs.Translation

/-!
# What operands an instruction has

The fields under a signature say how many operands an instruction has and of which kind each is. One
field may take its number from an operand read before. In a choice this is the byte that counts the
texts on offer, and it still counts them after messages have been put in their place and the entry
has been stored: so many stretches stand behind it, each ended by a zero byte and without one
inside.
-/

namespace SceneText

open List Operand Width Instruction Disassembly Origin

variable {page : CodePage} {table : FlatTable} {image : Image} {i : Instruction}

namespace FieldSpec

def Gives : FieldSpec → Json → Prop
  | .int w, v => ∃ n, w.fits n = true ∧ v = .str (write (.int w n))
  | .text, v => ∃ s, v = .str s
  | .given [.whole length] .slice, v =>
    ∃ data : List UInt8, (data.length : Int) = length ∧ v = .str (write (.bytes data))
  | _, _ => False

inductive Prescribed : List Json → List FieldSpec → List Json → Prop
  | nil (before : List Json) : Prescribed before [] []
  | single {before more : List Json} {spec : FieldSpec} {rest : List FieldSpec} {v : Json}
      (here : spec.Gives v) (there : Prescribed (before ++ [v]) rest more) :
      Prescribed before (spec :: rest) (v :: more)
  | times {before items more : List Json} {count : Int} {spec : FieldSpec} {rest : List FieldSpec}
      (here : ∀ v ∈ items, spec.Gives v) (stated : items.length = count.toNat)
      (there : Prescribed (before ++ items) rest more) :
      Prescribed before (.times count spec :: rest) (items ++ more)
  | timesBy {before items more : List Json} {index : Int} {spec : FieldSpec}
      {rest : List FieldSpec} (here : ∀ v ∈ items, spec.Gives v)
      (told : readCount before (.whole index) = .ok items.length)
      (there : Prescribed (before ++ items) rest more) :
      Prescribed before (.timesBy index spec :: rest) (items ++ more)

theorem gives_of_read {r : Origin} (hs : r.field.isScalar = true) (hr : r.Read page)
    (hw : r.Whole) : r.field.Gives r.operand := by
  obtain ⟨field, operand, bytes⟩ := r
  dsimp only at hs
  unfold isScalar at hs
  split at hs
  · obtain ⟨n, hop, hfits, -⟩ := hr
    exact ⟨n, hfits, hop⟩
  · obtain ⟨s, -, hop, -⟩ := hr
    exact ⟨s, hop⟩
  · exact ⟨bytes, (hw _ rfl).symm, hr⟩
  · cases hs

theorem Fits.prescribed {specs : List FieldSpec} {before : List Json} {rs : List Origin}
    (hs : ∀ spec ∈ specs, spec.isPlain = true) (h : Fits before specs rs)
    (hr : ∀ r ∈ rs, r.Read page) (hw : ∀ r ∈ rs, r.Whole) :
    Prescribed before specs (rs.map operand) := by
  induction specs generalizing before rs with
  | nil =>
    rw [show rs = [] from h]
    exact .nil before
  | cons spec rest ih =>
    obtain ⟨front, back, rfl, htakes, hback⟩ := h
    rw [forall_mem_append] at hr hw
    have hrest := ih (fun s hmem => hs s (by simp [hmem])) hback hr.2 hw.2
    have hitems : ∀ inner : FieldSpec, inner.isScalar = true →
        (∀ f ∈ front.map field, f = inner) →
        ∀ v ∈ front.map operand, inner.Gives v := by
      intro inner hscalar hall v hv
      obtain ⟨r, hmem, rfl⟩ := mem_map.mp hv
      obtain rfl := hall _ (mem_map_of_mem hmem)
      exact gives_of_read hscalar (hr.1 r hmem) (hw.1 r hmem)
    rw [map_append]
    rcases isPlain_cases (hs spec (by simp)) with hscalar | ⟨c, inner, rfl, hscalar⟩ |
      ⟨k, inner, rfl, hscalar⟩
    · have hone : front.map field = [spec] := by
        cases spec with
        | repeated | repeatedBy => cases hscalar
        | _ => exact htakes
      obtain ⟨r, rfl, -⟩ := map_eq_singleton_iff.mp hone
      exact .single (hitems spec hscalar (by simp [hone]) _ (by simp)) hrest
    · refine .times (hitems inner hscalar htakes.2) ?_ hrest
      rw [length_map, ← length_map field]
      exact (Except.ok.inj htakes.1).symm
    · refine .timesBy (hitems inner hscalar htakes.2) ?_ hrest
      rw [length_map, ← length_map field]
      exact htakes.1

theorem countOf_int {w : Width} {n : Int} (h : w.fits n = true) :
    countOf (.str (write (.int w n))) = .ok n := by
  rw [countOf, write]
  simp only [splitFirst_spelled, read_numeral h]

end FieldSpec

open FieldSpec (Prescribed)

theorem Disassembly.run_prescribed (hr : RegularTable table) (ht : ForwardTable table)
    (hguarded : ∀ entry ∈ table, FieldSpec.slicesGuarded entry.2 = true)
    (hi : i ∈ (run page table image).instructions) :
    ∃ specs, (.bytes i.signature, specs) ∈ table ∧ Prescribed [] specs i.operands := by
  obtain ⟨hcut, -⟩ := run_cut ht page image
  obtain ⟨n, hn, hlongest⟩ := hcut.longest i hi
  obtain ⟨⟨key, specs⟩, hentry, rfl⟩ := mem_map.mp hlongest.key
  have hplain := hr.plain _ hentry
  have hreading : i.reading page table image =
      readFields page image [] (n + i.signature.length : Nat) specs := by
    rw [reading, ht.fieldsOf_mem hentry, hn, Int.natCast_add]
  have hread : (i.reading page table image).halt = none := by
    have hstop := @readFields_ne_stopped page image specs hplain [] (n + i.signature.length : Nat)
    rw [← hreading] at hstop
    cases hhalt : (i.reading page table image).halt with
    | none => rfl
    | some halt =>
      cases halt with
      | stopped => exact absurd hhalt hstop
      | failed fault => exact absurd hhalt (hcut.readable i hi fault)
  have hend : (i.reading page table image).offset ≤ image.size :=
    (hcut.end_le_iff ht hi).mpr
      ((hcut.offset_le_iff ht).mp (run_within ht hguarded page image) i hi)
  have hoperands := hcut.operands_eq i hi
  rw [hreading] at hread hend hoperands
  obtain ⟨more, hmore, ⟨⟨m, -, -, htraced⟩, hwhole⟩, hfits⟩ :=
    readFields_spec specs hplain [] _ hread
  refine ⟨specs, hentry, ?_⟩
  rw [hoperands, hmore, nil_append, ← htraced.operands_eq]
  exact hfits.prescribed hplain htraced.read (hwhole hend)

theorem exists_map_eq {α β : Type} {f : β → α} {P : β → Prop} {xs : List α}
    (h : ∀ x ∈ xs, ∃ y, x = f y ∧ P y) : ∃ ys : List β, xs = ys.map f ∧ ∀ y ∈ ys, P y := by
  induction xs with
  | nil => exact ⟨[], rfl, by simp⟩
  | cons x rest ih =>
    obtain ⟨y, rfl, hy⟩ := h x (by simp)
    obtain ⟨ys, rfl, hys⟩ := ih fun x hx => h x (by simp [hx])
    exact ⟨y :: ys, rfl, by simpa using ⟨hy, hys⟩⟩

namespace Dialogue

open Opcodes Listing

/-- What a choice holds: two jumps, a byte between them and texts, as many as a byte can count. -/
structure Choice where
  jump : UInt32
  mark : UInt8
  otherwise : UInt32
  texts : List String
  countable : texts.length < 256

namespace Choice

variable (c : Choice)

def header : List Json :=
  [.str (write (.int .u32 c.jump.toNat)), .str (write (.bytes [c.mark])),
    .str (write (.int .u8 c.texts.length)),
    .str (write (.int .u32 c.otherwise.toNat))]

def operands : List Json := c.header ++ c.texts.map .str

def offer (said : List String) (h : said.length = c.texts.length) : Choice :=
  ⟨c.jump, c.mark, c.otherwise, said, h ▸ c.countable⟩

/-- The bytes of a choice behind its signature, with those of its texts given. The byte in front of
the second jump counts the texts. -/
def bytes (options : List (List UInt8)) : List UInt8 :=
  word32 c.jump.toNat ++ [c.mark] ++ [UInt8.ofNat c.texts.length] ++ word32 c.otherwise.toNat ++
    options.flatMap (· ++ [0])

end Choice

theorem prescribed_choice {operands : List Json}
    (h : Prescribed [] [.int .u32, .bytes 1, .int .u8, .int .u32, .timesBy (-2) .text] operands) :
    ∃ c : Choice, operands = c.operands := by
  obtain _ | ⟨⟨a, ha, rfl⟩, h⟩ := h
  obtain _ | ⟨⟨data, hdata, rfl⟩, h⟩ := h
  obtain _ | ⟨⟨n, hn, rfl⟩, h⟩ := h
  obtain _ | ⟨⟨b, hb, rfl⟩, h⟩ := h
  cases h with
  | single here => exact here.elim
  | @timesBy _ items _ _ _ _ here told there =>
    cases there
    have hcount := FieldSpec.countOf_int hn
    obtain ⟨a, rfl, ha'⟩ := nat_of_fits rfl ha
    obtain ⟨n, rfl, hn'⟩ := nat_of_fits rfl hn
    obtain ⟨b, rfl, hb'⟩ := nat_of_fits rfl hb
    obtain ⟨mark, rfl⟩ := length_eq_one_iff.mp (Int.ofNat.inj hdata)
    obtain ⟨texts, rfl, -⟩ := @exists_map_eq _ _ Json.str (fun _ => True) items fun v hv => by
      obtain ⟨s, rfl⟩ := here v hv
      exact ⟨s, rfl, trivial⟩
    obtain rfl : texts.length = n := by
      have hread : FieldSpec.countOf (.str (write (.int .u8 n))) >>=
          (fun m => pure m.toNat) = .ok (texts.map Json.str).length := told
      rw [hcount, length_map] at hread
      exact (Except.ok.inj hread).symm
    refine ⟨⟨UInt32.ofNat a, mark, UInt32.ofNat b, texts, hn'⟩, ?_⟩
    rw [Choice.operands, Choice.header, UInt32.toNat_ofNat_of_lt' ha',
      UInt32.toNat_ofNat_of_lt' hb', append_nil]
    rfl

def Closable (s : String) : Prop := Storable (.str s) ∧ '\x00' ∉ s.toList

def Closed (s : String) (bytes : List UInt8) : Prop :=
  CodePage.cp932.encode s.toList = .ok bytes ∧ 0 ∉ bytes

theorem Closable.closed {s : String} (h : Closable s) : ∃ bytes, Closed s bytes ∧
    storeJson .script .little (.str s) = .ok (bytes ++ [0]) := by
  obtain ⟨⟨_, bytes, heq, hread, henc⟩, hz⟩ := h
  cases heq
  exact ⟨bytes, ⟨henc, CodePage.zero_not_mem_encode hz henc⟩,
    storeJson_text .cp932 .little _ bytes hread henc⟩

theorem Supplied.closable {texts v : Json} {low high : Int} (h : Supplied texts low high v)
    (hm : ∀ k v, low ≤ k → k < high → messageAt texts k = .ok v → ∃ s, v = .str s ∧ Closable s) :
    ∃ s, v = .str s ∧ Closable s := by
  rcases h with rfl | ⟨k, hl, hh, hk⟩
  · exact ⟨"", rfl, ⟨"", [], rfl, read_untagged "" (by decide), rfl⟩, by simp⟩
  · exact hm k v hl hh hk

theorem stored_closed {texts : List String} (h : ∀ s ∈ texts, Closable s) :
    ∃ options, Forall₂ Closed texts options ∧
      Stored .script (texts.map .str) (options.map (· ++ [0])) := by
  induction texts with
  | nil => exact ⟨[], .nil, .nil⟩
  | cons s rest ih =>
    obtain ⟨bytes, hclosed, hstore⟩ := (h s (by simp)).closed
    obtain ⟨options, hoptions, hstored⟩ := ih fun s hs => h s (by simp [hs])
    exact ⟨bytes :: options, .cons hclosed hoptions, .cons hstore hstored⟩

theorem Choice.stored (c : Choice) {i : Instruction} (hi : i.operands = c.operands)
    (h : ∀ s ∈ c.texts, Closable s) :
    ∃ options, Forall₂ Closed c.texts options ∧
      assembleEntry .script .little i.toJson = .ok (i.signature ++ c.bytes options) := by
  obtain ⟨options, hclosed, hstored⟩ := stored_closed h
  have hjump : c.jump.toNat < 2 ^ 32 := c.jump.toNat_lt
  have hother : c.otherwise.toNat < 2 ^ 32 := c.otherwise.toNat_lt
  have hheader : Stored .script c.header [word32 c.jump.toNat, [c.mark],
      [UInt8.ofNat c.texts.length], word32 c.otherwise.toNat] := by
    rw [← encode_u32 _ hjump, ← encode_u8 _ c.countable, ← encode_u32 _ hother]
    exact .cons (storeJson_int _ _ _ _ ((fits_nat rfl).mpr hjump))
      (.cons (storeJson_bytes _ _ _)
      (.cons (storeJson_int _ _ _ _ ((fits_nat rfl).mpr c.countable))
      (.cons (storeJson_int _ _ _ _ ((fits_nat rfl).mpr hother)) .nil)))
  have hall : Stored .script c.operands _ := rel_append hheader hstored
  rw [← hi] at hall
  refine ⟨options, hclosed, ?_⟩
  rw [assembleEntry_toJson i hall]
  simp [Choice.bytes, flatMap_def]

theorem Refilled.choice {texts : Json} {low high : Int} {i i' : Instruction} {c : Choice}
    (h : Refilled texts low high i i') (hsig : i.signature = choiceSignature)
    (hi : i.operands = c.operands)
    (hm : ∀ k v, low ≤ k → k < high → messageAt texts k = .ok v → ∃ s, v = .str s ∧ Closable s) :
    ∃ said, ∃ hsame : said.length = c.texts.length, i'.operands = (c.offer said hsame).operands ∧
      ∀ s ∈ said, Closable s := by
  have hheader : c.header.length = choiceTexts := rfl
  have hlength : i'.operands.length = choiceTexts + c.texts.length := by
    rw [h.length_eq, hi, Choice.operands, length_append, hheader, length_map]
  have hplaces : ∀ k, k ∈ textPlaces i ↔ choiceTexts ≤ k ∧ k < i'.operands.length := by
    intro k
    rw [textPlaces_choice ((i.opcode_eq_iff _).mpr hsig), mem_range'_1, ← h.length_eq]
    omega
  have hfront : i'.operands.take choiceTexts = c.header := by
    apply ext_getElem?
    intro k
    by_cases hk : k < choiceTexts
    · rw [getElem?_take_of_lt hk, h.unchanged k (by rw [hplaces]; omega), hi, Choice.operands,
        getElem?_append_left (by omega)]
    · rw [getElem?_eq_none (by rw [length_take]; omega), getElem?_eq_none (by omega)]
  obtain ⟨said, hsaid, hclosable⟩ : ∃ said : List String,
      i'.operands.drop choiceTexts = said.map .str ∧ ∀ s ∈ said, Closable s := by
    apply exists_map_eq
    intro v hv
    obtain ⟨k, hk⟩ := mem_iff_getElem?.mp hv
    rw [getElem?_drop] at hk
    obtain ⟨w, hw, hsupplied⟩ := h.filled (choiceTexts + k)
      ((hplaces _).mpr ⟨by omega, (List.getElem?_eq_some_iff.mp hk).1⟩)
    obtain rfl := Option.some.inj (hk.symm.trans hw)
    exact hsupplied.closable hm
  have hsame : said.length = c.texts.length := by
    rw [← length_map Json.str, ← hsaid, length_drop]
    omega
  refine ⟨said, hsame, ?_, hclosable⟩
  rw [← take_append_drop choiceTexts i'.operands, hfront, hsaid, Choice.operands, Choice.header,
    ← hsame]
  rfl

/-- Every instruction of a script has the operands that the fields under its signature call for; a
choice has as many texts as the byte before its second jump says. Messages put in their place leave
a choice whose count byte says how many texts follow, each ended by the first zero byte in it. -/
theorem script_prescribed (data : List UInt8) :
    let script := (run .cp932 Opcodes.table data.toArray).instructions
    (∀ i ∈ script, ∃ specs, (.bytes i.signature, specs) ∈ Opcodes.table ∧
      Prescribed [] specs i.operands) ∧
    (∀ i ∈ script, i.signature = choiceSignature → ∃ c : Choice, i.operands = c.operands) ∧
    ∀ texts start next listing,
      replace (.arr (script.map toJson)) texts start = .ok (listing, next) →
      (∀ k v, start ≤ k → k < next → messageAt texts k = .ok v → ∃ s, v = .str s ∧ Closable s) →
      ∃ ys, listing = ys.map toJson ∧ Forall₂ (fun i y => y.signature = i.signature ∧
        (i.signature = choiceSignature → ∃ c : Choice, i.operands = c.operands ∧
          ∃ said, ∃ hsame : said.length = c.texts.length,
            y.operands = (c.offer said hsame).operands ∧
            ∃ options, Forall₂ Closed said options ∧
              assembleEntry .script .little y.toJson =
                .ok (choiceSignature ++ (c.offer said hsame).bytes options)))
          (spoken script) ys := by
  intro script
  have hall : ∀ i ∈ script, ∃ specs, (.bytes i.signature, specs) ∈ Opcodes.table ∧
      Prescribed [] specs i.operands := fun i hi =>
    run_prescribed table_regular table_forward table_guarded hi
  have hchoice : ∀ i ∈ script, i.signature = choiceSignature → ∃ c : Choice,
      i.operands = c.operands := by
    intro i hi hsig
    obtain ⟨specs, hentry, hprescribed⟩ := hall i hi
    rw [show specs = _ from choice_fields _ hentry (by rw [hsig])] at hprescribed
    exact prescribed_choice hprescribed
  refine ⟨hall, hchoice, fun texts start next listing hreplace hmessages => ?_⟩
  obtain ⟨ys, hlisting, hkept⟩ := replace_kept hreplace
  refine ⟨ys, hlisting, ((forall₂_and_left _ _).mpr
    ⟨fun i hi => hchoice i (mem_of_mem_filter hi), hkept.refilled⟩).imp ?_⟩
  rintro i y ⟨hoperands, hrefilled⟩
  refine ⟨hrefilled.signature_eq, fun hsig => ?_⟩
  obtain ⟨c, hc⟩ := hoperands hsig
  obtain ⟨said, hsame, hsaid, hclosable⟩ := hrefilled.choice hsig hc hmessages
  obtain ⟨options, hclosed, hstored⟩ := (c.offer said hsame).stored hsaid hclosable
  rw [hrefilled.signature_eq, hsig] at hstored
  exact ⟨c, hc, said, hsame, hsaid, options, hclosed, hstored⟩

def menuScript : List UInt8 :=
  choiceSignature ++ [7, 0, 0, 0, 1, 2, 9, 0, 0, 0, 0x41, 0, 0x42, 0]

def menu (first second : String) : Instruction :=
  ⟨choiceSignature, 0, 0, [.str "u32:7", .str "bytes:01", .str "u8:2", .str "u32:9", .str first,
    .str second]⟩

theorem run_menuScript : (run .cp932 Opcodes.table menuScript.toArray).instructions =
    [menu "A" "B"] := by cbv

theorem script_prescribed_menu :
    ∃ y : Instruction, replace (.arr ((run .cp932 Opcodes.table
        menuScript.toArray).instructions.map toJson))
        (.arr [.obj [("message", .str "yes")], .obj [("message", .str "no")]]) 0 =
        .ok ([y.toJson], 2) ∧
      ∃ (c : Choice) (options : List (List UInt8)), c.texts.length = 2 ∧ options.length = 2 ∧
        (∀ o ∈ options, 0 ∉ o) ∧ assembleEntry .script .little y.toJson =
          .ok (choiceSignature ++ c.bytes options) := by
  have hreplace : replace (.arr ([menu "A" "B"].map toJson))
      (.arr [.obj [("message", .str "yes")], .obj [("message", .str "no")]]) 0 =
      .ok ([(menu "yes" "no").toJson], 2) := by cbv
  rw [← run_menuScript] at hreplace
  obtain ⟨-, -, hall⟩ := script_prescribed menuScript
  obtain ⟨ys, hlisting, hys⟩ := hall _ 0 2 _ hreplace (fun k v hl hh hk => by
    obtain rfl | rfl : k = 0 ∨ k = 1 := by omega
    · exact ⟨"yes", (Except.ok.inj hk).symm,
        ⟨_, _, rfl, read_untagged _ (by decide), rfl⟩, by decide⟩
    · exact ⟨"no", (Except.ok.inj hk).symm,
        ⟨_, _, rfl, read_untagged _ (by decide), rfl⟩, by decide⟩)
  have hspoken : spoken [menu "A" "B"] = [menu "A" "B"] := by cbv
  rw [run_menuScript, hspoken] at hys
  rw [hlisting] at hreplace
  obtain _ | ⟨⟨-, hchoice⟩, _ | _⟩ := hys
  obtain ⟨c, hc, said, hsame, -, options, hclosed, hstored⟩ := hchoice rfl
  have htexts : c.texts.length = 2 := by
    have hlength := congrArg length hc
    rw [Choice.operands, length_append, length_map] at hlength
    exact (Nat.add_left_cancel hlength).symm
  refine ⟨_, hreplace, c.offer said hsame, options, hsame.trans htexts,
    hclosed.length_eq.symm.trans (hsame.trans htexts), fun o ho => ?_, hstored⟩
  obtain ⟨s, -, hs⟩ := exists_left hclosed ho
  exact hs.2

end Dialogue
end SceneText
