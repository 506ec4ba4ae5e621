import SceneText.Layout.FullWidth
import SceneText.Proofs.Operands
import SceneText.Proofs.Recovery

/-!
# Messages that a script can store

Before messages go back into a script their ASCII letters are widened, and the characters that the
code page lacks are replaced by stand-ins. A colon is widened too and no stand-in is one, so that no
message is taken for a typed operand; and each character that is left has a code. A message is then
stored as the codes of its characters with a zero byte behind them, and with no other zero byte.
-/

namespace SceneText

open List SceneText.Path Json Charset CodePage
open Utf8 (encode)
open Path.Clean (ofText)

variable {α : Type} {c : Char} {s key m : String} {entry : Json} {entries items : List Json}
  {used : List Char} {s₂ : Session} {fields : Fields} {good : α → Prop}
  {result : Except Fault α × Pool} {out output : String}

theorem CodePage.encodeFrom_codes {page : CodePage} {text : List Char} {codes : List (List UInt8)}
    (h : List.Forall₂ (fun c code => page.encodeChar c = some code) text codes) (pos : Nat) :
    page.encodeFrom pos text = .ok codes.flatten := by
  induction h generalizing pos with
  | nil => rfl
  | cons hc _ ih =>
    rw [encodeFrom, hc]
    rw [ih]
    rfl

theorem CodePage.exists_code (h : Charset.cp932.hasText [c] = true) :
    ∃ code, cp932.encodeChar c = some code := by
  rw [Charset.hasText, Bool.or_eq_true] at h
  rcases h with hascii | hhas
  · have hpoint : c.toNat < 128 := by simpa [Text.isAscii] using hascii
    have hsingle : single932? c = some (UInt8.ofNat c.toNat) := if_pos (by omega)
    exact ⟨_, by rw [cp932_encodeChar, hsingle]; rfl⟩
  · have hbytes : (Charset.cp932.bytesFor c).isSome = true := by simpa [Charset.has] using hhas
    rw [Charset.bytesFor, Option.isSome_map] at hbytes
    exact Option.isSome_iff_exists.mp hbytes

namespace Operand

structure StoredAsText (s : String) : Prop where
  isText : read s = .ok (.text s)
  stored : ∃ codes,
    List.Forall₂ (fun c code => cp932.encodeChar c = some code) s.toList codes ∧
      (∀ order, storeJson .script order (.str s) = .ok (codes.flatten ++ [0])) ∧
      (∀ order, storeIn .script order (.plain (.str s)) = .ok (codes.flatten ++ [0])) ∧
      0 ∉ codes.flatten

def Plain (c : Char) : Prop :=
  c ≠ ':' ∧ c ≠ '\x00'

theorem plain_of_beyond (h : 0x80 ≤ c.toNat) : Plain c := by
  constructor <;> rintro rfl <;> exact absurd h (by decide)

def Codable (s : String) : Prop :=
  ∀ c ∈ s.toList, cp932.hasText [c] = true ∧ Plain c

theorem Codable.storedAsText (h : Codable s) : StoredAsText s := by
  have hread : read s = .ok (.text s) := read_of_no_colon fun hc => (h _ hc).2.1 rfl
  have hcodes : List.Forall₂ (fun c code => cp932.encodeChar c = some code) s.toList
      (s.toList.map fun c => (cp932.encodeChar c).getD []) := by
    rw [forall₂_map_right_iff, forall₂_same]
    intro c hc
    obtain ⟨code, hcode⟩ := exists_code (h c hc).1
    rw [hcode, Option.getD_some]
  have hencode := encodeFrom_codes hcodes 0
  refine ⟨hread, _, hcodes, fun order => ?_, fun order => ?_, ?_⟩
  · exact storeJson_text _ order s _ hread hencode
  · exact storeIn_text _ order s _ hread hencode
  · intro hzero
    rw [← flatMap_def, mem_flatMap] at hzero
    obtain ⟨c, hc, hmem⟩ := hzero
    obtain ⟨code, hcode⟩ := exists_code (h c hc).1
    rw [hcode, Option.getD_some] at hmem
    exact zero_not_mem_code hcode (h c hc).2.2 hmem

end Operand

namespace Layout

open Operand

theorem plain_wideChar (h : c ≠ '\x00') : Plain (wideChar c) := by
  unfold wideChar
  by_cases hblank : c.toNat = 32
  · rw [if_pos hblank]
    exact plain_of_beyond (by decide)
  by_cases hprint : 33 ≤ c.toNat ∧ c.toNat ≤ 126
  · rw [if_neg hblank, if_pos hprint]
    have hpoint : (Char.ofNat (c.toNat + 65248)).toNat = c.toNat + 65248 :=
      Pool.toNat_ofNat (.inr ⟨by omega, by omega⟩)
    exact plain_of_beyond (by omega)
  · rw [if_neg hblank, if_neg hprint]
    refine ⟨?_, h⟩
    rintro rfl
    exact hprint (by decide)

def widened (s : String) : String :=
  String.ofList (widen s.toList)

theorem plain_widened (h : '\x00' ∉ s.toList) : ∀ c ∈ (widened s).toList, Plain c := by
  intro c hc
  rw [widened, String.toList_ofList, widen, mem_map] at hc
  obtain ⟨d, hd, rfl⟩ := hc
  exact plain_wideChar fun hnull => h (hnull ▸ hd)

theorem widenValue_str (s : String) : widenValue (.str s) = .ok (.str (widened s)) := by
  by_cases hempty : s = ""
  · subst hempty
    rfl
  · have htruthy : (str s).truthy = true := by simp [truthy, hempty]
    rw [widenValue, htruthy]
    rfl

theorem widenField_text (h : fields.lookup key = some (.str s)) :
    widenField key (.obj fields) = .ok (Pool.reword widened key (.obj fields)) := by
  have hhas : has (.obj fields) key = .ok true := by
    rw [has_obj, h]
    rfl
  have hfield : field (.obj fields) key = .ok (.str s) := by rw [field, h]
  rw [widenField, hhas, hfield, Pool.reword_text widened h]
  dsimp only [bind, Except.bind, if_true]
  rw [widenValue_str]
  rfl

end Layout

namespace Pool

open Operand

variable {cs : Charset} {stock : List Char} {pool : Pool} {P : Char → Prop} {bad : Fault → Prop}

structure Stocked (cs : Charset) (stock : List Char) (pool : Pool) : Prop where
  charset : pool.charset = cs
  free : ∀ t ∈ pool.free, ∃ c ∈ stock, t = String.singleton c
  given : ∀ p ∈ pool.assigned, ∃ c ∈ stock, p.2 = String.singleton c

theorem stocked_fresh (cs : Charset) (stock : List Char) :
    Stocked cs stock (after cs stock []) where
  charset := rfl
  free := by
    intro t ht
    obtain ⟨c, hc, rfl⟩ := mem_map.mp ht
    exact ⟨c, hc, rfl⟩
  given := by simp [after]

def Scarce (fault : Fault) : Prop :=
  ∃ c, fault = .refused (.poolExhausted c)

def Ends (cs : Charset) (stock : List Char) {α : Type} (good : α → Prop) (bad : Fault → Prop) :
    Except Fault α × Pool → Prop
  | (.ok v, pool) => Stocked cs stock pool ∧ good v
  | (.error fault, _) => bad fault

theorem Ends.mono {good' : α → Prop} {bad' : Fault → Prop} (h : Ends cs stock good bad result)
    (hgood : ∀ v, good v → good' v) (hbad : ∀ fault, bad fault → bad' fault) :
    Ends cs stock good' bad' result := by
  obtain ⟨fault | v, pool⟩ := result
  · exact hbad fault h
  · exact ⟨h.1, hgood v h.2⟩

theorem Ends.andThen {β : Type} {good' : β → Prop} {next : α → Pool → Except Fault β × Pool}
    (h : Ends cs stock good bad result)
    (hnext : ∀ v pool, Stocked cs stock pool → good v → Ends cs stock good' bad (next v pool)) :
    Ends cs stock good' bad (Pool.andThen result next) := by
  obtain ⟨fault | v, pool⟩ := result
  · exact h
  · exact hnext v pool h.1 h.2

theorem Stocked.get (h : Stocked cs stock pool) (char : Json) :
    Ends cs stock (fun t => ∃ r ∈ stock, t = String.singleton r) Scarce (pool.get char) := by
  unfold Pool.get
  cases hknown : pool.standIn? char with
  | some t =>
    obtain ⟨p, hp, rfl⟩ := Option.map_eq_some_iff.mp hknown
    exact ⟨h, h.given p (mem_of_find?_eq_some hp)⟩
  | none =>
    cases hfree : pool.free with
    | nil => exact ⟨_, rfl⟩
    | cons t free =>
      have hstock := h.free
      rw [hfree, forall_mem_cons] at hstock
      exact ⟨⟨h.charset, hstock.2,
        forall_mem_append.mpr ⟨h.given, forall_mem_singleton.mpr hstock.1⟩⟩, hstock.1⟩

def Renders (cs : Charset) (stock : List Char) (unit : Json) (t : String) : Prop :=
  (unit = .str t ∧ cs.hasText t.toList = true) ∨ ∃ r ∈ stock, t = String.singleton r

theorem Stocked.mapUnit (h : Stocked cs stock pool) (unit : Json) :
    Ends cs stock (Renders cs stock unit) (fun fault => (∃ s, unit = .str s) → Scarce fault)
      (pool.mapUnit unit) := by
  cases unit with
  | str s =>
    rw [Pool.mapUnit, h.charset]
    by_cases hhas : cs.hasText s.toList = true
    · rw [if_pos hhas]
      exact ⟨h, .inl ⟨rfl, hhas⟩⟩
    · rw [if_neg hhas]
      exact (h.get (.str s)).mono (fun t ht => .inr ht) fun fault hscarce _ => hscarce
  | _ =>
    rintro ⟨s, hs⟩
    cases hs

theorem Stocked.mapUnits (h : Stocked cs stock pool) (units : List Json) :
    Ends cs stock (fun texts => ∀ t ∈ texts, ∃ unit ∈ units, Renders cs stock unit t)
      (fun fault => (∀ unit ∈ units, ∃ s, unit = .str s) → Scarce fault) (pool.mapUnits units) := by
  induction units generalizing pool with
  | nil => exact ⟨h, by simp⟩
  | cons unit units ih =>
    have hunit := (h.mapUnit unit).mono (fun t ht => ht) fun fault hscarce
      (htexts : ∀ u ∈ unit :: units, ∃ s, u = .str s) => hscarce (htexts unit mem_cons_self)
    rw [mapUnits_cons]
    refine hunit.andThen fun t pool hstocked hrenders => ?_
    have hrest := (ih hstocked).mono (fun texts htexts => htexts) fun fault hscarce
      (htexts : ∀ u ∈ unit :: units, ∃ s, u = .str s) =>
        hscarce fun u hu => htexts u (mem_cons_of_mem _ hu)
    refine hrest.andThen fun texts pool hstocked htexts => ⟨hstocked, ?_⟩
    refine forall_mem_cons.mpr ⟨⟨unit, mem_cons_self, hrenders⟩, fun t ht => ?_⟩
    obtain ⟨u, hu, hrender⟩ := htexts t ht
    exact ⟨u, mem_cons_of_mem _ hu, hrender⟩

def Walked (v : Json) : Prop :=
  ∃ texts : List String, v.elements = .ok (texts.map .str)

theorem Stocked.mapText (h : Stocked cs stock pool) (v : Json) :
    Ends cs stock (fun s => ∃ units texts, v.elements = .ok units ∧ s = String.join texts ∧
        ∀ t ∈ texts, ∃ unit ∈ units, Renders cs stock unit t)
      (fun fault => Walked v → Scarce fault) (pool.mapText v) := by
  unfold Pool.mapText
  cases hunits : v.elements with
  | error fault =>
    rintro ⟨texts, htexts⟩
    rw [hunits] at htexts
    cases htexts
  | ok units =>
    have hmapped := h.mapUnits units
    dsimp only
    generalize pool.mapUnits units = result at hmapped ⊢
    obtain ⟨fault | texts, pool'⟩ := result
    · rintro ⟨texts, htexts⟩
      rw [hunits, Except.ok.injEq] at htexts
      refine hmapped fun unit hunit => ?_
      rw [htexts] at hunit
      obtain ⟨s, -, rfl⟩ := mem_map.mp hunit
      exact ⟨s, rfl⟩
    · exact ⟨hmapped.1, units, texts, rfl, rfl, hmapped.2⟩

theorem walked_str (s : String) : Walked (.str s) := by
  refine ⟨s.toList.map String.singleton, ?_⟩
  rw [elements, charTexts, map_map]
  rfl

theorem Stocked.mapText_chars (h : Stocked cs stock pool)
    (hstock : ∀ c ∈ stock, cs.has c = true ∧ P c) (hs : ∀ c ∈ s.toList, P c) :
    Ends cs stock (fun t => ∀ c ∈ t.toList, cs.hasText [c] = true ∧ P c) Scarce
      (pool.mapText (.str s)) := by
  refine (h.mapText (.str s)).mono ?_ fun fault hscarce => hscarce (walked_str s)
  rintro _ ⟨units, texts, helements, rfl, hrenders⟩ c hc
  rw [String.toList_join, mem_flatMap] at hc
  obtain ⟨t, ht, hc⟩ := hc
  obtain ⟨unit, hunit, hrender⟩ := hrenders t ht
  cases helements
  rcases hrender with ⟨rfl, hhas⟩ | ⟨r, hr, rfl⟩
  · obtain ⟨d, hd, heq⟩ := mem_map.mp hunit
    cases heq
    rw [String.toList_singleton] at hc hhas
    rw [mem_singleton.mp hc]
    exact ⟨hhas, hs d hd⟩
  · rw [String.toList_singleton, mem_singleton] at hc
    rw [hc]
    exact ⟨by simp [hasText, (hstock r hr).1], (hstock r hr).2⟩

structure Fitted (cs : Charset) (P : Char → Prop) (entry entry' : Json) : Prop where
  regular : entry.Regular → entry'.Regular
  depth : entry'.depth ≤ entry.depth
  message : ∃ m, speech "message" entry' = some m ∧ ∀ c ∈ m.toList, cs.hasText [c] = true ∧ P c

/-- An entry whose name, if it has one that counts, is walked over text by text. -/
def Named (entry : Json) : Prop :=
  ∀ name, entryName entry = .ok (some name) → Walked name

theorem speech_text (h : speech key entry = some m) :
    ∃ fields, entry = .obj fields ∧ fields.lookup key = some (.str m) := by
  cases entry with
  | obj fields =>
    refine ⟨fields, rfl, ?_⟩
    rw [speech] at h
    split at h
    · next s hs => rw [hs, Option.some.inj h]
    · cases h
  | _ => cases h

theorem Named.reword (h : Named entry) (f : String → String) :
    Named (reword f "message" entry) := by
  cases entry with
  | obj fields =>
    cases hmessage : speech "message" (.obj fields) with
    | none =>
      have hsame : Pool.reword f "message" (.obj fields) = .obj fields := by
        simp [Pool.reword, hmessage]
      rwa [hsame]
    | some m =>
      obtain ⟨_, heq, hlookup⟩ := speech_text hmessage
      cases heq
      intro name hname
      rw [reword_text f hlookup, entryName_obj, lookup_setField, if_neg (by decide),
        ← entryName_obj] at hname
      exact h name hname
  | _ => exact h

section

variable (h : Stocked cs stock pool) (hstock : ∀ c ∈ stock, cs.has c = true ∧ P c)
include h hstock

theorem Stocked.mapMessage (hmessage : fields.lookup "message" = some (.str m))
    (hm : ∀ c ∈ m.toList, P c) :
    Ends cs stock (Fitted cs P (.obj fields)) Scarce (pool.mapMessage (.obj fields)) := by
  have hfield : field (.obj fields) "message" = .ok (.str m) := by rw [field, hmessage]
  have htext := h.mapText_chars hstock hm
  rw [Pool.mapMessage, hfield]
  dsimp only
  generalize pool.mapText (.str m) = result at htext ⊢
  obtain ⟨fault | t, pool'⟩ := result
  · exact htext
  · refine ⟨htext.1, regular_setField "message" trivial, ?_, t, ?_, htext.2⟩
    · exact depth_setText "message"
    · simp [speech, lookup_setField]

theorem Stocked.mapEntry (hmessage : speech "message" entry = some m) (hm : ∀ c ∈ m.toList, P c) :
    Ends cs stock (Fitted cs P entry) (fun fault => Named entry → Scarce fault)
      (pool.mapEntry entry) := by
  obtain ⟨fields, rfl, hlookup⟩ := speech_text hmessage
  cases hname : (fields.lookup "name").bind fun v => if v.truthy then some v else none with
  | none =>
    rw [mapEntry_unnamed ((entryName_obj fields).trans (congrArg _ hname))]
    exact (h.mapMessage hstock hlookup hm).mono (fun _ hfit => hfit) fun _ hscarce _ => hscarce
  | some name =>
    have hentry := (entryName_obj fields).trans (congrArg _ hname)
    rw [mapEntry_named hentry]
    have hfirst : Ends cs stock (fun _ => True) (fun fault => Named (.obj fields) → Scarce fault)
        (pool.mapText name) :=
      (h.mapText name).mono (fun _ _ => trivial)
        fun _ hscarce hnamed => hscarce (hnamed name hentry)
    apply hfirst.andThen
    intro s pool' hstocked _
    have hlookup' : (setField "name" (.str s) fields).lookup "message" = some (.str m) := by
      rw [lookup_setField, if_neg (by decide), hlookup]
    refine (hstocked.mapMessage hstock hlookup' hm).mono (fun entry' hfit => ?_)
      fun _ hscarce _ => hscarce
    constructor
    · exact fun hregular => hfit.regular (regular_setField "name" trivial hregular)
    · exact Nat.le_trans hfit.depth (depth_setText "name")
    · exact hfit.message

theorem Stocked.mapEntries
    (hmessages : ∀ entry ∈ entries, ∃ m, speech "message" entry = some m ∧ ∀ c ∈ m.toList, P c) :
    Ends cs stock (List.Forall₂ (Fitted cs P) entries)
      (fun fault => (∀ entry ∈ entries, Named entry) → Scarce fault) (pool.mapEntries entries) := by
  induction entries generalizing pool with
  | nil => exact ⟨h, .nil⟩
  | cons entry entries ih =>
    rw [forall_mem_cons] at hmessages
    obtain ⟨⟨m, hmessage, hm⟩, hrest⟩ := hmessages
    rw [mapEntries_cons]
    apply Ends.andThen
    · exact (h.mapEntry hstock hmessage hm).mono (fun _ hfit => hfit) fun _ hscarce hnamed =>
        hscarce (hnamed entry (by simp))
    · intro entry' pool' hstocked hfit
      apply Ends.andThen
      · exact (ih hstocked hrest).mono (fun _ hfits => hfits) fun _ hscarce hnamed =>
          hscarce fun e he => hnamed e (by simp [he])
      · exact fun more pool'' hstocked' hfits => ⟨hstocked', .cons hfit hfits⟩

end

theorem mapM_widenField (h : ∀ item ∈ items, ∃ m, speech key item = some m) :
    items.mapM (Layout.widenField key) = .ok (items.map (reword Layout.widened key)) := by
  apply Fault.mapM_ok
  intro item hitem
  obtain ⟨m, hm⟩ := h item hitem
  obtain ⟨fields, rfl, hlookup⟩ := speech_text hm
  exact Layout.widenField_text hlookup

theorem plain_messages
    (h : ∀ item ∈ items, ∃ m, speech "message" item = some m ∧ '\x00' ∉ m.toList) :
    ∀ entry ∈ items.map (reword Layout.widened "message"),
      ∃ m, speech "message" entry = some m ∧ ∀ c ∈ m.toList, Plain c := by
  intro entry hentry
  obtain ⟨item, hitem, rfl⟩ := mem_map.mp hentry
  obtain ⟨m, hmessage, hnull⟩ := h item hitem
  exact ⟨Layout.widened m, by rw [speech_reword, hmessage, Option.map_some],
    Layout.plain_widened hnull⟩

theorem charactersIn_walked {v : Json} (h : Walked v) : ∃ chars, charactersIn v = .ok chars := by
  obtain ⟨texts, htexts⟩ := h
  unfold charactersIn
  rw [htexts]
  dsimp only [bind, Except.bind]
  rw [mapM_map, Fault.mapM_ok (asKey ∘ str) str texts fun _ _ => rfl]
  exact ⟨_, rfl⟩

theorem charactersOfEntry_named (hmessage : speech "message" entry = some m)
    (hnamed : Named entry) :
    ∃ chars, charactersOfEntry entry = .ok chars := by
  obtain ⟨fields, rfl, hlookup⟩ := speech_text hmessage
  have hfield : field (.obj fields) "message" = .ok (.str m) := by rw [field, hlookup]
  unfold charactersOfEntry
  rw [hfield]
  cases hname : entryName (.obj fields) with
  | error fault =>
    rw [entryName_obj] at hname
    cases hname
  | ok name =>
    dsimp only [bind, Except.bind]
    rw [charactersIn_str]
    cases name with
    | none => exact ⟨_, rfl⟩
    | some v =>
      obtain ⟨chars, hchars⟩ := charactersIn_walked (hnamed v hname)
      dsimp only
      rw [hchars]
      exact ⟨_, rfl⟩

theorem charactersOfEntries_named
    (hmessages : ∀ entry ∈ entries, ∃ m, speech "message" entry = some m)
    (hnamed : ∀ entry ∈ entries, Named entry) :
    ∃ chars, charactersOfEntries entries = .ok chars := by
  induction entries with
  | nil => exact ⟨[], rfl⟩
  | cons entry entries ih =>
    rw [forall_mem_cons] at hmessages hnamed
    obtain ⟨m, hmessage⟩ := hmessages.1
    obtain ⟨chars, hchars⟩ := charactersOfEntry_named hmessage hnamed.1
    obtain ⟨more, hmore⟩ := ih hmessages.2 hnamed.2
    rw [charactersOfEntries, hchars, hmore]
    exact ⟨_, rfl⟩

theorem plain_unused : ∀ c ∈ unused .cp932 used, cp932.has c = true ∧ Plain c := by
  intro c hc
  obtain ⟨hhas, p, hp, hlow, -⟩ := candidate_range (mem_unused.mp hc).1
  have hranges : ∀ p ∈ cp932.standInRanges, 0x80 ≤ p.1 := by decide
  exact ⟨hhas, plain_of_beyond (Nat.le_trans (hranges p hp) hlow)⟩

end Pool

namespace SubstitutionTool

open Run Pool Operand

/-- A document that is filed in a session, and a place besides it for the pool that is made for it.
-/
structure Filed (s : Session) (path poolPath : String) (items : List Json) where
  home : Location
  bytes : List UInt8
  held : Holds s (Clean.ofText path).toText home bytes
  parsed : documentOf bytes = .ok (.arr items)
  place : Location
  opens : s.tree.Opens s.workDir (Clean.ofText poolPath).toText place
  apart : home ≠ place

namespace Filed

variable {s : Session} {path poolPath : String} {items : List Json} {cs : Charset}

def pooled (filed : Filed s path poolPath items) (cs : Charset) (used : List Char) (out : String) :
    Session :=
  { s with tree := s.tree.store filed.place (file cs (unused cs used)), out := out }

theorem eval_characters (filed : Filed s path poolPath items) :
    eval ([path].mapM fun p => do
      let document ← readJson (Clean.ofText p).toText
      lift (charactersOfEntries (← lift document.elements))) s =
        match charactersOfEntries items with
        | .ok used => (.ok [used], s)
        | .error fault => (.error (.fault fault), s) := by
  have hread : eval (readJson (Clean.ofText path).toText) s = (.ok (.arr items), s) := by
    rw [eval_readJson filed.held.reads, filed.parsed, eval_lift]
  rw [mapM_cons, eval_bind, eval_bind_ok hread, eval_bind, elements, eval_lift]
  dsimp only
  cases charactersOfEntries items <;> rfl

theorem eval_makePool_cases (filed : Filed s path poolPath items) (cs : Charset) :
    (∀ used, charactersOfEntries items = .ok used →
      ∃ out, eval (makePool [path] poolPath cs) s = (.ok (), filed.pooled cs used out)) ∧
    ∀ fault, charactersOfEntries items = .error fault →
      eval (makePool [path] poolPath cs) s = (.error (.fault fault), s) := by
  have hcharacters := filed.eval_characters
  constructor
  · intro used hused
    rw [hused] at hcharacters
    have hmake := eval_makePool_used cs hcharacters filed.opens
    rwa [flatten_singleton] at hmake
  · intro fault hfault
    rw [hfault] at hcharacters
    rw [makePool, eval_bind, hcharacters]

def mapped (path : String) {s₂ : Session} {target : Clean}
    (room : Room s₂ target [(Clean.ofText path).name, "mapping.json"]) (entries : List Json)
    (pool : Pool) (out : String) : Session :=
  room.filled [((Clean.ofText path).name, encode (arr entries).indented.toList),
    ("mapping.json", encode pool.tableJson.indented.toList)] out

theorem eval_map_cases (filed : Filed s path poolPath items)
    (hdir : eval (makeClean (Clean.ofText output)) (filed.pooled cs used out) = (.ok (), s₂))
    (room : Room s₂ (Clean.ofText output) [(Clean.ofText path).name, "mapping.json"]) :
    (∀ entries pool, (after cs (unused cs used) []).mapEntries items = (.ok entries, pool) →
      ∃ out', eval (map [path] output poolPath) (filed.pooled cs used out) =
        (.ok (), mapped path room entries pool out')) ∧
    ∀ fault pool, (after cs (unused cs used) []).mapEntries items = (.error fault, pool) →
      eval (map [path] output poolPath) (filed.pooled cs used out) =
        (.error (.fault fault), s₂) := by
  have hpool := reads_written (s := { s with out := out }) filed.opens (file cs (unused cs used))
  obtain ⟨listed, hload⟩ := eval_load cs (unused_fresh cs used).2.1 hpool
  have hgrown := growing_makeClean (Clean.ofText output) (filed.pooled cs used out)
  rw [hdir] at hgrown
  obtain ⟨hplain, hlocated, hstored⟩ := filed.held.store filed.opens filed.apart
    (file cs (unused cs used))
  have hheld : Holds s₂ (Clean.ofText path).toText filed.home filed.bytes :=
    hgrown.holds ⟨hplain, hlocated, hstored⟩
  have hread : eval (readJson (Clean.ofText path).toText) s₂ = (.ok (.arr items), s₂) := by
    rw [eval_readJson hheld.reads, filed.parsed, eval_lift]
  have hopens := room.opens (Clean.ofText path).name (by simp)
  have hfiles : eval (mapFiles (Clean.ofText output) (after cs (unused cs used) []) [path]) s₂ =
      _ := eval_mapFiles_cons hread hopens
  constructor
  · intro entries pool hmapped
    rw [hmapped] at hfiles
    have hmem : ∀ f ∈ [((Clean.ofText path).name, encode (arr entries).indented.toList)],
          f.1 ∈ [(Clean.ofText path).name, "mapping.json"] := by simp
    exact eval_map_filled hload hdir room hmem (by simp) hfiles
  · intro fault pool hfault
    rw [hfault] at hfiles
    exact eval_map_stuck hload hdir hfiles

theorem holds_mapped (filed : Filed s path poolPath items) {target : Clean}
    (room : Room s₂ target [(Clean.ofText path).name, "mapping.json"])
    (hname : (Clean.ofText path).name ≠ "mapping.json") {P : Char → Prop}
    (hfits : List.Forall₂ (Fitted cs P) items entries) (pool : Pool) (out : String) :
    HoldsDocument (mapped path room entries pool out)
      (target.append (Clean.ofText path).name).toText (.arr entries) := by
  refine ⟨encode (arr entries).indented.toList, ?_, documentOf_items ?_⟩
  · exact room.reads_filled (f := ((Clean.ofText path).name, _)) (by simp) (by simpa using hname)
      out (.head _)
  · intro entry hentry
    obtain ⟨item, hitem, hfit⟩ := exists_left hfits hentry
    obtain ⟨hregular, hdepth⟩ := item_regular filed.parsed item hitem
    exact ⟨hfit.regular hregular, Nat.lt_of_le_of_lt hfit.depth hdepth⟩

end Filed

/-- A document with so many entries, each with a message that is stored as a text. -/
def HoldsMessages (s : Session) (path : String) (count : Nat) : Prop :=
  ∃ entries, eval (readJson path) s = (.ok (.arr entries), s) ∧ entries.length = count ∧
    ∀ entry ∈ entries, ∃ m, speech "message" entry = some m ∧ StoredAsText m

theorem Filed.map_plain {s : Session} {path poolPath : String}
    (filed : Filed s path poolPath items) (hname : (Clean.ofText path).name ≠ "mapping.json")
    (hplain : ∀ item ∈ items, ∃ m, speech "message" item = some m ∧ ∀ c ∈ m.toList, Plain c)
    (hdir : eval (makeClean (Clean.ofText output)) (filed.pooled .cp932 used out) = (.ok (), s₂))
    (room : Room s₂ (Clean.ofText output) [(Clean.ofText path).name, "mapping.json"]) :
    ((∀ item ∈ items, Named item) →
      ∃ s₃, eval (map [path] output poolPath) (filed.pooled .cp932 used out) = (.ok (), s₃) ∨
        ∃ c, eval (map [path] output poolPath) (filed.pooled .cp932 used out) =
          (.error (.fault (.refused (.poolExhausted c))), s₃)) ∧
    ∀ s₃, eval (map [path] output poolPath) (filed.pooled .cp932 used out) = (.ok (), s₃) →
      HoldsMessages s₃ ((Clean.ofText output).append (Clean.ofText path).name).toText
        items.length := by
  obtain ⟨hdone, hstuck⟩ := filed.eval_map_cases hdir room
  have hends := (stocked_fresh .cp932 (unused .cp932 used)).mapEntries plain_unused hplain
  generalize hresult : (after .cp932 (unused .cp932 used) []).mapEntries items = result at hends
  obtain ⟨fault | entries, pool⟩ := result
  · have hrun := hstuck fault pool hresult
    constructor
    · intro hnamed
      obtain ⟨c, rfl⟩ := hends hnamed
      exact ⟨s₂, .inr ⟨c, hrun⟩⟩
    · intro s₃ hok
      cases congrArg Prod.fst (hrun.symm.trans hok)
  · obtain ⟨out', hrun⟩ := hdone entries pool hresult
    constructor
    · exact fun _ => ⟨_, .inl hrun⟩
    · intro s₃ hok
      obtain rfl := congrArg Prod.snd (hrun.symm.trans hok)
      refine ⟨entries, (filed.holds_mapped room hname hends.2 pool out').read,
        hends.2.length_eq.symm, ?_⟩
      intro entry hentry
      obtain ⟨item, -, hfit⟩ := exists_left hends.2 hentry
      obtain ⟨m, hm, hcodable⟩ := hfit.message
      exact ⟨m, hm, Codable.storedAsText hcodable⟩

/-- A document whose messages are free of the null character is widened, a pool is made for it, and
it is mapped with that pool. Its names may be whatever they are; if they are texts, or at least
walked over text by text, the pool is made, and mapping can stop only for want of a stand-in.
Wherever mapping ends well, each message of the document that it leaves is stored as a text, whole
and with one zero byte. -/
theorem map_widened_stored {items : List Json}
    (hmessages : ∀ item ∈ items, ∃ m, speech "message" item = some m ∧ '\x00' ∉ m.toList) :
    ∃ wide, items.mapM (Layout.widenField "message") = .ok wide ∧
      ∀ {s : Session} {path output poolPath : String} (_ : Filed s path poolPath wide),
        (ofText path).name ≠ "mapping.json" →
        ((∀ item ∈ items, Named item) →
          ∃ s₁, eval (makePool [path] poolPath .cp932) s = (.ok (), s₁)) ∧
        ∀ s₁ s₂ (_ : Room s₂ (ofText output)
            [(ofText path).name, "mapping.json"]),
          eval (makePool [path] poolPath .cp932) s = (.ok (), s₁) →
          eval (makeClean (ofText output)) s₁ = (.ok (), s₂) →
          ((∀ item ∈ items, Named item) →
            ∃ s₃, eval (map [path] output poolPath) s₁ = (.ok (), s₃) ∨
              ∃ c, eval (map [path] output poolPath) s₁ =
                (.error (.fault (.refused (.poolExhausted c))), s₃)) ∧
          ∀ s₃, eval (map [path] output poolPath) s₁ = (.ok (), s₃) →
            HoldsMessages s₃ ((ofText output).append
              (ofText path).name).toText items.length := by
  have hwide := mapM_widenField fun item hitem => (hmessages item hitem).imp fun _ h => h.1
  have hplain := plain_messages hmessages
  have hnamed : (∀ item ∈ items, Named item) →
      ∀ entry ∈ items.map (reword Layout.widened "message"), Named entry := by
    intro hnames entry hentry
    obtain ⟨item, hitem, rfl⟩ := List.mem_map.mp hentry
    exact (hnames item hitem).reword Layout.widened
  refine ⟨_, hwide, fun {s path output poolPath} filed hname => ?_⟩
  obtain ⟨hmade, hunmade⟩ := filed.eval_makePool_cases .cp932
  constructor
  · intro hnames
    obtain ⟨used, hused⟩ := charactersOfEntries_named
      (fun entry hentry => (hplain entry hentry).imp fun _ h => h.1) (hnamed hnames)
    obtain ⟨out, hmake⟩ := hmade used hused
    exact ⟨_, hmake⟩
  · intro s₁ s₂ room hmake hdir
    cases hused : charactersOfEntries (items.map (reword Layout.widened "message")) with
    | error fault => cases congrArg Prod.fst ((hunmade fault hused).symm.trans hmake)
    | ok used =>
      obtain ⟨out, hpooled⟩ := hmade used hused
      obtain rfl := congrArg Prod.snd (hpooled.symm.trans hmake)
      have hmap := filed.map_plain hname hplain hdir room
      rw [List.length_map] at hmap
      exact ⟨fun hnames => hmap.1 (hnamed hnames), hmap.2⟩

theorem has_wideColon : cp932.has '：' = true := by
  obtain ⟨piece, pieces, rows, hchart, hpiece⟩ : ∃ piece pieces rows,
      chartRows = (0x81, piece :: pieces) :: rows ∧ '：' ∈ piece.toList :=
    ⟨_, _, _, rfl, by simp⟩
  have hrow : (0x81, piece :: pieces) ∈ chartRows := by simp [hchart]
  obtain ⟨place, hcharted⟩ := charted_of_mem hrow (.head _) hpiece
  exact has_of_charted hcharted (by decide)

def colonItems : List Json :=
  [.obj [("message", .str "：龡")]]

def colonSession : Session where
  tree := ⟨[(["a.json"], .file (encode (arr colonItems).indented.toList) false)]⟩
  workDir := []

def colonFiled : Filed colonSession "a.json" "p.json" colonItems where
  home := ["a.json"]
  bytes := encode (arr colonItems).indented.toList
  held := ⟨by decide, rfl, false, rfl⟩
  parsed := documentOf_indented ⟨⟨by simp, trivial, trivial⟩, trivial⟩ (by decide)
  place := ["p.json"]
  opens := .of_free (by decide) rfl rfl
  apart := by decide

theorem colonItems_spoken : ∀ e ∈ colonItems, Spoken e :=
  forall_mem_singleton.mpr
    (.intro _ "：龡" rfl fun v hv => by cases (show none = some v from hv))

theorem colonItems_chars : colonItems.flatMap spokenChars = ['：', '龡'] := by
  decide

theorem colonItems_widened : [obj [("message", .str ":龡")]].mapM
    (Layout.widenField "message") = .ok colonItems := by
  have hmessage : Layout.widened ":龡" = "：龡" := by decide +kernel
  rfl

theorem colonItems_lasts {stock : List Char} (hstock : stock.Nodup) (hlen : 1 ≤ stock.length) :
    ∃ entries pool, (after .cp932 stock []).mapEntries colonItems = (.ok entries, pool) := by
  have hcolon : cp932.hasText ['：'] = true := by simp [hasText, has_wideColon]
  have hone : (noteAll .cp932 [] (colonItems.flatMap spokenChars)).length = 1 := by
    rw [length_noteAll, colonItems_chars, lacking]
    simp [hcolon, hasText_beyond]
  exact ⟨_, _, (mapEntries_lasts colonItems_spoken hstock (Nat.zero_le _) prefix_rfl).enough
    (by rw [hone]; exact hlen)⟩

theorem map_widened_stored_colon :
    ∃ s₁ s₃, eval (makePool ["a.json"] "p.json" .cp932) colonSession = (.ok (), s₁) ∧
      eval (map ["a.json"] "d" "p.json") s₁ = (.ok (), s₃) ∧ HoldsMessages s₃ "d/a.json" 1 := by
  have hmessages : ∀ item ∈ [Json.obj [("message", .str ":龡")]],
      ∃ m, speech "message" item = some m ∧ '\x00' ∉ m.toList :=
    List.forall_mem_singleton.mpr ⟨":龡", rfl, by decide⟩
  obtain ⟨wide, hwide, hall⟩ := map_widened_stored hmessages
  obtain rfl := Except.ok.inj (colonItems_widened.symm.trans hwide)
  have hname : (ofText "a.json").name = "a.json" := by decide +kernel
  have htext : ((ofText "d").append "a.json").toText = "d/a.json" := by decide +kernel
  have hused := charactersOfEntries_spoken colonItems_spoken
  rw [colonItems_chars] at hused
  obtain ⟨out, hmake⟩ := (colonFiled.eval_makePool_cases .cp932).1 _ hused
  let made : Session := { colonSession with
    tree := FileTree.insert (colonFiled.pooled .cp932 ['：', '龡'] out).tree ["d"] .directory
    out := out }
  have hdir : eval (makeClean (ofText "d")) (colonFiled.pooled .cp932 ['：', '龡'] out) =
      (.ok (), made) := rfl
  let room :
      Room made (ofText "d") [(ofText "a.json").name, "mapping.json"] :=
    .fresh "d" (by rw [hname] : _ = ["a.json", "mapping.json"])
      ⟨⟨by decide, rfl, rfl⟩, by decide, rfl, rfl⟩
  -- The pool is never computed: it has a stand-in, and one is enough.
  obtain ⟨entries, pool, hmapped⟩ := colonItems_lasts (unused_fresh .cp932 ['：', '龡']).1
    (pool_nonempty (by decide))
  obtain ⟨out', hmap⟩ := (colonFiled.eval_map_cases hdir room).1 entries pool hmapped
  have hstored := ((hall colonFiled (by rw [hname]; decide)).2 _ _ room hmake hdir).2 _ hmap
  rw [hname, htext] at hstored
  exact ⟨_, _, hmake, hmap, hstored⟩

end SubstitutionTool
end SceneText
