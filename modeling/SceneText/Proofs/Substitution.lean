import SceneText.Tool.Substitution
import SceneText.Proofs.Charts
import SceneText.Proofs.Files
import SceneText.Proofs.StandIns

/-!
# Substituting characters in documents

A pool that is made for some documents holds characters of the charset, each once, and none that the
documents use. Documents that are mapped with it have only characters of the charset in their names
and messages, and the table written with them restores these; mapping fails only if the pool has
fewer stand-ins than the documents have characters to replace.
-/

namespace SceneText

open List SceneText.Path Charset
open String (singleton)
open Utf8 (encode)
open Path.Clean (ofText)

variable {n : Nat} {c : Char} {loc : Location} {target : Clean} {items : List Json}
  {s s₁ : Session} {path : String}

namespace Pool

variable {cs : Charset} {stock done final chars : List Char} {entry : Json}

theorem standInRanges_apart (cs : Charset) :
    (∀ p ∈ cs.standInRanges, p.2 < 0xd800) ∧
      cs.standInRanges.Pairwise fun p q => p.2 < q.1 ∨ q.2 < p.1 := by
  cases cs <;> decide

theorem nodup_codePoints (cs : Charset) :
    (cs.standInRanges.flatMap fun p => List.range' p.1 (p.2 + 1 - p.1)).Nodup := by
  rw [nodup_flatMap]
  refine ⟨fun p _ => nodup_range', (standInRanges_apart cs).2.imp ?_⟩
  intro p q h n hp hq
  rw [mem_range'_1] at hp hq
  omega

theorem toNat_ofNat (h : n.isValidChar) : (Char.ofNat n).toNat = n := by
  rw [Char.ofNat, dif_pos h]
  rfl

theorem mem_codePoints :
    n ∈ (cs.standInRanges.flatMap fun p => List.range' p.1 (p.2 + 1 - p.1)).mergeSort
        (fun a b => b ≤ a) ↔ ∃ p ∈ cs.standInRanges, p.1 ≤ n ∧ n ≤ p.2 := by
  rw [(mergeSort_perm _ _).mem_iff, mem_flatMap]
  refine exists_congr fun p => and_congr_right fun _ => ?_
  rw [mem_range'_1]
  omega

theorem codePoint_lt (h : ∃ p ∈ cs.standInRanges, p.1 ≤ n ∧ n ≤ p.2) : n < 0xd800 := by
  obtain ⟨p, hp, hn⟩ := h
  have hhigh := (standInRanges_apart cs).1 p hp
  omega

theorem nodup_candidates (cs : Charset) : (candidates cs).Nodup := by
  refine List.Nodup.filter _ (List.Nodup.map_on ?_ ?_)
  · intro n hn m hm heq
    rw [← toNat_ofNat (.inl (codePoint_lt (mem_codePoints.mp hn))), heq,
      toNat_ofNat (.inl (codePoint_lt (mem_codePoints.mp hm)))]
  · exact ((mergeSort_perm _ _).nodup_iff).mpr (nodup_codePoints cs)

theorem mem_candidates (h : ∃ p ∈ cs.standInRanges, p.1 ≤ c.toNat ∧ c.toNat ≤ p.2)
    (hhas : cs.has c = true) : c ∈ candidates cs :=
  mem_filter.mpr ⟨mem_map.mpr ⟨c.toNat, mem_codePoints.mpr h, Char.ofNat_toNat c⟩, hhas⟩

theorem candidate_range (h : c ∈ candidates cs) :
    cs.has c = true ∧ ∃ p ∈ cs.standInRanges, p.1 ≤ c.toNat ∧ c.toNat ≤ p.2 := by
  obtain ⟨hmem, hhas⟩ := mem_filter.mp h
  obtain ⟨n, hn, rfl⟩ := mem_map.mp hmem
  have hrange := mem_codePoints.mp hn
  rw [toNat_ofNat (.inl (codePoint_lt hrange))]
  exact ⟨hhas, hrange⟩

theorem mem_unused {used : List Char} : c ∈ unused cs used ↔ c ∈ candidates cs ∧ c ∉ used := by
  have hseen : (∀ d ∈ used, ¬d.toNat = c.toNat) ↔ c ∉ used :=
    ⟨fun h hc => h c hc rfl, fun h d hd heq => h (Char.toNat_inj.mp heq ▸ hd)⟩
  simp [unused, ← hseen]

theorem unused_fresh (cs : Charset) (used : List Char) :
    (unused cs used).Nodup ∧ (∀ c ∈ unused cs used, cs.has c = true) ∧
      ∀ c ∈ used, c ∉ unused cs used := by
  refine ⟨(nodup_candidates cs).filter _, fun c hc => ?_, fun c hc hmem => ?_⟩
  · exact (mem_filter.mp (mem_unused.mp hc).1).2
  · exact (mem_unused.mp hmem).2 hc

theorem charactersIn_str (s : String) : charactersIn (.str s) = .ok s.toList := by
  unfold charactersIn
  rw [Json.elements, Json.charTexts]
  dsimp only [bind, Except.bind]
  rw [mapM_map, Fault.mapM_ok _ (fun c => .str (singleton c))]
  · simp [filterMap_map, pure, Except.pure]
  · exact fun c _ => rfl

theorem charactersOfEntry_spoken (h : Spoken entry) :
    charactersOfEntry entry = .ok (spokenChars entry) := by
  obtain ⟨fields, message, hmessage, hname⟩ := h
  have hfield : Json.field (.obj fields) "message" = .ok (.str message) := by
    rw [Json.field, hmessage]
  have hspoken : speech "message" (.obj fields) = some message := by rw [speech, hmessage]
  unfold charactersOfEntry
  rw [entryName_obj, hfield]
  cases hlookup : fields.lookup "name" with
  | none =>
    have hunnamed : speech "name" (.obj fields) = none := by rw [speech, hlookup]
    rw [spokenChars, hspoken, hunnamed]
    dsimp only [bind, Except.bind, Option.bind]
    rw [charactersIn_str]
    rfl
  | some v =>
    obtain ⟨name, rfl⟩ := hname v hlookup
    have hnamed : speech "name" (.obj fields) = some name := by rw [speech, hlookup]
    rw [spokenChars, hspoken, hnamed]
    by_cases hempty : name = ""
    · subst hempty
      dsimp only [bind, Except.bind, Option.bind]
      rw [charactersIn_str]
      rfl
    · have htruthy : (Json.str name).truthy = true := by simp [Json.truthy, hempty]
      dsimp only [bind, Except.bind, Option.bind]
      rw [if_pos htruthy]
      dsimp only
      rw [charactersIn_str, charactersIn_str]
      rfl

theorem charactersOfEntries_spoken {entries : List Json} (h : ∀ e ∈ entries, Spoken e) :
    charactersOfEntries entries = .ok (entries.flatMap spokenChars) := by
  induction entries with
  | nil => rfl
  | cons e entries ih =>
    rw [charactersOfEntries, charactersOfEntry_spoken (h e (by simp)),
      ih fun e he => h e (by simp [he])]
    rfl

def file (cs : Charset) (chars : List Char) : List UInt8 :=
  encode (document cs chars).indented.toList

theorem documentOf_file (cs : Charset) (chars : List Char) :
    Run.documentOf (file cs chars) = .ok (document cs chars) := by
  have htexts :
      ∀ x ∈ chars.map fun c => Json.str (singleton c), x.Regular ∧ x.depth ≤ 0 := by
    intro x hx
    obtain ⟨c, -, rfl⟩ := mem_map.mp hx
    exact ⟨trivial, Nat.le_refl 0⟩
  refine Run.documentOf_indented ?_ ?_
  · exact ⟨by simp, trivial, Json.regularItems_iff.mpr fun x hx => (htexts x hx).1, trivial⟩
  · have hitems := Nat.le_zero.mp (Json.depthItems_le_iff.mpr fun x hx => (htexts x hx).2)
    simp only [document, Json.depth, Json.depthFields, hitems]
    decide

theorem ofName?_name (cs : Charset) : ofName? cs.name = some cs := by
  cases cs <;> decide +kernel

theorem ofTexts_chars (cs : Charset) (h : ∀ c ∈ chars, cs.has c = true) :
    ofTexts cs (chars.map fun c => .str (singleton c)) = .ok (after cs chars []) := by
  unfold ofTexts
  rw [mapM_map, Fault.mapM_ok _ (fun c => (singleton c, true))]
  · simp [bind, Except.bind, pure, Except.pure, after, Function.comp_def]
  · intro c hc
    have htext : cs.hasText (singleton c).toList = true := by simp [hasText, h c hc]
    simp only [Function.comp_apply, htext]

theorem ofJson_document (cs : Charset) (h : ∀ c ∈ chars, cs.has c = true) :
    ofJson (document cs chars) = .ok (after cs chars []) := by
  have hname : (document cs chars).field "encoding" = .ok (.str cs.name) := rfl
  have hpool : (document cs chars).field "pool" =
      .ok (.arr (chars.map fun c => .str (singleton c))) := rfl
  unfold ofJson
  rw [hname, hpool]
  dsimp only [bind, Except.bind]
  rw [ofName?_name]
  exact ofTexts_chars cs h

theorem regular_reword (f : String → String) (key : String) (h : entry.Regular) :
    (reword f key entry).Regular := by
  unfold reword
  split
  · exact Json.regular_setField key trivial h
  · exact h

theorem depth_reword (f : String → String) (key : String) (entry : Json) :
    (reword f key entry).depth ≤ entry.depth := by
  unfold reword
  split
  · exact Json.depth_setText key
  · exact Nat.le_refl _

theorem documentOf_mapped {bytes : List UInt8} (h : Run.documentOf bytes = .ok (.arr items))
    (cs : Charset) (stock final : List Char) :
    Run.documentOf (encode
      (Json.arr (items.map (mappedEntry cs stock final))).indented.toList) =
        .ok (.arr (items.map (mappedEntry cs stock final))) := by
  apply Run.documentOf_items
  intro x hx
  obtain ⟨entry, hentry, rfl⟩ := mem_map.mp hx
  obtain ⟨hregular, hdepth⟩ := Run.item_regular h entry hentry
  refine ⟨regular_reword _ _ (regular_reword _ _ hregular), ?_⟩
  calc (mappedEntry cs stock final entry).depth ≤ _ := depth_reword _ _ _
    _ ≤ entry.depth := depth_reword _ _ _
    _ < Json.maxDepth := hdepth

theorem nodup_table_keys (hstock : stock.Nodup) (cs : Charset) (done : List Char) :
    ((after cs stock done).table.map Prod.fst).Nodup := by
  have hgiven : ((done.zip stock).map Prod.snd).Nodup := by
    rw [map_snd_zip_take]
    exact hstock.sublist (take_sublist _ _)
  have hkeys : (after cs stock done).table.map Prod.fst =
      ((done.zip stock).map Prod.snd).map singleton := by
    simp [after]
  rw [hkeys]
  exact hgiven.map fun a b h => by simpa using h

theorem documentOf_table (hstock : stock.Nodup) (cs : Charset) (done : List Char) :
    Run.documentOf (encode (after cs stock done).tableJson.indented.toList) =
      .ok (after cs stock done).tableJson := by
  have htexts : ∀ f ∈ (after cs stock done).table, f.2.Regular ∧ f.2.depth ≤ 0 := by
    intro f hf
    obtain ⟨p, -, rfl⟩ := mem_map.mp hf
    exact ⟨trivial, Nat.le_refl 0⟩
  refine Run.documentOf_indented ?_ ?_
  · have hpage : cs.codePage < 10 ^ Json.maxDigits := by cases cs <;> decide +kernel
    have hmapping := Json.regularFields_iff.mpr fun f hf => (htexts f hf).1
    exact ⟨by simp, hpage, ⟨nodup_table_keys hstock cs done, hmapping⟩, trivial⟩
  · have hmapping := Nat.le_zero.mp (Json.depthFields_le_iff.mpr fun f hf => (htexts f hf).2)
    simp only [tableJson, Json.depth, Json.depthFields, hmapping]
    decide

end Pool

namespace SubstitutionTool

open Run Pool

structure Source where
  path : String
  loc : Location
  bytes : List UInt8
  items : List Json
  parsed : documentOf bytes = .ok (.arr items)
  spoken : ∀ item ∈ items, Spoken item

namespace Source

/-- The last part of the path, under which the mapped document is written. -/
def name (f : Source) : String :=
  (Clean.ofText f.path).name

def chars (f : Source) : List Char :=
  f.items.flatMap spokenChars

def Held (f : Source) (s : Session) : Prop :=
  Holds s (Clean.ofText f.path).toText f.loc f.bytes

theorem Held.read {f : Source} (h : f.Held s) :
    eval (readJson (Clean.ofText f.path).toText) s = (.ok (.arr f.items), s) := by
  rw [eval_readJson h.reads, f.parsed, eval_lift]

def output (f : Source) (cs : Charset) (stock final : List Char) : List UInt8 :=
  encode (Json.arr (f.items.map (mappedEntry cs stock final))).indented.toList

end Source

variable {cs : Charset} {stock done final chars : List Char} {sources : List Source}
  {output poolPath : String}

theorem eval_makePool_used (cs : Charset) {paths : List String}
    {used : List (List Char)} (hused : eval (paths.mapM fun p => do
      let document ← readJson (Clean.ofText p).toText
      lift (charactersOfEntries (← lift document.elements))) s = (.ok used, s))
    (hopens : s.tree.Opens s.workDir (Clean.ofText output).toText loc) :
    ∃ out, eval (makePool paths output cs) s =
      (.ok (), { s with
        tree := s.tree.store loc (file cs (unused cs used.flatten))
        out := out }) := by
  rw [makePool, eval_bind, hused]
  exact eval_writeJson_talk hopens ((talk_say _).bind (talk_say _))

theorem eval_makePool (cs : Charset) (sources : List Source) (output : String)
    (hheld : ∀ f ∈ sources, f.Held s)
    (hopens : s.tree.Opens s.workDir (Clean.ofText output).toText loc) :
    ∃ out, eval (makePool (sources.map Source.path) output cs) s =
      (.ok (), { s with
        tree := s.tree.store loc (file cs (unused cs (sources.flatMap Source.chars)))
        out := out }) := by
  refine eval_makePool_used cs (eval_mapM sources fun f hf => ?_) hopens
  rw [eval_bind_ok ((hheld f hf).read), eval_bind, Json.elements, eval_lift]
  dsimp only
  rw [charactersOfEntries_spoken f.spoken, eval_lift]
  rfl

theorem eval_load (cs : Charset) (h : ∀ c ∈ chars, cs.has c = true)
    (hread : Reads s (Clean.ofText path).toText (file cs chars)) :
    ∃ listed, eval (load path) s = (.ok (listed, after cs chars []), s) := by
  refine ⟨.arr (chars.map fun c => .str (singleton c)), ?_⟩
  rw [load, eval_bind, eval_readJson hread, documentOf_file, eval_lift]
  dsimp only
  rw [eval_bind, ofJson_document cs h, eval_lift]
  rfl

theorem eval_mapDocument (pool : Pool) (items : List Json) (s : Session) :
    eval (mapDocument pool (.arr items)) s =
      match pool.mapEntries items with
      | (.ok entries, pool) => (.ok (.arr entries, pool), s)
      | (.error fault, _) => (.error (.fault fault), s) := by
  rw [mapDocument, eval_bind, Json.elements, eval_lift]
  dsimp only
  rcases pool.mapEntries items with ⟨fault | entries, pool⟩ <;> rfl

theorem eval_mapFiles_cons {pool : Pool} {rest : List String}
    (hread : eval (readJson (Clean.ofText path).toText) s = (.ok (.arr items), s))
    (hopens : s.tree.Opens s.workDir (target.append (Clean.ofText path).name).toText loc) :
    eval (mapFiles target pool (path :: rest)) s =
      match pool.mapEntries items with
      | (.ok entries, pool) =>
        eval (mapFiles target pool rest) { s with
          tree := s.tree.store loc (encode (Json.arr entries).indented.toList) }
      | (.error fault, _) => (.error (.fault fault), s) := by
  rw [mapFiles, eval_bind_ok hread, eval_bind, eval_mapDocument]
  rcases pool.mapEntries items with ⟨fault | entries, pool⟩
  · rfl
  · dsimp only
    rw [eval_bind, writeJson, writeText, eval_writeBytes hopens]

theorem eval_mapFiles {place : String → Location} (sources : List Source)
    (hheld : ∀ f ∈ sources, f.Held s)
    (hopens : ∀ f ∈ sources, s.tree.Opens s.workDir (target.append f.name).toText (place f.name))
    (hapart : sources.Pairwise fun f g => g.loc ≠ place f.name) (hstock : stock.Nodup)
    (hlen : done.length ≤ stock.length)
    (hfinal : noteAll cs done (sources.flatMap Source.chars) <+: final) :
    ((noteAll cs done (sources.flatMap Source.chars)).length ≤ stock.length →
      eval (mapFiles target (after cs stock done) (sources.map Source.path)) s =
        (.ok (after cs stock (noteAll cs done (sources.flatMap Source.chars))),
          { s with
            tree := s.tree.storeAll
              (sources.map fun f => (place f.name, f.output cs stock final)) })) ∧
    (stock.length < (noteAll cs done (sources.flatMap Source.chars)).length →
      ∃ c s', eval (mapFiles target (after cs stock done) (sources.map Source.path)) s =
        (.error (.fault (.refused (.poolExhausted c))), s')) := by
  induction sources generalizing s done with
  | nil => exact ⟨fun _ => rfl, fun h => absurd h (Nat.not_lt.mpr hlen)⟩
  | cons f sources ih =>
    rw [flatMap_cons, noteAll_append] at hfinal ⊢
    rw [pairwise_cons] at hapart
    have hopen := hopens f (by simp)
    obtain ⟨hmapped, hstuck⟩ := mapEntries_lasts f.spoken hstock hlen
      ((noteAll_isPrefix cs _ _).trans hfinal)
    rw [map_cons, eval_mapFiles_cons (hheld f (by simp)).read hopen]
    by_cases hf : (noteAll cs done f.chars).length ≤ stock.length
    · -- The files still to be read are not where this one is written.
      rw [hmapped hf]
      exact ih (fun g hg => (hheld g (by simp [hg])).store hopen (hapart.1 g hg) _)
        (fun g hg => (hopens g (by simp [hg])).store hopen _) hapart.2 hf hfinal
    · obtain ⟨c, pool, hfault⟩ := hstuck (Nat.lt_of_not_le hf)
      have hmore := (noteAll_isPrefix cs (noteAll cs done f.chars)
        (sources.flatMap Source.chars)).length_le
      rw [hfault]
      exact ⟨fun h => absurd (Nat.le_trans hmore h) hf, fun _ => ⟨c, s, rfl⟩⟩

def fileNames (sources : List Source) : List String :=
  sources.map Source.name ++ ["mapping.json"]

def written (cs : Charset) (stock final : List Char) (sources : List Source) :
    List (String × List UInt8) :=
  sources.map fun f => (f.name, f.output cs stock final)

def contents (cs : Charset) (stock final : List Char) (sources : List Source) :
    List (String × List UInt8) :=
  written cs stock final sources ++
    [("mapping.json", encode (after cs stock final).tableJson.indented.toList)]

theorem names_contents (cs : Charset) (stock final : List Char) (sources : List Source) :
    (contents cs stock final sources).map Prod.fst = fileNames sources := by
  rw [contents, written, map_append, map_map]
  rfl

section

variable {paths : List String} {listed : Json} {pool : Pool}

theorem eval_map_filled {names : List String} {files : List (String × List UInt8)} {pool' : Pool}
    (hload : eval (load poolPath) s = (.ok (listed, pool), s))
    (hdir : eval (makeClean (Clean.ofText output)) s = (.ok (), s₁))
    (room : Room s₁ (Clean.ofText output) names) (hmem : ∀ f ∈ files, f.1 ∈ names)
    (htable : "mapping.json" ∈ names)
    (hfiles : eval (mapFiles (Clean.ofText output) pool paths) s₁ =
      (.ok pool', room.filled files s₁.out)) :
    ∃ out, eval (map paths output poolPath) s = (.ok (), room.filled
        (files ++ [("mapping.json", encode pool'.tableJson.indented.toList)]) out) := by
  obtain ⟨out, hend⟩ := eval_writeJson_talk (v := pool'.tableJson)
    (room.opens_filled hmem s₁.out htable)
    ((talk_say "处理完成").bind ((talk_say _).bind (talk_say _)))
  rw [room.filled_append] at hend
  rw [map, eval_bind_ok hload, eval_bind_ok hdir, eval_bind, hfiles]
  exact ⟨out, hend⟩

theorem eval_map_stuck {stop : Stop} {s' : Session}
    (hload : eval (load poolPath) s = (.ok (listed, pool), s))
    (hdir : eval (makeClean (Clean.ofText output)) s = (.ok (), s₁))
    (hfiles : eval (mapFiles (Clean.ofText output) pool paths) s₁ = (.error stop, s')) :
    eval (map paths output poolPath) s = (.error stop, s') := by
  rw [map, eval_bind_ok hload, eval_bind_ok hdir, eval_bind, hfiles]

end

theorem eval_map
    (hstock : stock.Nodup) (hhas : ∀ c ∈ stock, cs.has c = true)
    (hpool : Reads s (Clean.ofText poolPath).toText (file cs stock))
    (hdir : eval (makeClean (Clean.ofText output)) s = (.ok (), s₁))
    (room : Room s₁ (Clean.ofText output) (fileNames sources)) (hheld : ∀ f ∈ sources, f.Held s₁)
    (hapart : sources.Pairwise fun f g => g.loc ≠ room.place f.name)
    (hfinal : final = noteAll cs [] (sources.flatMap Source.chars)) :
    (final.length ≤ stock.length → ∃ out, eval (map (sources.map Source.path) output poolPath) s =
        (.ok (), room.filled (contents cs stock final sources) out)) ∧
    (stock.length < final.length → ∃ c s', eval (map (sources.map Source.path) output poolPath) s =
        (.error (.fault (.refused (.poolExhausted c))), s')) := by
  obtain ⟨listed, hload⟩ := eval_load cs hhas hpool
  have hmem : ∀ f ∈ written cs stock final sources, f.1 ∈ fileNames sources := by
    intro g hg
    obtain ⟨f, hf, rfl⟩ := mem_map.mp hg
    exact mem_append_left _ (mem_map_of_mem hf)
  have hopens : ∀ f ∈ sources, s₁.tree.Opens s₁.workDir
      ((Clean.ofText output).append f.name).toText (room.place f.name) := fun f hf =>
    room.opens f.name (mem_append_left _ (mem_map_of_mem hf))
  have hnone : ([] : List Char).length ≤ stock.length := Nat.zero_le _
  have hall : noteAll cs [] (sources.flatMap Source.chars) <+: final := hfinal ▸ prefix_rfl
  obtain ⟨henough, hscarce⟩ := eval_mapFiles sources hheld hopens hapart hstock hnone hall
  rw [← hfinal] at henough hscarce
  constructor
  · intro h
    have hfilled : { s₁ with
        tree := s₁.tree.storeAll
          (sources.map fun f => (room.place f.name, f.output cs stock final)) } =
            room.filled (written cs stock final sources) s₁.out := by
      simp [Room.filled, Room.located, written, Function.comp_def]
    rw [hfilled] at henough
    exact eval_map_filled hload hdir room hmem (by simp [fileNames]) (henough h)
  · intro h
    obtain ⟨c, s', hfault⟩ := hscarce h
    exact ⟨c, s', eval_map_stuck hload hdir hfault⟩

/-- What mapping leaves in a directory: a table of stand-ins, and each document with its entries in
the charset. -/
def Substituted (cs : Charset) (target : Clean) (sources : List Source) (s : Session) : Prop :=
  ∃ table, eval (readJson (target.append "mapping.json").toText) s =
      (.ok (.obj [("code_page", .int cs.codePage), ("mapping", .obj table)]), s) ∧
    ∀ f ∈ sources, ∃ items,
      eval (readJson (target.append f.name).toText) s = (.ok (.arr items), s) ∧
        List.Forall₂ (Mapped cs table) f.items items

theorem read_contents (room : Room s₁ target (fileNames sources))
    (hnames : (fileNames sources).Nodup) (hstock : stock.Nodup) (cs : Charset) (final : List Char)
    (out : String) :
    HoldsDocument (room.filled (contents cs stock final sources) out)
        (target.append "mapping.json").toText (after cs stock final).tableJson ∧
      ∀ f ∈ sources, HoldsDocument (room.filled (contents cs stock final sources) out)
        (target.append f.name).toText (.arr (f.items.map (mappedEntry cs stock final))) := by
  have hmem : ∀ f ∈ contents cs stock final sources, f.1 ∈ fileNames sources := by
    intro f hf
    rw [← names_contents cs stock final]
    exact mem_map_of_mem hf
  have hnodup : ((contents cs stock final sources).map Prod.fst).Nodup := by rwa [names_contents]
  refine ⟨?_, fun f hf => ?_⟩
  · have hread := room.reads_filled hmem hnodup out (f := ("mapping.json", _))
      (mem_append_right _ (mem_singleton.mpr rfl))
    refine ⟨_, hread, ?_⟩
    rw [documentOf_table hstock]
  · have hread := room.reads_filled hmem hnodup out (f := (f.name, f.output cs stock final))
      (mem_append_left _ (mem_map.mpr ⟨f, hf, rfl⟩))
    refine ⟨_, hread, ?_⟩
    rw [Source.output, documentOf_mapped f.parsed]

theorem substituted_filled (room : Room s₁ target (fileNames sources))
    (hnames : (fileNames sources).Nodup) (hstock : stock.Nodup)
    (hhas : ∀ c ∈ stock, cs.has c = true) (hlen : final.length ≤ stock.length)
    (hcovers : ∀ f ∈ sources, Covers cs stock final f.chars) (out : String) :
    Substituted cs target sources (room.filled (contents cs stock final sources) out) := by
  obtain ⟨htable, hmapped⟩ := read_contents room hnames hstock cs final out
  refine ⟨(after cs stock final).table, htable.read, fun f hf => ⟨_, (hmapped f hf).read, ?_⟩⟩
  rw [forall₂_map_right_iff, forall₂_same]
  intro entry hentry
  have hsub : spokenChars entry ⊆ f.chars := fun c hc =>
    mem_flatMap.mpr ⟨entry, hentry, hc⟩
  exact mapped_mappedEntry hstock hhas hlen
    ⟨fun c hc => (hcovers f hf).needed c (hsub hc), fun c hc => (hcovers f hf).apart c (hsub hc)⟩

/-- Documents are mapped with the pool that was made for them if they have no more characters that
the charset lacks than the pool has stand-ins, and then the table undoes it; if they have more,
mapping stops for want of a stand-in. A document may be replaced by its own mapped form, but links
must not lead the form of one document to another. -/
theorem map_makePool (cs : Charset) (output poolPath : String)
    {loc : Location} (hnames : (fileNames sources).Nodup) (hheld : ∀ f ∈ sources, f.Held s)
    (hopens : s.tree.Opens s.workDir (ofText poolPath).toText loc)
    (hfree : ∀ f ∈ sources, f.loc ≠ loc) :
    ∃ s₁ stock, eval (makePool (sources.map Source.path) poolPath cs) s = (.ok (), s₁) ∧
      stock = unused cs (sources.flatMap Source.chars) ∧
      eval (readJson (ofText poolPath).toText) s₁ = (.ok (document cs stock), s₁) ∧
      ∀ (s₂ : Session) (room : Room s₂ (ofText output) (fileNames sources)),
        eval (makeClean (ofText output)) s₁ = (.ok (), s₂) →
        (∀ f ∈ sources, ∀ g ∈ sources, g.loc = room.place f.name → f = g) →
        ((lacking cs (sources.flatMap Source.chars)).length ≤ stock.length →
          ∃ s₃, eval (map (sources.map Source.path) output poolPath) s₁ = (.ok (), s₃) ∧
            Substituted cs (ofText output) sources s₃) ∧
        (stock.length < (lacking cs (sources.flatMap Source.chars)).length →
          ∃ c s₃, eval (map (sources.map Source.path) output poolPath) s₁ =
            (.error (.fault (.refused (.poolExhausted c))), s₃)) := by
  obtain ⟨hstock, hhas, hunused⟩ := unused_fresh cs (sources.flatMap Source.chars)
  obtain ⟨out, hmake⟩ := eval_makePool cs sources poolPath hheld hopens
  have hpool := reads_written (s := { s with out := out }) hopens
    (file cs (unused cs (sources.flatMap Source.chars)))
  refine ⟨_, _, hmake, rfl, ?_, fun s₂ room hdir hplace => ?_⟩
  · rw [eval_readJson hpool, documentOf_file, eval_lift]
  have hgrown := growing_makeClean (ofText output) { s with
    tree := s.tree.store loc (file cs (unused cs (sources.flatMap Source.chars))), out := out }
  rw [hdir] at hgrown
  have hheld₂ : ∀ f ∈ sources, f.Held s₂ := by
    intro f hf
    obtain ⟨hplain, hlocated, hstored⟩ := (hheld f hf).store hopens (hfree f hf)
      (file cs (unused cs (sources.flatMap Source.chars)))
    exact hgrown.holds ⟨hplain, hlocated, hstored⟩
  have hapart : sources.Pairwise fun f g => g.loc ≠ room.place f.name := by
    have hdistinct := (List.nodup_append.mp hnames).1
    rw [List.Nodup, List.pairwise_map] at hdistinct
    exact hdistinct.imp_of_mem fun hf hg hne heq => hne (congrArg _ (hplace _ hf _ hg heq))
  obtain ⟨henough, hscarce⟩ := eval_map hstock hhas hpool hdir room hheld₂ hapart rfl
  rw [length_noteAll] at henough hscarce
  refine ⟨fun h => ?_, hscarce⟩
  obtain ⟨out', hmap⟩ := henough h
  refine ⟨_, hmap, substituted_filled room hnames hstock hhas (by rwa [length_noteAll])
    (fun f hf => ?_) out'⟩
  have hsub : ∀ c ∈ f.chars, c ∈ sources.flatMap Source.chars := fun c hc =>
    List.mem_flatMap.mpr ⟨f, hf, hc⟩
  exact ⟨fun c hc hlacks => mem_noteAll.mpr (.inr ⟨hsub c hc, hlacks⟩),
    fun c hc => hunused c (hsub c hc)⟩

end SubstitutionTool

theorem has_odori : shiftJis.has 'ヽ' = true := by
  obtain ⟨piece, pieces, rows, hchart, hpiece⟩ : ∃ piece pieces rows,
      CodePage.chartRows = (0x81, piece :: pieces) :: rows ∧ 'ヽ' ∈ piece.toList :=
    ⟨_, _, _, rfl, by simp⟩
  have hmem : 'ヽ' ∈ (String.join (piece :: pieces)).toList := by
    simp [String.toList_join, hpiece]
  obtain ⟨front, back, hrow, hfront⟩ := eq_append_cons_of_mem hmem
  have hcode := CodePage.codes932_first (by decide) hchart hrow hfront
  rw [has, bytesFor, page, CodePage.shiftJis]
  dsimp only
  rw [if_neg (by decide), if_neg (by decide), if_neg (by decide), if_neg (by decide),
    if_neg (by decide), CodePage.double932?, hcode]
  rfl

namespace SubstitutionTool

open Run Pool

def waveItems : List Json :=
  [.obj [("name", .str "A"), ("message", .str "B～")]]

def waveSource : Source where
  path := "a.json"
  loc := ["a.json"]
  bytes := encode (Json.arr waveItems).indented.toList
  items := waveItems
  parsed := documentOf_indented ⟨⟨by simp, trivial, trivial, trivial⟩, trivial⟩ (by decide)
  spoken := by
    intro item hitem
    rw [mem_singleton.mp hitem]
    exact .intro _ _ rfl fun v hv => ⟨"A", (Option.some.inj hv).symm⟩

def waveSession : Session where
  tree := ⟨[(["a.json"], .file waveSource.bytes false)]⟩
  workDir := []

theorem map_makePool_wave :
    ∃ s₁ s₃, eval (makePool ["a.json"] "p.json" .shiftJis) waveSession = (.ok (), s₁) ∧
      eval (map ["a.json"] "d" "p.json") s₁ = (.ok (), s₃) ∧
      Substituted .shiftJis (ofText "d") [waveSource] s₃ := by
  have hheld : ∀ f ∈ [waveSource], f.Held waveSession :=
    List.forall_mem_singleton.mpr ⟨by decide, rfl, false, rfl⟩
  have hopens : waveSession.tree.Opens [] "p.json" ["p.json"] :=
    .of_free (by decide) rfl rfl
  have hnames : fileNames [waveSource] = ["a.json", "mapping.json"] := by decide +kernel
  obtain ⟨s₁, stock, hmake, rfl, -, hmap⟩ := map_makePool .shiftJis "d" "p.json"
    (by rw [hnames]; decide) hheld hopens (by simp [waveSource])
  obtain ⟨out, hout⟩ := eval_makePool .shiftJis [waveSource] "p.json" hheld hopens
  obtain rfl := congrArg Prod.snd (hout.symm.trans hmake)
  -- The pool itself is far too long to be computed; it is enough to know one of its stand-ins.
  have hstock : 'ヽ' ∈ unused .shiftJis ([waveSource].flatMap Source.chars) :=
    mem_unused.mpr ⟨mem_candidates (by decide) has_odori, by decide +kernel⟩
  have hone : (lacking .shiftJis ([waveSource].flatMap Source.chars)).length = 1 := by
    decide +kernel
  obtain ⟨henough, -⟩ := hmap
    { waveSession with tree := FileTree.insert _ ["d"] .directory, out := out }
    (.fresh "d" hnames ⟨⟨by decide, rfl, rfl⟩, by decide, rfl, rfl⟩) rfl (by simp)
  obtain ⟨s₃, hmapped, hsubstituted⟩ := henough (by rw [hone]; exact List.length_pos_of_mem hstock)
  exact ⟨_, s₃, hmake, hmapped, hsubstituted⟩

end SubstitutionTool
end SceneText
