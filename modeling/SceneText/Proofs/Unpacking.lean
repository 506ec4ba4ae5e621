import SceneText.Proofs.Packing

/-!
# Unpacking an archive and packing it again

An archive whose index is whole is unpacked into one file for each part and the manifest, and
nothing else is written. The directory that this gives can be packed, and the archive packed from it
is unpacked to the same files under the same names, marked as packed or not as before.
-/

namespace SceneText

open List SceneText.Path Json
open Path.Clean (ofText)

variable {s s₁ : Session} {dir : String}

namespace Archive

theorem digits_partName (i : Nat) : ∀ c ∈ (partName i).toList, c.isDigit = true := by
  intro c hc
  simp only [partName, Numeral.padded, String.toList_ofList, mem_append, mem_replicate] at hc
  rcases hc with ⟨-, rfl⟩ | hc
  · decide
  · exact Nat.isDigit_of_mem_toDigits (by decide) (by decide) hc

theorem partName_injective {i j : Nat} (h : partName i = partName j) : i = j := by
  have value : ∀ n, Nat.ofDigitChars 10 (partName n).toList 0 = n := by
    simp [partName, Numeral.padded, Nat.ofDigitChars_append, Nat.ofDigitChars_ten_toDigits]
  rw [← value i, h, value j]

theorem parts_names (data : List UInt8) (index : List Nat) :
    (partsFrom data 0 index).map Part.name = (List.range (index.length - 1)).map partName := by
  have h := congrArg (List.map Prod.fst) (faces_partsFrom data 0 index)
  rw [map_map, names_faces, length_chunks, ← range_eq_range'] at h
  exact h

theorem manifest_regular (ps : List Part) (h : ∀ p ∈ ps, p.span.natAbs < 10 ^ maxDigits) :
    (manifest ps).Regular := by
  rw [manifest, Regular, regularItems_iff]
  intro x hx
  obtain ⟨p, hp, rfl⟩ := mem_map.mp hx
  simp [Part.record, Regular, RegularFields, h p hp]

theorem manifest_depth (ps : List Part) : (manifest ps).depth ≤ maxDepth := by
  have hitems : depthItems (ps.map Part.record) ≤ 1 := by
    rw [depthItems_le_iff]
    intro x hx
    obtain ⟨p, -, rfl⟩ := mem_map.mp hx
    simp [Part.record, depth, depthFields]
  exact Nat.le_trans (Nat.succ_le_succ hitems) (by decide)

end Archive

namespace ArchiveTool

open Run Archive

variable {loc : Location} {archive : String} {data : List UInt8} {names : List String}

def fileNames (count : Nat) : List String :=
  (List.range count).map partName ++ [manifestName]

theorem nodup_fileNames (count : Nat) : (fileNames count).Nodup := by
  refine nodup_append.mpr ⟨?_, by simp, ?_⟩
  · rw [List.Nodup, pairwise_map]
    exact nodup_range.imp fun hne heq => hne (partName_injective heq)
  · intro name hname manifest hmanifest heq
    obtain ⟨i, -, rfl⟩ := mem_map.mp hname
    rw [mem_singleton.mp hmanifest] at heq
    have hdigit := digits_partName i '_' (by rw [heq]; decide)
    exact absurd hdigit (by decide)

def contents (ps : List Part) : List (String × List UInt8) :=
  ps.map (fun p => (p.name, p.content)) ++
    [(manifestName, Utf8.encode (manifest ps).indented.toList)]

theorem names_contents (ps : List Part) :
    (contents ps).map Prod.fst = ps.map Part.name ++ [manifestName] := by
  rw [contents, map_append, map_map]
  rfl

theorem eval_unpackPart (dir : Clean) (count i : Nat) (p : Part)
    (h : s.tree.Opens s.workDir (dir.append p.name).toText loc) :
    ∃ out, eval (unpackPart dir count i p) s =
      (.ok (), { s with tree := s.tree.store loc p.content, out := out }) := by
  obtain ⟨out, hsay⟩ := talk_say s!"正在提取 {i} 个 (总共{count})" s
  refine ⟨out, ?_⟩
  rw [unpackPart, eval_bind, hsay]
  exact eval_writeBytes (s := { s with out := out }) h p.content

theorem eval_unpackParts (dir : Clean) (count i : Nat) (ps : List Part) (s : Session)
    (place : String → Location)
    (h : ∀ p ∈ ps, s.tree.Opens s.workDir (dir.append p.name).toText (place p.name)) :
    ∃ out, eval (unpackParts dir count i ps) s =
      (.ok (), { s with
        tree := s.tree.storeAll (ps.map fun p => (place p.name, p.content)), out := out }) := by
  induction ps generalizing i s with
  | nil => exact ⟨s.out, rfl⟩
  | cons p ps ih =>
    have hp := h p (by simp)
    obtain ⟨out, hstep⟩ := eval_unpackPart dir count i p hp
    obtain ⟨out', hrest⟩ := ih (i + 1)
      { s with tree := s.tree.store (place p.name) p.content, out := out }
      fun q hq => (h q (by simp [hq])).store hp p.content
    refine ⟨out', ?_⟩
    rw [unpackParts, eval_bind, hstep]
    exact hrest

theorem eval_unpack {ps : List Part} (hread : Reads s (Clean.ofText archive).toText data)
    (hdir : eval (makeClean (Clean.ofText dir)) s = (.ok (), s₁))
    (hparts : parts data = .ok ps) (room : Room s₁ (Clean.ofText dir) names)
    (hnames : names = ps.map Part.name ++ [manifestName]) :
    ∃ out, eval (unpack archive dir) s = (.ok (), room.filled (contents ps) out) := by
  have hgrown : Grown s s₁ := by
    have h := growing_makeClean (Clean.ofText dir) s
    rwa [hdir] at h
  have hmem : ∀ f ∈ ps.map fun p => (p.name, p.content), f.1 ∈ names := by
    intro f hf
    obtain ⟨p, hp, rfl⟩ := mem_map.mp hf
    rw [hnames]
    exact mem_append_left _ (mem_map_of_mem hp)
  have hopens : ∀ p ∈ ps, s₁.tree.Opens s₁.workDir
      ((Clean.ofText dir).append p.name).toText (room.place p.name) := fun p hp =>
    room.opens p.name (hmem _ (mem_map.mpr ⟨p, hp, rfl⟩))
  obtain ⟨out, hout⟩ := eval_unpackParts (Clean.ofText dir) ps.length 0 ps s₁ room.place hopens
  have hfilled : { s₁ with
      tree := s₁.tree.storeAll (ps.map fun p => (room.place p.name, p.content)), out := out } =
        room.filled (ps.map fun p => (p.name, p.content)) out := by
    simp [Room.filled, Room.located, Function.comp_def]
  have hmanifest := room.opens_filled hmem out (show manifestName ∈ names by simp [hnames])
  refine ⟨out, ?_⟩
  rw [unpack, eval_bind_ok hdir, eval_bind_ok (hgrown.reads hread), eval_bind, hparts, eval_lift]
  dsimp only
  rw [eval_bind, hout, hfilled]
  refine (eval_writeBytes hmanifest _).trans ?_
  rw [contents, ← room.filled_append manifestName _ out out]
  rfl

def listed (p : Part) : Listed :=
  ⟨p.record, p.name, p.packed, p.content⟩

theorem blob_listed {p : Part} (hlen : p.packed = true → p.content.length < 2 ^ 32) :
    (listed p).blob = p.stored := by
  cases hp : p.packed with
  | true =>
    exact Option.some.inj ((Listed.pack_blob hp (hlen hp)).symm.trans (pack_stored hp (hlen hp)))
  | false =>
    rw [Part.stored, hp, Listed.blob, show (listed p).packed = false from hp]
    rfl

theorem eval_pack (dir target : String) {ps : List Part} {bytes : List UInt8}
    (hfiles : ∀ p ∈ ps, Reads s ((Clean.ofText dir).append p.name).toText p.content)
    (hmanifest : Reads s ((Clean.ofText dir).append manifestName).toText
      (Utf8.encode (manifest ps).indented.toList)) (hregular : (manifest ps).Regular)
    (hlen : ∀ p ∈ ps, p.packed = true → p.content.length < 2 ^ 32)
    (hbuild : build (ps.map Part.stored) = .ok bytes)
    (hopens : s.tree.Opens s.workDir (Clean.ofText target).toText loc) :
    eval (pack dir target) s =
      (.ok (), { s with tree := (s.tree.store loc []).store loc bytes }) := by
  have hentries : manifest ps = .arr ((ps.map listed).map Listed.entry) := by
    rw [manifest, map_map]
    rfl
  have hdocument := documentOf_indented hregular (manifest_depth ps)
  have hblobs : (ps.map listed).map Listed.blob = ps.map Part.stored := by
    rw [map_map]
    exact map_congr_left fun p hp => blob_listed (hlen p hp)
  have hheld : HoldsDocument s ((Clean.ofText dir).append manifestName).toText
      (.arr ((ps.map listed).map Listed.entry)) := by
    rw [← hentries]
    exact ⟨_, hmanifest, hdocument⟩
  have hbuilt : build ((ps.map listed).map Listed.blob) = .ok bytes := by
    rw [hblobs]
    exact hbuild
  apply eval_pack_listed dir target hheld _ _ hbuilt hopens
  · intro l hl
    obtain ⟨p, hp, rfl⟩ := mem_map.mp hl
    exact ⟨rfl, ⟨_, rfl, rfl⟩, hfiles p hp⟩
  · intro l hl
    obtain ⟨p, hp, rfl⟩ := mem_map.mp hl
    exact hlen p hp

/-- A session in which parts have been unpacked into a room: each part is in a file of its own, the
manifest lists them, and nothing else has changed. -/
structure Unpacked {s₁ : Session} {dir : Clean} {names : List String}
    (room : Room s₁ dir names) (ps : List Part) (s₂ : Session) : Prop where
  place : s₂.workDir = s₁.workDir
  named : ps.map Part.name ++ [manifestName] = names
  distinct : names.Nodup
  files : ∀ p ∈ ps, Reads s₂ (dir.append p.name).toText p.content
  manifest : Reads s₂ (dir.append manifestName).toText
    (Utf8.encode (Archive.manifest ps).indented.toList)
  others : ∀ l, l ∉ names.map room.place → s₂.tree.find? l = s₁.tree.find? l

theorem unpacked_filled {dir : Clean} (room : Room s₁ dir names) {ps : List Part}
    (hnames : ps.map Part.name ++ [manifestName] = names) (hdistinct : names.Nodup) (out : String) :
    Unpacked room ps (room.filled (contents ps) out) := by
  have hmem : ∀ f ∈ contents ps, f.1 ∈ names := by
    intro f hf
    rw [← hnames, ← names_contents]
    exact mem_map_of_mem hf
  have hnodup : ((contents ps).map Prod.fst).Nodup := by rwa [names_contents, hnames]
  refine ⟨rfl, hnames, hdistinct, fun p hp => ?_, ?_, fun l hl => room.find?_filled hmem out hl⟩
  · refine room.reads_filled hmem hnodup out (f := (p.name, p.content)) ?_
    exact mem_append_left _ (mem_map.mpr ⟨p, hp, rfl⟩)
  · refine room.reads_filled hmem hnodup out (f := (manifestName, _)) ?_
    exact mem_append_right _ (mem_singleton.mpr rfl)

theorem unpacked {ps : List Part} {count : Nat} (hread : Reads s (Clean.ofText archive).toText data)
    (hdir : eval (makeClean (Clean.ofText dir)) s = (.ok (), s₁))
    (hparts : parts data = .ok ps) (hnames : ps.map Part.name = (List.range count).map partName)
    (room : Room s₁ (Clean.ofText dir) (fileNames count)) :
    ∃ s₂, eval (unpack archive dir) s = (.ok (), s₂) ∧ Unpacked room ps s₂ := by
  have hfiles : ps.map Part.name ++ [manifestName] = fileNames count := by rw [hnames, fileNames]
  obtain ⟨out, hrun⟩ := eval_unpack hread hdir hparts room hfiles.symm
  exact ⟨_, hrun, unpacked_filled room hfiles (nodup_fileNames count) out⟩

/-- An archive with a whole index is unpacked to as many files as its head announces, whatever its
offsets and parts are. If the unpacked parts and the offsets of the archive packed from them fit a
word, packing succeeds, and unpacking what was packed gives parts with the same names, contents and
marks. Only the manifest needs the size of the archive to have a numeral that can be read. -/
theorem unpack_pack_unpack {archive dir : String} {data : List UInt8} {s s₁ : Session}
    (hindex : 4 + 4 * partCount data ≤ data.length)
    (hfirst : ofLowBytes ((data.drop 4).take 4) = 4 + 4 * partCount data)
    (hread : Reads s (ofText archive).toText data)
    (hdir : eval (makeClean (ofText dir)) s = (.ok (), s₁))
    (room : Room s₁ (ofText dir) (fileNames (partCount data))) :
    ∃ s₂ ps, eval (unpack archive dir) s = (.ok (), s₂) ∧ parts data = .ok ps ∧
      Unpacked room ps s₂ ∧
      ((∀ p ∈ ps, p.content.length < 2 ^ 32) →
        (∀ n ∈ begins (4 + 4 * partCount data) (ps.map Part.stored), n < 2 ^ 32) →
        data.length < 10 ^ Json.maxDigits →
        ∀ (target : String) (loc : Location),
          s₂.tree.Opens s₂.workDir (ofText target).toText loc →
          ∃ s₃, eval (pack dir target) s₂ = (.ok (), s₃) ∧ ∀ (dir' : String) (s₄ : Session)
              (room' : Room s₄ (ofText dir') (fileNames (partCount data))),
              eval (makeClean (ofText dir')) s₃ = (.ok (), s₄) →
              ∃ s₅ ps', eval (unpack target dir') s₃ = (.ok (), s₅) ∧ Unpacked room' ps' s₅ ∧
                ps'.map Part.face = ps.map Part.face) := by
  obtain ⟨index, hlength, hsmall, hparts⟩ := parts_ok data hindex hfirst
  have hnames := parts_names data (index ++ [data.length])
  rw [List.length_append, hlength, List.length_singleton, Nat.add_sub_cancel] at hnames
  obtain ⟨s₂, hunpack, hunpacked⟩ := unpacked hread hdir hparts hnames room
  refine ⟨s₂, _, hunpack, hparts, hunpacked, fun hlen hbegins hnumeral target loc hopens => ?_⟩
  -- Spans may be negative or reach beyond the data, but their numerals stay short enough.
  have hspans : ∀ p ∈ partsFrom data 0 (index ++ [data.length]),
      p.span.natAbs < 10 ^ Json.maxDigits := by
    refine span_lt data 0 _ (List.forall_mem_append.mpr ⟨fun n hn => ?_, ?_⟩)
    · exact Nat.lt_of_lt_of_le (hsmall n hn) (by decide +kernel)
    · exact List.forall_mem_singleton.mpr hnumeral
  have hcount : (partsFrom data 0 (index ++ [data.length])).length = partCount data := by
    simpa using congrArg List.length hnames
  obtain ⟨bytes, hbuild, ps', hparts', hfaces⟩ := @parts_build
    ((partsFrom data 0 (index ++ [data.length])).map Part.stored)
    (fun h => by simp [List.map_eq_nil_iff.mp h, partCount] at hcount)
    (by rwa [List.length_map, hcount])
  refine ⟨_, eval_pack dir target hunpacked.files hunpacked.manifest (manifest_regular _ hspans)
    (fun p hp _ => hlen p hp) hbuild hopens, fun dir' s₄ room' hdir' => ?_⟩
  have hreads : Reads { s₂ with tree := (s₂.tree.store loc []).store loc bytes }
      (ofText target).toText bytes :=
    reads_written (s := { s₂ with tree := s₂.tree.store loc [] }) (hopens.store hopens []) bytes
  rw [faces_stored data 0 _ fun p hp _ => hlen p hp] at hfaces
  have hnames' : ps'.map Part.name = (List.range (partCount data)).map partName := by
    rw [← hnames]
    have h := congrArg (List.map Prod.fst) hfaces
    rwa [List.map_map, List.map_map] at h
  obtain ⟨s₅, hunpack', hunpacked'⟩ := unpacked hreads hdir' hparts' hnames' room'
  exact ⟨s₅, ps', hunpack', hunpacked', hfaces⟩

def pairArchive : List UInt8 :=
  [1, 0, 0, 0, 12, 0, 0, 0, 19, 0, 0, 0, 2, 0, 0, 0, 1, 65, 66, 7]

def pairParts : List Part :=
  [⟨"00000", [65, 66], true, 7⟩, ⟨"00001", [7], false, 1⟩]

def pairSession : Session where
  tree := ⟨[(["a"], .file pairArchive false)]⟩
  workDir := []

def pairMade : Session where
  tree := ⟨[(["a"], .file pairArchive false), (["d"], .directory)]⟩
  workDir := []

theorem pair_names : fileNames 2 = ["00000", "00001", "__META__.json"] := by
  decide +kernel

def pairRoom : Room pairMade (Clean.ofText "d") (fileNames 2) :=
  .fresh "d" pair_names ⟨⟨by decide, rfl, rfl⟩, ⟨by decide, rfl, rfl⟩, by decide, rfl, rfl⟩

theorem unpack_pack_unpack_pair :
    ∃ (s₂ s₃ s₅ : Session) (ps' : List Part), eval (unpack "a" "d") pairSession = (.ok (), s₂) ∧
      eval (pack "d" "b") s₂ = (.ok (), s₃) ∧ eval (unpack "b" "e") s₃ = (.ok (), s₅) ∧
      ps'.map Part.face = pairParts.map Part.face := by
  have hread : Reads pairSession (ofText "a").toText pairArchive := rfl
  have hdir : eval (makeClean (ofText "d")) pairSession = (.ok (), pairMade) := rfl
  have hparts : parts pairArchive = .ok pairParts := by cbv
  have hbuild : build (pairParts.map Part.stored) = .ok pairArchive := by cbv
  have hlen : ∀ p ∈ pairParts, p.content.length < 2 ^ 32 := by decide
  have hregular := manifest_regular pairParts (by decide +kernel)
  obtain ⟨s₂, ps, hunpack, hps, hunpacked, hpack⟩ :=
    unpack_pack_unpack (by decide) (by decide) hread hdir pairRoom
  obtain rfl : pairParts = ps := Except.ok.inj (hparts.symm.trans hps)
  obtain ⟨out, hout⟩ := eval_unpack hread hdir hparts pairRoom (by decide +kernel)
  obtain rfl : pairRoom.filled (contents pairParts) out = s₂ :=
    congrArg Prod.snd (hout.symm.trans hunpack)
  have hopens : (pairRoom.filled (contents pairParts) out).tree.Opens [] "b" ["b"] :=
    .of_free (by decide) rfl rfl
  obtain ⟨s₃, hpacked, hagain⟩ := hpack hlen (by decide +kernel)
    (by decide +kernel) "b" ["b"] hopens
  obtain rfl := congrArg Prod.snd ((eval_pack "d" "b" hunpacked.files hunpacked.manifest
    hregular (fun p hp _ => hlen p hp) hbuild hopens).symm.trans hpacked)
  obtain ⟨s₅, ps', hunpack', -, hfaces⟩ := hagain "e"
    { pairRoom.filled (contents pairParts) out with tree := FileTree.insert _ ["e"] .directory }
    (.fresh "e" pair_names ⟨⟨by decide, rfl, rfl⟩, ⟨by decide, rfl, rfl⟩, by decide, rfl, rfl⟩) rfl
  exact ⟨_, _, s₅, ps', hunpack, hpacked, hunpack', hfaces⟩

end ArchiveTool
end SceneText
