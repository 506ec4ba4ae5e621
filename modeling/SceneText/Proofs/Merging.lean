import Mathlib.Data.List.Perm.Basic
import SceneText.Tool.MergeSplit
import SceneText.Proofs.Collecting
import SceneText.Proofs.Marks
import SceneText.Proofs.NewDirectories
import SceneText.Proofs.Rewriting

/-!
# Merging and splitting

Documents that are merged and split again come back: the merged document has their entries one
document after the other, every entry labelled with the name of its file; the labels bring the
entries of one file together again, in their order, and are taken off.
-/

namespace SceneText.MergeSplitTool

open Run FileTree List SceneText.Path

/-- A file with a list of records. -/
structure Part where
  path : String
  records : List Fields

namespace Part

def name (part : Part) : String :=
  base part.path

def document (part : Part) : Json :=
  .arr (part.records.map .obj)

def bytes (part : Part) : List UInt8 :=
  Utf8.encode part.document.indented.toList

def label (part : Part) (fields : Fields) : Fields :=
  Json.setField "file" (.str part.name) fields

def entries (part : Part) : List Json :=
  part.records.map fun fields => .obj (part.label fields)

def group (part : Part) : Json × List Json :=
  (.str part.name, part.records.map .obj)

end Part

/-- The files below a directory that are to be merged. Their documents can be told apart by their
names, every one holds records, and none of these has a label yet. All have a place in the order in
which they are collected. -/
structure Mergeable (s : Session) (dir : String) (parts : List Part) : Prop where
  plain : '\x00' ∉ dir.toList
  directory : s.tree.isDirectory s.workDir dir = true
  found : (parts.map Part.path).Perm (filesBelow s.tree s.workDir dir (some "json"))
  placed : ∀ part ∈ parts, ∃ key, placeOf s.workDir dir part.path = .ok key
  held : ∀ part ∈ parts, HoldsDocument s part.path part.document
  filled : ∀ part ∈ parts, part.records ≠ []
  unlabelled : ∀ part ∈ parts, ∀ fields ∈ part.records, fields.lookup "file" = none
  distinct : (parts.map Part.name).Nodup

def merged (parts : List Part) : Json :=
  .arr (parts.flatMap Part.entries)

variable {s : Session} {dir : String} {parts : List Part} {part : Part}

namespace Mergeable

variable (h : Mergeable s dir parts)
include h

theorem perm {parts' : List Part} (hperm : parts'.Perm parts) : Mergeable s dir parts' where
  plain := h.plain
  directory := h.directory
  found := (hperm.map _).trans h.found
  placed part hpart := h.placed part (hperm.subset hpart)
  held part hpart := h.held part (hperm.subset hpart)
  filled part hpart := h.filled part (hperm.subset hpart)
  unlabelled part hpart := h.unlabelled part (hperm.subset hpart)
  distinct := (hperm.map Part.name).nodup_iff.mpr h.distinct

theorem collected (hsound : s.tree.Sound) :
    ∃ parts' : List Part, parts'.Perm parts ∧
      eval (collectFiles dir (some "json")) s = (.ok (parts'.map Part.path), s) := by
  have hplaces : ∀ file ∈ filesBelow s.tree s.workDir dir (some "json"),
      ∃ key, placeOf s.workDir dir file = .ok key := by
    intro file hfile
    obtain ⟨part, hpart, rfl⟩ := mem_map.mp (h.found.symm.subset hfile)
    exact h.placed part hpart
  obtain ⟨files, hrun, hfiles⟩ := eval_collectFiles hsound h.plain h.directory hplaces
  have hperm : files.Perm (parts.map Part.path) := hfiles.trans h.found.symm
  obtain ⟨parts', rfl, hparts⟩ := (congrFun₂ (eq_map_comp_perm Part.path) files parts).mpr hperm
  exact ⟨parts', hparts, hrun⟩

theorem proper (hsound : s.tree.Sound) (hpart : part ∈ parts) :
    IsName part.name ∧ (Clean.ofText part.path).name = part.name := by
  obtain ⟨top, x, hx, hpath⟩ := mem_filesBelow hsound (h.found.subset (mem_map_of_mem hpart))
  have hname : part.name = x := by rw [Part.name, hpath, base_join hx]
  exact ⟨hname ▸ hx, by rw [hname, hpath, name_join hx]⟩

theorem storable (hpart : part ∈ parts) : ∀ fields ∈ part.records, LengthsTool.Storable fields := by
  intro fields hfields
  obtain ⟨bytes, -, hdocument⟩ := h.held part hpart
  obtain ⟨hregular, hdepth⟩ := item_regular hdocument (.obj fields) (mem_map_of_mem hfields)
  exact ⟨hregular, hdepth⟩

end Mergeable

theorem labelled_document (h : (Clean.ofText part.path).name = part.name) :
    labelled part.path part.document = .ok part.entries := by
  unfold labelled Part.document
  dsimp only
  rw [h, mapM_map]
  exact Fault.mapM_ok _ _ _ fun _ _ => rfl

theorem eval_loadLabelled (hheld : HoldsDocument s part.path part.document)
    (hname : (Clean.ofText part.path).name = part.name) :
    eval (loadLabelled part.path) s = (.ok part.entries, s) := by
  obtain ⟨loc, bytes, hfile, -⟩ := hheld.holds
  obtain ⟨readOnly, hnode⟩ := hfile.stored
  have hthere : s.tree.isFile s.workDir part.path = true := by
    rw [FileTree.isFile, stat_ok.mpr ⟨hfile.located, hnode⟩]
  rw [loadLabelled, eval_bind, Run.isFile, eval_query]
  dsimp only
  rw [hthere, if_pos rfl, eval_bind_ok hheld.read, labelled_document hname, eval_lift]

theorem eval_merge (hsound : s.tree.Sound) (h : Mergeable s dir parts)
    (hcollected : eval (collectFiles dir (some "json")) s = (.ok (parts.map Part.path), s))
    {m : String} {place : Location} (hm : s.tree.Opens s.workDir m place) :
    eval (merge (some dir) (some m)) s = (.ok (), { s with
      tree := s.tree.store place (Utf8.encode (merged parts).indented.toList) }) := by
  have hload := eval_mapM parts fun part hpart =>
    eval_loadLabelled (h.held part hpart) (h.proper hsound hpart).2
  have hpath : ∀ path, eval (pathOf (some path)) s = (.ok path, s) := fun _ => rfl
  rw [merge, eval_bind_ok (hpath dir), eval_bind_ok hcollected, eval_bind_ok hload,
    eval_bind_ok (hpath m), writeJson, writeText, eval_writeBytes hm, ← flatMap_def]
  rfl

section Groups

variable {groups : List (Json × List Json)} {file entry : Json} {entries rest : List Json}

theorem addToGroup_new (h : ∀ g ∈ groups, g.1.sameKey file = false) :
    addToGroup file entry groups = groups ++ [(file, [entry])] := by
  induction groups with
  | nil => rfl
  | cons g groups ih =>
    rw [addToGroup, h g (by simp), if_neg (by decide), ih fun g' hg' => h g' (by simp [hg'])]
    rfl

theorem addToGroup_last (h : ∀ g ∈ groups, g.1.sameKey file = false)
    (hself : file.sameKey file = true) :
    addToGroup file entry (groups ++ [(file, entries)]) =
      groups ++ [(file, entries ++ [entry])] := by
  induction groups with
  | nil => rw [nil_append, addToGroup, if_pos hself, nil_append]
  | cons g groups ih =>
    rw [cons_append, addToGroup, h g (by simp), if_neg (by decide),
      ih fun g' hg' => h g' (by simp [hg'])]
    rfl

theorem sameKey_str (a b : String) : (Json.str a).sameKey (.str b) = decide (a = b) := rfl

theorem groupByFile_label (hname : part.name ≠ "") {fields : Fields}
    (hfields : fields.lookup "file" = none) :
    groupByFile groups (.obj (part.label fields) :: rest) =
      groupByFile (addToGroup (.str part.name) (.obj fields) groups) rest := by
  have hfile : (part.label fields).lookup "file" = some (.str part.name) := by
    rw [Part.label, lookup_setField, if_pos rfl]
  have hdrop : Json.dropField "file" (part.label fields) = fields := by
    rw [Part.label, dropField_setField, dropField_absent hfields]
  rw [groupByFile, hfile, hdrop]
  rw [if_neg (by simpa [Json.truthy] using hname)]
  rfl

theorem groupByFile_records (hname : part.name ≠ "")
    (hnew : ∀ g ∈ groups, g.1.sameKey (.str part.name) = false)
    {records : List Fields}
    (hrecords : ∀ fields ∈ records, fields.lookup "file" = none) :
    groupByFile (groups ++ [(.str part.name, entries)])
        (records.map (fun fields => .obj (part.label fields)) ++ rest) =
      groupByFile (groups ++ [(.str part.name, entries ++ records.map .obj)]) rest := by
  induction records generalizing entries with
  | nil => simp
  | cons fields records ih =>
    rw [map_cons, cons_append, groupByFile_label hname (hrecords fields (by simp)),
      addToGroup_last hnew (by simp [sameKey_str]), ih fun f hf => hrecords f (by simp [hf])]
    simp

theorem groupByFile_part (hname : part.name ≠ "") (hfilled : part.records ≠ [])
    (hnew : ∀ g ∈ groups, g.1.sameKey (.str part.name) = false)
    (hrecords : ∀ fields ∈ part.records, fields.lookup "file" = none) :
    groupByFile groups (part.entries ++ rest) = groupByFile (groups ++ [part.group]) rest := by
  obtain ⟨fields, records, hsplit⟩ := exists_cons_of_ne_nil hfilled
  rw [hsplit] at hrecords
  rw [Part.entries, hsplit, map_cons, cons_append,
    groupByFile_label hname (hrecords fields (by simp)), addToGroup_new hnew,
    groupByFile_records hname hnew fun f hf => hrecords f (by simp [hf]), Part.group, hsplit]
  rfl

theorem groupByFile_parts (hnames : ∀ part ∈ parts, part.name ≠ "")
    (hfilled : ∀ part ∈ parts, part.records ≠ [])
    (hrecords : ∀ part ∈ parts, ∀ fields ∈ part.records, fields.lookup "file" = none)
    (hnew : ∀ g ∈ groups, ∀ part ∈ parts, g.1.sameKey (.str part.name) = false)
    (hdistinct : (parts.map Part.name).Nodup) :
    groupByFile groups (parts.flatMap Part.entries) = .ok (groups ++ parts.map Part.group) := by
  induction parts generalizing groups with
  | nil => simp [groupByFile]
  | cons part parts ih =>
    rw [map_cons, nodup_cons] at hdistinct
    rw [flatMap_cons, groupByFile_part (hnames part (by simp)) (hfilled part (by simp))
      (fun g hg => hnew g hg part (by simp)) (hrecords part (by simp)),
      ih (fun p hp => hnames p (by simp [hp])) (fun p hp => hfilled p (by simp [hp]))
        (fun p hp => hrecords p (by simp [hp])) ?_ hdistinct.2]
    · simp
    · intro g hg p hp
      rcases mem_append.mp hg with hg | hg
      · exact hnew g hg p (by simp [hp])
      · rw [mem_singleton.mp hg, Part.group, sameKey_str, decide_eq_false_iff_not]
        exact fun heq => hdistinct.1 (heq ▸ mem_map_of_mem hp)

end Groups

def writtenAt (loc : Location) (parts : List Part) : List (Location × List UInt8) :=
  parts.map fun part => (loc ++ [part.name], part.bytes)

theorem eval_writeGroups {out : String} {loc : Location}
    (h : ∀ part ∈ parts, s.tree.Opens s.workDir (join out part.name) (loc ++ [part.name])) :
    eval ((parts.map Part.group).forM (writeGroup out)) s =
      (.ok (), { s with tree := s.tree.storeAll (writtenAt loc parts) }) := by
  induction parts generalizing s with
  | nil => rfl
  | cons part parts ih =>
    have hopens := h part (by simp)
    have hwrite : eval (writeGroup out part.group) s =
        (.ok (), { s with tree := s.tree.store (loc ++ [part.name]) part.bytes }) := by
      rw [writeGroup, Part.group]
      dsimp only
      rw [writeJson, writeText, eval_writeBytes hopens]
      rfl
    refine (eval_bind_ok hwrite _).trans (ih ?_)
    exact fun p hp => (h p (by simp [hp])).store hopens _

section Written

variable {t : Session} {out : String} {loc : Location} (hleads : t.tree.Leads t.workDir out loc)
  (hempty : ∀ more, more ≠ [] → t.tree.find? (loc ++ more) = none)
  (hfits : ∀ part ∈ parts, Fits out part.name)

include hleads hempty hfits

theorem opens_part (hpart : part ∈ parts) :
    t.tree.Opens t.workDir (join out part.name) (loc ++ [part.name]) := by
  exact hleads.opens_join (hfits part hpart) (overwritable_of_free (hempty [part.name] (by simp)))

theorem open_writtenAt : t.tree.Open t.workDir (writtenAt loc parts) := by
  intro f hf
  obtain ⟨part, hpart, rfl⟩ := mem_map.mp hf
  exact ⟨_, opens_part hleads hempty hfits hpart⟩

variable (hdistinct : (parts.map Part.name).Nodup)

include hdistinct

theorem holdsDocument_written (hpart : part ∈ parts)
    (hstorable : ∀ fields ∈ part.records, LengthsTool.Storable fields) :
    HoldsDocument { t with tree := t.tree.storeAll (writtenAt loc parts) }
      (join out part.name) part.document := by
  have hopens := opens_part hleads hempty hfits hpart
  have hopen := open_writtenAt hleads hempty hfits
  have hstored : (t.tree.storeAll (writtenAt loc parts)).find? (loc ++ [part.name]) =
      some (.file part.bytes false) :=
    hopen.find?_stored (nodup_places hdistinct) (mem_map_of_mem hpart)
  refine ⟨_, reads_iff.mpr ⟨hopens.plain, hopens.read hopen.toExtends hstored⟩, ?_⟩
  exact LengthsTool.documentOf_records hstorable

theorem list_written (hfilled : out ≠ "") (hshort : isOverlong out = false) :
    ∃ names, (t.tree.storeAll (writtenAt loc parts)).list t.workDir out = .ok names ∧
      names.Perm (parts.map Part.name) := by
  have hopen := open_writtenAt hleads hempty hfits
  have hstat := (hleads.extend hopen.toExtends).stat_self hfilled hshort
  refine ⟨_, by rw [FileTree.list, hstat], ?_⟩
  exact names_storeAll (fun x => hempty [x] (by simp)) hdistinct

end Written

theorem eval_split (hsound : s.tree.Sound) (h : Mergeable s dir parts) {m out : String}
    {t : Session} (hm : HoldsDocument t m (merged parts)) {clear loc : Location}
    (hout : t.tree.Vacant t.workDir out clear loc)
    (hshort : ∀ part ∈ parts, isOverlong (join out part.name) = false) :
    ∃ t', eval (split (some m) (some out)) t = (.ok (), t') ∧
      (∀ part ∈ parts, HoldsDocument t' (join out part.name) part.document) ∧
      ∃ names, t'.tree.list t'.workDir out = .ok names ∧ names.Perm (parts.map Part.name) := by
  have hproper := fun part (hpart : part ∈ parts) => (h.proper hsound hpart).1
  have hgroups : groupByFile [] (parts.flatMap Part.entries) = .ok (parts.map Part.group) :=
    groupByFile_parts (fun part hpart => (hproper part hpart).filled) h.filled h.unlabelled
      (by simp) h.distinct
  have hfits : ∀ part ∈ parts, Fits out part.name :=
    fun part hpart => ⟨hproper part hpart, hshort part hpart⟩
  obtain ⟨made, hmake, hleads, hempty⟩ := eval_makeDirectories_vacant hout
  refine ⟨{ made with tree := made.tree.storeAll (writtenAt loc parts) }, ?_, ?_, ?_⟩
  · have hpath : ∀ path u, eval (pathOf (some path)) u = (.ok path, u) := fun _ _ => rfl
    rw [split, eval_bind_ok (hpath m t), eval_bind_ok hm.read]
    dsimp only [merged]
    rw [hgroups, eval_bind_ok (eval_lift _ _), eval_bind_ok (hpath out t), eval_bind_ok hmake]
    exact eval_writeGroups fun part hpart => opens_part hleads hempty hfits hpart
  · intro part hpart
    exact holdsDocument_written hleads hempty hfits h.distinct hpart (h.storable hpart)
  · exact list_written hleads hempty hfits h.distinct hout.usable.1 hout.usable.2

theorem documentOf_merged (h : Mergeable s dir parts) :
    documentOf (Utf8.encode (merged parts).indented.toList) = .ok (merged parts) := by
  apply documentOf_items
  intro entry hentry
  obtain ⟨part, hpart, hentry⟩ := mem_flatMap.mp hentry
  obtain ⟨fields, hfields, rfl⟩ := mem_map.mp hentry
  have hstorable := (h.storable hpart fields hfields).setText "file" part.name
  exact ⟨hstorable.regular, hstorable.depth⟩

def chapters : List Part :=
  [⟨"in/10.json", [[("name", .str "A"), ("message", .str "b")], [("message", .str "c")]]⟩,
   ⟨"in/2.json", [[("message", .str "d"), ("is_title", .bool true)]]⟩,
   ⟨"in/more/1.json", [[("message", .str "b"), ("name", .str "A")]]⟩]

def library : Session where
  tree :=
    let file (i : Fin 3) := Node.file (chapters[i]).bytes false
    ⟨[(["in"], .directory), (["in", "10.json"], file 0), (["in", "2.json"], file 1),
      (["in", "more"], .directory), (["in", "more", "1.json"], file 2)]⟩
  workDir := []

theorem names_library : library.tree.names ["in"] = ["10.json", "2.json", "more"] ∧
    library.tree.names ["in", "more"] = ["1.json"] :=
  ⟨(mergeSort_of_pairwise (by decide +kernel)).trans (by decide +kernel),
    (mergeSort_of_pairwise (by decide +kernel)).trans (by decide +kernel)⟩

theorem walk_library : library.tree.walk library.workDir "in" =
    [⟨"in", ["more"], ["10.json", "2.json"]⟩, ⟨"in/more", [], ["1.json"]⟩] := by
  have hin : library.tree.list library.workDir "in" = .ok ["10.json", "2.json", "more"] := by
    rw [← names_library.1]
    rfl
  have hmore : library.tree.list library.workDir "in/more" = .ok ["1.json"] := by
    rw [← names_library.2]
    rfl
  rw [FileTree.walk, walkWithin, hin]
  have hbelow : (["more"].flatMap fun n =>
      library.tree.walkWithin library.workDir 6 (join "in" n)) =
      [⟨"in/more", [], ["1.json"]⟩] := by
    have hjoin : join "in" "more" = "in/more" := by decide
    rw [flatMap_cons, flatMap_nil, append_nil, hjoin, walkWithin, hmore]
    rfl
  exact congrArg (List.cons _) hbelow

theorem storable_chapters :
    ∀ part ∈ chapters, ∀ fields ∈ part.records, LengthsTool.Storable fields := by
  intro part hpart fields hfields
  simp only [chapters, mem_cons, not_mem_nil, or_false] at hpart
  rcases hpart with rfl | rfl | rfl <;>
    simp only [mem_cons, not_mem_nil, or_false] at hfields
  · rcases hfields with rfl | rfl <;>
      exact ⟨by simp [Json.Regular, Json.RegularFields], by decide⟩
  · rw [hfields]
    exact ⟨by simp [Json.Regular, Json.RegularFields], by decide⟩
  · rw [hfields]
    exact ⟨by simp [Json.Regular, Json.RegularFields], by decide⟩

theorem mergeable_library : Mergeable library "in" chapters where
  plain := by decide
  directory := by decide +kernel
  found := by
    rw [filesBelow, walk_library]
    decide +kernel
  placed := by
    intro part hpart
    simp only [chapters, mem_cons, not_mem_nil, or_false] at hpart
    rcases hpart with rfl | rfl | rfl <;> exact ⟨_, rfl⟩
  held := by
    have hread : ∀ part ∈ chapters, Reads library part.path part.bytes := by
      intro part hpart
      simp only [chapters, mem_cons, not_mem_nil, or_false] at hpart
      rcases hpart with rfl | rfl | rfl <;> rfl
    exact fun part hpart =>
      ⟨_, hread part hpart, LengthsTool.documentOf_records (storable_chapters part hpart)⟩
  filled := by decide
  unlabelled := by decide +kernel
  distinct := by decide +kernel

end SceneText.MergeSplitTool
