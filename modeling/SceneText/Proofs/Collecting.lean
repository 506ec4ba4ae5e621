import Mathlib.Data.List.Nodup
import SceneText.FileTree.NaturalOrder
import SceneText.Proofs.Places

/-!
# Collected files

What a listing of the files below a directory gives: all the files that a walk meets there with the
suffix, in some order, each under the path of its directory and a name of its own.
-/

namespace SceneText

open List SceneText.Path NaturalOrder

namespace FileTree

variable {tree : FileTree} {workDir loc : Location} {x : String}

theorem lastName_iff {l : Location} :
    (if l.length = loc.length + 1 && loc.isPrefixOf l then l.getLast? else none) = some x ↔
      l = loc ++ [x] := by
  constructor
  · intro h
    split at h
    · next hl =>
      rw [Bool.and_eq_true, decide_eq_true_eq, isPrefixOf_iff_prefix] at hl
      obtain ⟨hlength, rest, rfl⟩ := hl
      obtain ⟨y, rfl⟩ : ∃ y, rest = [y] := length_eq_one_iff.mp (by simpa using hlength)
      simpa using h
    · cases h
  · rintro rfl
    simp

theorem mem_names : x ∈ tree.names loc ↔ tree.find? (loc ++ [x]) ≠ none := by
  rw [names, mem_mergeSort, mem_filterMap]
  constructor
  · rintro ⟨e, he, hx⟩
    exact lastName_iff.mp hx ▸ find?_of_mem he
  · intro hnode
    obtain ⟨node, hnode⟩ := Option.ne_none_iff_exists'.mp hnode
    exact ⟨(loc ++ [x], node), mem_entries (by simp) hnode, lastName_iff.mpr rfl⟩

theorem insertEntry_new {node : Node} {entries : List (Location × Node)}
    (h : ∀ e ∈ entries, e.1 ≠ loc) : insertEntry loc node entries = entries ++ [(loc, node)] := by
  induction entries with
  | nil => rfl
  | cons e entries ih =>
    rw [insertEntry, if_neg (h e (by simp)), ih fun e' he' => h e' (by simp [he'])]
    rfl

theorem entries_storeAll {files : List (Location × List UInt8)}
    (hnew : ∀ f ∈ files, tree.find? f.1 = none) (hnodup : (files.map Prod.fst).Nodup) :
    (tree.storeAll files).entries = tree.entries ++ files.map fun f => (f.1, .file f.2 false) := by
  induction files generalizing tree with
  | nil => exact (append_nil _).symm
  | cons f files ih =>
    rw [map_cons, nodup_cons] at hnodup
    have hfirst := hnew f (by simp)
    have hroot : f.1 ≠ [] := by
      intro hroot
      rw [hroot] at hfirst
      cases hfirst
    have hentries : (tree.store f.1 f.2).entries = tree.entries ++ [(f.1, .file f.2 false)] :=
      insertEntry_new fun e he heq => find?_of_mem he (heq ▸ hfirst)
    have hrest : ∀ g ∈ files, (tree.store f.1 f.2).find? g.1 = none := by
      intro g hg
      have hne : g.1 ≠ f.1 := fun heq => hnodup.1 (heq ▸ mem_map_of_mem hg)
      rw [store, find?_insert hroot, if_neg hne, hnew g (by simp [hg])]
    calc ((tree.store f.1 f.2).storeAll files).entries =
        (tree.store f.1 f.2).entries ++ files.map fun g => (g.1, .file g.2 false) :=
          ih hrest hnodup.2
      _ = tree.entries ++ (f :: files).map fun g => (g.1, .file g.2 false) := by
          rw [hentries, append_assoc]
          rfl

section StoreAll

variable {α : Type} {items : List α} {name : α → String} {bytes : α → List UInt8}

theorem nodup_places (hnodup : (items.map name).Nodup) :
    ((items.map fun a => (loc ++ [name a], bytes a)).map Prod.fst).Nodup := by
  have hplaces : (items.map fun a => (loc ++ [name a], bytes a)).map Prod.fst =
      (items.map name).map fun x => loc ++ [x] := by
    rw [map_map, map_map]
    rfl
  rw [hplaces]
  exact hnodup.map fun a b hab => singleton_inj.mp (append_cancel_left hab)

theorem names_storeAll (hnew : ∀ x, tree.find? (loc ++ [x]) = none)
    (hnodup : (items.map name).Nodup) :
    ((tree.storeAll (items.map fun a => (loc ++ [name a], bytes a))).names loc).Perm
      (items.map name) := by
  rw [names, entries_storeAll (by simp [hnew]) (nodup_places hnodup)]
  refine (mergeSort_perm _ _).trans (List.Perm.of_eq ?_)
  rw [filterMap_append, map_map, filterMap_map]
  have hold : ∀ e ∈ tree.entries,
      (if e.1.length = loc.length + 1 && loc.isPrefixOf e.1 then e.1.getLast? else none) =
        none := by
    intro e he
    rw [Option.eq_none_iff_forall_ne_some]
    intro x hx
    exact find?_of_mem he (lastName_iff.mp hx ▸ hnew x)
  refine (congrArg (· ++ _) (filterMap_eq_nil_iff.mpr hold)).trans ?_
  rw [nil_append, ← filterMap_eq_map]
  exact filterMap_congr fun a _ => lastName_iff.mpr rfl

end StoreAll

theorem mem_walkWithin {depth : Nat} {top : String} {visit : Visit}
    (h : visit ∈ tree.walkWithin workDir depth top) (hx : x ∈ visit.files) :
    ∃ loc, x ∈ tree.names loc := by
  induction depth generalizing top with
  | zero => cases h
  | succ depth ih =>
    rw [walkWithin] at h
    split at h
    · cases h
    · next names hnames =>
      rcases mem_cons.mp h with rfl | h
      · rw [list] at hnames
        split at hnames
        · cases hnames
        · cases hnames
          exact ⟨_, (mem_filter.mp hx).1⟩
        · cases hnames
      · obtain ⟨name, -, h⟩ := mem_flatMap.mp h
        exact ih h

theorem Sound.name_of_visit (hsound : tree.Sound) {visit : Visit} {x : String}
    (hvisit : visit ∈ tree.walk workDir path) (hx : x ∈ visit.files) : IsName x := by
  obtain ⟨loc, hloc⟩ := mem_walkWithin hvisit hx
  obtain ⟨node, hnode⟩ := Option.ne_none_iff_exists'.mp (mem_names.mp hloc)
  exact hsound.named loc x node hnode

end FileTree

namespace Run

open Text

variable {s : Session} {path file : String} {suffix : Option String}

def filesBelow (tree : FileTree) (workDir : Location) (path : String) (suffix : Option String) :
    List String :=
  (tree.walk workDir path).flatMap fun visit =>
    (visit.files.filter (suffixMatches suffix)).map (join visit.path)

theorem mem_filesBelow (hsound : s.tree.Sound)
    (hfile : file ∈ filesBelow s.tree s.workDir path suffix) :
    ∃ top x, IsName x ∧ file = join top x := by
  obtain ⟨visit, hvisit, hfile⟩ := mem_flatMap.mp hfile
  obtain ⟨x, hx, rfl⟩ := mem_map.mp hfile
  exact ⟨visit.path, x, hsound.name_of_visit hvisit (mem_filter.mp hx).1, rfl⟩

theorem suffixMatches_iff {name : String} : suffixMatches suffix name = true ↔
    ∀ t, suffix = some t → lowerChars t.toList <:+ lowerChars name.toList := by
  cases suffix with
  | none => simp [suffixMatches]
  | some t => simp [suffixMatches, endsWith_iff]

/-- The files with a suffix are those whose names end in it, whatever the case of the letters. -/
theorem mem_filesBelow_iff (hsound : s.tree.Sound) :
    file ∈ filesBelow s.tree s.workDir path suffix ↔
      file ∈ filesBelow s.tree s.workDir path none ∧
        ∀ t, suffix = some t → lowerChars t.toList <:+ lowerChars (base file).toList := by
  rw [← suffixMatches_iff]
  simp only [filesBelow, mem_flatMap, mem_map, mem_filter]
  constructor
  · rintro ⟨visit, hvisit, x, ⟨hx, hmatches⟩, rfl⟩
    rw [base_join (hsound.name_of_visit hvisit hx)]
    exact ⟨⟨visit, hvisit, x, ⟨hx, rfl⟩, rfl⟩, hmatches⟩
  · rintro ⟨⟨visit, hvisit, x, ⟨hx, -⟩, rfl⟩, hmatches⟩
    rw [base_join (hsound.name_of_visit hvisit hx)] at hmatches
    exact ⟨visit, hvisit, x, ⟨hx, hmatches⟩, rfl⟩

theorem filled_of_mem_filesBelow (hsound : s.tree.Sound)
    (hfile : file ∈ filesBelow s.tree s.workDir path suffix) : file ≠ "" := by
  obtain ⟨top, x, hx, rfl⟩ := mem_filesBelow hsound hfile
  exact FileTree.join_ne_empty hx

/-- The place of a file in the order of a listing, as far as it has one. -/
def placeOf (workDir : Location) (path file : String) : Except Fault (List Piece) :=
  keyOf (between (absoluteParts workDir path) (absoluteParts workDir file))

theorem eval_keyed (hfilled : file ≠ "") :
    eval (keyed path file) s = eval (lift ((placeOf s.workDir path file).map (·, file))) s := by
  have hway : eval (relative file path) s = (.ok (between
      (absoluteParts s.workDir path) (absoluteParts s.workDir file)), s) := by
    rw [relative, if_neg (by simpa using hfilled)]
    rfl
  rw [keyed, eval_bind_ok hway, placeOf]
  cases keyOf _ <;> rfl

theorem sortKeyed_perm (entries : List (List Piece × String)) :
    (sortKeyed entries).Perm (entries.map Prod.snd) :=
  (mergeSort_perm _ _).map Prod.snd

def placed (workDir : Location) (path : String) (listed : List String) :
    List (List Piece × String) :=
  listed.map fun file => ((placeOf workDir path file).toOption.getD [], file)

theorem eval_sortListed_lift {listed : List String} (hfilled : ∀ file ∈ listed, file ≠ "") :
    eval (sortListed path listed) s =
      eval (lift ((listed.mapM fun file => (placeOf s.workDir path file).map (·, file)).map
        sortKeyed)) s := by
  rw [sortListed, eval_bind, eval_mapM_lift fun file hfile => eval_keyed (hfilled file hfile)]
  cases listed.mapM fun file => (placeOf s.workDir path file).map (·, file) <;> rfl

theorem eval_sortListed {listed : List String} (hfilled : ∀ file ∈ listed, file ≠ "")
    (hplaces : ∀ file ∈ listed, ∃ key, placeOf s.workDir path file = .ok key) :
    eval (sortListed path listed) s =
      (.ok (sortKeyed (placed s.workDir path listed)), s) := by
  rw [eval_sortListed_lift hfilled, Fault.mapM_ok _ _ listed fun file hfile => ?_]
  · rfl
  · obtain ⟨key, hkey⟩ := hplaces file hfile
    rw [hkey]
    rfl

theorem eval_collectFiles_eq (hplain : '\x00' ∉ path.toList)
    (hdir : s.tree.isDirectory s.workDir path = true) : eval (collectFiles path suffix) s =
      eval (sortListed path (filesBelow s.tree s.workDir path suffix)) s := by
  have hwalk : eval (walk path) s = (.ok (s.tree.walk s.workDir path), s) := by
    rw [walk, eval_bind_ok (eval_checkPath hplain s), eval_query]
  rw [collectFiles, eval_bind, isDirectory, eval_query]
  dsimp only
  rw [hdir, if_neg (by decide), eval_bind_ok hwalk]
  rfl

theorem eval_collectFiles (hsound : s.tree.Sound) (hplain : '\x00' ∉ path.toList)
    (hdir : s.tree.isDirectory s.workDir path = true)
    (hplaces : ∀ file ∈ filesBelow s.tree s.workDir path suffix,
      ∃ key, placeOf s.workDir path file = .ok key) :
    ∃ files, eval (collectFiles path suffix) s = (.ok files, s) ∧
      files.Perm (filesBelow s.tree s.workDir path suffix) := by
  have hrun := eval_sortListed (fun file hfile => filled_of_mem_filesBelow hsound hfile) hplaces
  refine ⟨_, (eval_collectFiles_eq hplain hdir).trans hrun,
    (sortKeyed_perm _).trans (List.Perm.of_eq ?_)⟩
  rw [placed, map_map]
  exact map_id _

end Run
end SceneText
