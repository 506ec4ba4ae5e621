import Mathlib.Data.List.DropRight
import SceneText.Proofs.Places

/-!
# New directories

A directory that is made with all the missing directories above it: nothing that was there changes,
the path leads to the new directory, and the new directory is empty. One that is there already is
left as it is. This holds for every way to write the path.
-/

namespace SceneText

open List SceneText.Path Text

namespace FileTree

variable {tree : FileTree} {workDir dir : Location} {top x y path : String} {names : List String}

structure Spells (workDir : Location) (top : String) (names : List String) (path : String) :
    Prop where
  plain : '\x00' ∉ path.toList
  short : isOverlong path = false
  start : startOf workDir path = startOf workDir top
  parts : filledParts path = filledParts top ++ names

namespace Spells

theorem ne_empty (h : Spells workDir top names path) (hnames : names ≠ []) : path ≠ "" := by
  rintro rfl
  exact hnames (append_eq_nil_iff.mp h.parts.symm).2

theorem front (h : Spells workDir top names path) {p rest : String} {first : List String}
    (hpath : path = p ++ rest) (hempty : p = "" → isAbsolute path = false)
    (hparts : filledParts p = filledParts top ++ first) : Spells workDir top first p := by
  have hplain := h.plain
  have hshort := isOverlong_eq_false.mp h.short
  rw [hpath, String.toList_append, mem_append, not_or] at hplain
  rw [hpath, String.utf8ByteSize_append] at hshort
  refine ⟨hplain.1, isOverlong_eq_false.mpr (by omega), ?_, hparts⟩
  rw [← h.start, startOf, startOf]
  by_cases hp : p = ""
  · rw [hempty hp, hp]
    rfl
  · rw [hpath, isAbsolute_append _ hp]

theorem trim (h : Spells workDir top names path) (hnames : names ≠ []) {p : String} {n : Nat}
    (hpath : path = p ++ String.ofList (List.replicate n '/')) : Spells workDir top names p := by
  have hparts : filledParts p = filledParts top ++ names := by
    rw [← h.parts, hpath, filledParts_slashes]
  refine h.front hpath (fun hp => ?_) hparts
  rw [hp] at hparts
  exact absurd (append_eq_nil_iff.mp hparts.symm).2 hnames

theorem split_base (h : Spells workDir top (names ++ [y]) path) (hbase : base path ≠ "") :
    base path = y ∧ Spells workDir top names (directory path) := by
  have hparts := h.parts
  rw [filledParts_base hbase, ← append_assoc] at hparts
  obtain ⟨hdirectory, hlast⟩ := append_inj' hparts rfl
  refine ⟨singleton_inj.mp hlast, ?_⟩
  obtain ⟨front, n, hpath, -, hfront, hempty⟩ := directory_base path
  refine h.front (hpath.trans (by rw [hfront, String.append_assoc])) (fun hnone => ?_) hdirectory
  rw [hempty hnone, String.empty_append] at hpath
  rw [isAbsolute, hasPrefix, Bool.eq_false_iff, Ne, isPrefixOf_iff_prefix, hpath]
  exact fun hslash => base_noSlash path (hslash.subset (by simp))

theorem split (h : Spells workDir top (names ++ [y]) path) :
    ∃ head, Run.splitForMaking path = (head, y) ∧ Spells workDir top names head ∧
      Spells workDir head [y] path := by
  have hlast : ∀ head, Spells workDir top names head → Spells workDir head [y] path := by
    intro head hhead
    refine ⟨h.plain, h.short, h.start.trans hhead.start.symm, ?_⟩
    rw [h.parts, hhead.parts, append_assoc]
  unfold Run.splitForMaking
  by_cases hbase : base path = ""
  · have hfilled : filledParts path ≠ [] := by simp [h.parts]
    have hbase' := base_directory hbase hfilled
    obtain ⟨front, n, hpath, -, hfront, -⟩ := directory_base path
    rw [hbase, String.append_empty] at hpath
    have htrimmed := h.trim (by simp) (hpath.trans hfront)
    obtain ⟨hy, hhead⟩ := htrimmed.split_base hbase'
    refine ⟨_, ?_, hhead, hlast _ hhead⟩
    rw [if_pos (by simp [hbase]), hy]
  · obtain ⟨hy, hhead⟩ := h.split_base hbase
    refine ⟨_, ?_, hhead, hlast _ hhead⟩
    rw [if_neg (by simpa using hbase), hy]

end Spells

theorem splitForMaking_bare (hparts : filledParts path = []) {head tail : String}
    (hsplit : Run.splitForMaking path = (head, tail)) : tail = "" := by
  have hbare : ∀ p, filledParts p = [] → base p = "" := by
    intro p hp
    by_contra hbase
    rw [filledParts_base hbase] at hp
    simp at hp
  unfold Run.splitForMaking at hsplit
  rw [if_pos (by simp [hbare path hparts])] at hsplit
  rw [← (Prod.mk.inj hsplit).2]
  exact hbare _ (by rw [filledParts_directory (hbare path hparts), hparts])

theorem withoutTrailingSlash_eq (path : String) :
    ∃ n, path = withoutTrailingSlash path ++ String.ofList (List.replicate n '/') := by
  unfold withoutTrailingSlash
  split
  · exact ⟨0, by simp⟩
  · obtain ⟨n, hn⟩ := dropTrailingSlashes_eq path.toList
    exact ⟨n, by rw [← String.ofList_append, ← hn, String.ofList_toList]⟩

theorem withoutTrailingSlash_ne (hfilled : path ≠ "") : withoutTrailingSlash path ≠ "" := by
  unfold withoutTrailingSlash
  split
  · exact hfilled
  · next hchars => simpa using hchars

theorem withoutTrailingSlash_idem (path : String) :
    withoutTrailingSlash (withoutTrailingSlash path) = withoutTrailingSlash path := by
  cases hchars : dropTrailingSlashes path.toList with
  | nil =>
    have hsame : withoutTrailingSlash path = path := by rw [withoutTrailingSlash, hchars]
    rw [hsame, hsame]
  | cons c rest =>
    have hstripped : withoutTrailingSlash path = String.ofList (c :: rest) := by
      rw [withoutTrailingSlash, hchars]
    have htwice : dropTrailingSlashes (c :: rest) = c :: rest := by
      rw [← hchars, dropTrailingSlashes, dropTrailingSlashes, reverse_reverse, dropWhile_idempotent]
    rw [hstripped, withoutTrailingSlash, String.toList_ofList, htwice]

theorem namesOf_withoutTrailingSlash (hfilled : filledParts path ≠ []) :
    namesOf (withoutTrailingSlash path) = filledParts path := by
  obtain ⟨n, hn⟩ := withoutTrailingSlash_eq path
  have hparts := filledParts_slashes (withoutTrailingSlash path) n
  rw [← hn] at hparts
  have hslash : hasSuffix (withoutTrailingSlash path) "/" = false := by
    rw [Bool.eq_false_iff, Ne, hasSuffix_iff]
    rintro ⟨u, hu⟩
    unfold withoutTrailingSlash at hu
    split at hu
    · next hnone =>
      -- A path of nothing but slashes goes through no names.
      obtain ⟨k, hk⟩ := dropTrailingSlashes_eq path.toList
      have hbare := filledParts_slashes "" k
      rw [hnone, nil_append] at hk
      rw [← hk, String.ofList_toList, String.empty_append] at hbare
      exact hfilled hbare
    · have hchars := congrArg String.toList hu
      rw [String.toList_ofList, String.toList_append] at hchars
      exact dropTrailingSlashes_ne _ _ hchars
  rw [namesOf, hslash, hparts]
  rfl

namespace Leads

theorem stat_self (h : tree.Leads workDir path dir) (hfilled : path ≠ "")
    (hshort : isOverlong path = false) : tree.stat workDir path = .ok (dir, .directory) :=
  h.stat_of_parts hfilled hshort rfl rfl

section

variable (h : tree.Leads workDir top dir)
include h

theorem spelled (hpath : Spells workDir top [] path) : tree.Leads workDir path dir := by
  refine ⟨hpath.plain, ?_, h.directory⟩
  rw [hpath.start, hpath.parts, append_nil]
  exact h.followed

theorem spelled_name (hpath : Spells workDir top [x] path)
    (hx : IsName x) (hdir : tree.find? (dir ++ [x]) = some .directory) :
    tree.Leads workDir path (dir ++ [x]) := by
  refine ⟨hpath.plain, ?_, hdir⟩
  rw [hpath.start, hpath.parts]
  exact h.follow_name hx (by simp [hdir]) true

theorem stat_missing (hpath : Spells workDir top (x :: names) path) (hx : IsName x)
    (hnone : tree.find? (dir ++ [x]) = none) : tree.stat workDir path = .error .missing := by
  have hmore : ∀ more, more ≠ [] → tree.followFrom true (linkLimit + 1) (startOf workDir top)
      (filledParts top ++ x :: more) = .error .missing := by
    intro more hmore
    refine h.follow_more (by simp) fun rest => ?_
    rw [followFrom, advance_missing (.of_name h.directory hx) hnone hmore]
  rw [stat, locate_of_short (hpath.ne_empty (by simp)) hpath.short, hpath.start]
  rcases namesOf_cases path with hparts | hparts
  · rw [hparts, hpath.parts]
    by_cases hlast : names = []
    · rw [hlast, h.follow_name hx (by simp [hnone])]
      dsimp only
      rw [hnone]
    · rw [hmore names hlast]
  · rw [hparts, hpath.parts, append_assoc, cons_append, hmore _ (by simp)]

theorem makeDirectory_new (hpath : Spells workDir top [x] path)
    (hx : IsName x) (hnone : tree.find? (dir ++ [x]) = none) :
    tree.makeDirectory workDir path = .ok (tree.insert (dir ++ [x]) .directory) := by
  obtain ⟨n, hn⟩ := withoutTrailingSlash_eq path
  have htrimmed := hpath.trim (by simp) hn
  have hloc : tree.locate false workDir (withoutTrailingSlash path) = .ok (dir ++ [x]) := by
    rw [locate_of_short (htrimmed.ne_empty (by simp)) htrimmed.short, htrimmed.start,
      namesOf_withoutTrailingSlash (by simp [hpath.parts]), hpath.parts]
    exact h.follow_name hx (by simp [hnone]) false
  rw [makeDirectory, hpath.short, if_neg (by decide), hloc]
  dsimp only
  rw [hnone]

/-- A directory made where nothing was is led to, and nothing is below it. -/
theorem made (hpath : Spells workDir top [x] path) (hx : IsName x)
    (hnone : ∀ more, tree.find? (dir ++ x :: more) = none) :
    tree.Grows (tree.insert (dir ++ [x]) .directory) ∧
      (tree.insert (dir ++ [x]) .directory).Leads workDir path (dir ++ [x]) ∧
      ∀ more, more ≠ [] →
        (tree.insert (dir ++ [x]) .directory).find? (dir ++ [x] ++ more) = none := by
  have hgrows := Grows.insert_directory (hnone [])
  refine ⟨hgrows, ?_, fun more hmore => ?_⟩
  · exact (h.extend hgrows.toExtends).spelled_name hpath hx (by
      rw [find?_insert (by simp), if_pos rfl])
  · rw [find?_insert (by simp), if_neg (by simpa using hmore), append_assoc]
    exact hnone more

end

theorem stat_head (h : tree.Leads workDir path dir) (hshort : isOverlong path = false)
    {head tail : String} (hsplit : Run.splitForMaking path = (head, tail)) (hhead : head ≠ "")
    (htail : tail ≠ "") : ∃ dir', tree.stat workDir head = .ok (dir', .directory) := by
  rcases eq_nil_or_concat (filledParts path) with hparts | ⟨names, y, hparts⟩
  · exact absurd (splitForMaking_bare hparts hsplit) htail
  · rw [concat_eq_append] at hparts
    -- The path goes through its own parts from the root or from the working directory.
    have hspells : Spells workDir (if isAbsolute path then "/" else "") (names ++ [y]) path := by
      refine ⟨h.plain, hshort, ?_, ?_⟩
      · unfold startOf
        split <;> rfl
      · split <;> exact hparts
    obtain ⟨head', hsplit', hfront, hlast⟩ := hspells.split
    obtain rfl : head' = head := (Prod.mk.inj (hsplit'.symm.trans hsplit)).1
    have hfollowed := h.followed
    rw [hlast.start, hlast.parts] at hfollowed
    obtain ⟨dir', hreached, hdir'⟩ := followFrom_front (by simp) hfollowed
    exact ⟨dir', stat_self ⟨hfront.plain, hreached, hdir'⟩ hhead hfront.short⟩

end Leads

/-- A path to an empty directory, or to one that can be made where nothing is yet. Nothing lies
below the first location but, in an empty directory, the directory itself. -/
inductive Vacant (tree : FileTree) (workDir : Location) (path : String) :
    Location → Location → Prop
  | empty {loc : Location} (plain : '\x00' ∉ path.toList)
      (there : tree.stat workDir path = .ok (loc, .directory))
      (nothing : ∀ more, more ≠ [] → tree.find? (loc ++ more) = none) :
      Vacant tree workDir path loc loc
  | absent {top x : String} {dir : Location} {names : List String}
      (above : tree.Leads workDir top dir) (spells : Spells workDir top (x :: names) path)
      (proper : ∀ y ∈ x :: names, IsName y)
      (nothing : ∀ more, tree.find? (dir ++ x :: more) = none) :
      Vacant tree workDir path (dir ++ [x]) (dir ++ x :: names)

namespace Vacant

variable {clear loc : Location}

theorem usable (h : tree.Vacant workDir path clear loc) : path ≠ "" ∧ isOverlong path = false := by
  cases h with
  | empty _ there _ => exact stat_short there
  | absent _ spells _ _ => exact ⟨spells.ne_empty (by simp), spells.short⟩

theorem store (h : tree.Vacant workDir path clear loc) {other : String} {place : Location}
    (hopens : tree.Opens workDir other place) (hapart : ¬ clear <+: place) (bytes : List UInt8) :
    (tree.store place bytes).Vacant workDir path clear loc := by
  have hext := hopens.extends_store bytes
  have hnone : ∀ l, clear <+: l → tree.find? l = none →
      (tree.store place bytes).find? l = none := by
    intro l hl hnone
    rw [hopens.find?_store, if_neg (by rintro rfl; exact hapart hl), hnone]
  cases h with
  | empty plain there nothing =>
    refine .empty plain (hext.stat there (hext.ways _ _ rfl (stat_ok.mp there).2)) ?_
    exact fun more hmore => hnone _ (prefix_append _ _) (nothing more hmore)
  | @absent top x dir names above spells proper nothing =>
    refine .absent (above.extend hext) spells proper fun more => hnone _ ?_ (nothing more)
    exact ⟨more, by simp⟩

end Vacant

theorem makeDirectory_kept (hplain : '\x00' ∉ path.toList)
    (h : tree.stat workDir path = .ok (dir, .directory)) :
    ∃ cause, tree.makeDirectory workDir path = .error cause := by
  obtain ⟨hfilled, hshort⟩ := stat_short h
  have hleads := Leads.of_stat hplain h
  obtain ⟨n, hn⟩ := withoutTrailingSlash_eq path
  have hfilled' := withoutTrailingSlash_ne hfilled
  have hshort' : isOverlong (withoutTrailingSlash path) = false := by
    have hsize := isOverlong_eq_false.mp hshort
    rw [hn, String.utf8ByteSize_append] at hsize
    exact isOverlong_eq_false.mpr (by omega)
  have hbare : tree.stat workDir (withoutTrailingSlash path) = .ok (dir, .directory) := by
    refine hleads.stat_of_parts hfilled' hshort' ?_ ?_
    · rw [startOf, startOf, ← isAbsolute_append _ hfilled', ← hn]
    · rw [← filledParts_slashes _ n, ← hn]
  have hmake : tree.makeDirectory workDir path =
      tree.makeDirectory workDir (withoutTrailingSlash path) := by
    rw [makeDirectory, makeDirectory, hshort, hshort', withoutTrailingSlash_idem]
  rw [hmake]
  exact makeDirectory_there (withoutTrailingSlash_idem path) hbare

end FileTree

namespace Run

open FileTree

variable {s : Session} {top x path : String} {dir : Location} {names : List String}

theorem eval_makeDirectory_new (h : s.tree.Leads s.workDir top dir)
    (hpath : Spells s.workDir top [x] path) (hx : IsName x)
    (hnone : s.tree.find? (dir ++ [x]) = none) :
    eval (makeDirectory true path) s =
      (.ok (), { s with tree := s.tree.insert (dir ++ [x]) .directory }) := by
  rw [makeDirectory, eval_bind, eval_attempt, eval_change hpath.plain,
    h.makeDirectory_new hpath hx hnone]
  rfl

theorem eval_makeDirectory_kept (hplain : '\x00' ∉ path.toList)
    (h : s.tree.stat s.workDir path = .ok (dir, .directory)) :
    eval (makeDirectory true path) s = (.ok (), s) := by
  obtain ⟨cause, hcause⟩ := makeDirectory_kept hplain h
  exact eval_makeDirectory_refused hplain hcause h

section

variable (h : s.tree.Leads s.workDir top dir) (hpath : Spells s.workDir top (x :: names) path)
  (hnames : ∀ y ∈ x :: names, IsName y) (hnone : ∀ more, s.tree.find? (dir ++ x :: more) = none)
include h hpath hnames hnone

theorem eval_makeDirectoriesWithin_new {depth : Nat} (hdepth : names.length ≤ depth) :
    ∃ tree, eval (makeDirectoriesWithin true depth path) s =
        (.ok (), { s with tree := tree }) ∧ s.tree.Grows tree ∧
      tree.Leads s.workDir path (dir ++ x :: names) ∧
      ∀ more, more ≠ [] → tree.find? (dir ++ x :: names ++ more) = none := by
  have hx := hnames x mem_cons_self
  induction names using List.reverseRecOn generalizing depth path with
  | nil =>
    have hfree := hnone []
    have hmake := eval_makeDirectory_new h hpath hx hfree
    refine ⟨s.tree.insert (dir ++ [x]) .directory, ?_, h.made hpath hx hnone⟩
    cases depth with
    | zero => exact hmake
    | succ depth =>
      obtain ⟨head, hsplit, hhead, -⟩ := @Spells.split s.workDir top x path [] hpath
      have hthere : head ≠ "" → s.tree.present s.workDir head = true := by
        intro hfilled
        rw [FileTree.present, (h.spelled hhead).stat_self hfilled hhead.short]
        rfl
      rw [makeDirectoriesWithin, hsplit]
      dsimp only
      rw [present, eval_bind, eval_query]
      dsimp only
      rw [if_neg (by simpa using fun hfilled _ => hthere hfilled)]
      exact hmake
  | append_singleton names y ih =>
    rw [← cons_append] at hpath hnames ⊢
    have hfront : ∀ z ∈ x :: names, IsName z := fun z hz => hnames z (mem_append_left _ hz)
    have hy : IsName y := hnames y (by simp)
    obtain ⟨depth, rfl⟩ : ∃ d, depth = d + 1 := by
      rw [length_append, length_singleton] at hdepth
      exact ⟨depth - 1, by omega⟩
    have hdepth' : names.length ≤ depth := by simpa using hdepth
    obtain ⟨head, hsplit, hhead, hlast⟩ := hpath.split
    obtain ⟨tree, hrun, hgrows, hleads, hempty⟩ := ih hhead hfront hdepth'
    have hfree := hempty [y] (by simp)
    obtain ⟨hgrows', hmade⟩ := hleads.made hlast hy fun more => hempty (y :: more) (by simp)
    rw [← append_assoc dir]
    refine ⟨tree.insert (dir ++ x :: names ++ [y]) .directory, ?_, hgrows.trans hgrows', hmade⟩
    have hmake := @eval_makeDirectory_new { s with tree := tree } _ _ _ _ hleads hlast hy hfree
    have hfilled := hhead.ne_empty (by simp)
    have hmissing : s.tree.present s.workDir head = false := by
      rw [FileTree.present, h.stat_missing hhead hx (hnone [])]
      rfl
    rw [makeDirectoriesWithin, hsplit]
    dsimp only
    rw [present, eval_bind, eval_query]
    dsimp only
    rw [hmissing, if_pos (by simp [hfilled, hy.filled]), eval_bind, eval_attempt, hrun]
    rw [if_neg hy.notDot]
    exact hmake

theorem eval_makeDirectories_new :
    ∃ tree, eval (makeDirectories true path) s = (.ok (), { s with tree := tree }) ∧
      s.tree.Grows tree ∧ tree.Leads s.workDir path (dir ++ x :: names) ∧
      ∀ more, more ≠ [] → tree.find? (dir ++ x :: names ++ more) = none := by
  apply eval_makeDirectoriesWithin_new h hpath hnames hnone
  have hparts : (filledParts path).length ≤ path.length + 1 := by
    have hsplit := length_splitAll_le '/' path.toList
    refine Nat.le_trans (length_filter_le _ _) ?_
    rwa [parts, length_map]
  rw [hpath.parts, length_append, length_cons] at hparts
  omega

end

theorem eval_makeDirectories_kept (hplain : '\x00' ∉ path.toList)
    (h : s.tree.stat s.workDir path = .ok (dir, .directory)) :
    eval (makeDirectories true path) s = (.ok (), s) := by
  have hleads := Leads.of_stat hplain h
  have hmake := eval_makeDirectory_kept hplain h
  rw [makeDirectories]
  cases path.length with
  | zero => exact hmake
  | succ depth =>
    rcases hsplit : splitForMaking path with ⟨head, tail⟩
    rw [makeDirectoriesWithin, hsplit]
    dsimp only
    rw [present, eval_bind, eval_query]
    dsimp only
    have hthere : head ≠ "" → tail ≠ "" → s.tree.present s.workDir head = true := by
      intro hhead htail
      obtain ⟨dir', hstat⟩ := hleads.stat_head (stat_short h).2 hsplit hhead htail
      rw [FileTree.present, hstat]
      rfl
    rw [if_neg (by simpa using hthere)]
    exact hmake

theorem eval_makeDirectories_vacant {clear loc : Location}
    (h : s.tree.Vacant s.workDir path clear loc) :
    ∃ s', eval (makeDirectories true path) s = (.ok (), s') ∧ s'.tree.Leads s'.workDir path loc ∧
      ∀ more, more ≠ [] → s'.tree.find? (loc ++ more) = none := by
  cases h with
  | empty plain there nothing =>
    exact ⟨s, eval_makeDirectories_kept plain there, Leads.of_stat plain there, nothing⟩
  | absent above spells proper nothing =>
    obtain ⟨tree, hrun, -, hleads, hempty⟩ := eval_makeDirectories_new above spells proper nothing
    exact ⟨_, hrun, hleads, hempty⟩

end Run
end SceneText
