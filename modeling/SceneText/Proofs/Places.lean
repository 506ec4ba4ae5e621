import SceneText.Proofs.Files
import SceneText.Proofs.Paths

/-!
# Places in a directory

A path to a directory leads, with a name behind it, to the entry of that name: the links on the way
to the directory are followed as before, and as many of them. A file that moves to a free name
leaves every other place as it was.
-/

namespace SceneText

open List SceneText.Path Option Text

variable {names more : List String} {loc : Location} {path : String} {node : Node} {p : Progress}
  {budget : Nat} {outcome : Except FileCause Location} {e : Location × Node} {y : String}

namespace FileTree

variable {tree : FileTree} {workDir dir here : Location} {top x : String} {lastToo : Bool}

theorem followFrom_append (hmore : more ≠ [])
    (h : tree.followFrom true budget here names = .ok dir)
    (hdir : tree.find? dir = some .directory)
    (houtcome : ∀ rest, tree.followFrom lastToo (rest + 1) dir more = outcome) :
    tree.followFrom lastToo budget here (names ++ more) = outcome := by
  rw [reaches_iff] at h
  induction h with
  | here => exact houtcome _
  | dots hhere hdot _ ih =>
    rw [cons_append, followFrom, advance_dots hhere hdot]
    exact ih hdir houtcome
  | onto hname hlink hrest ih =>
    have hthere := hrest.found (by simp [hdir])
    rw [cons_append, followFrom, advance_onto hname hlink (.inl hthere)]
    exact ih hdir houtcome
  | last _ _ hlast => cases hlast
  | link hname hlink _ htarget _ ih =>
    rw [cons_append, followFrom, advance_link hname hlink, if_neg (by simp [hmore])]
    dsimp only
    rw [if_neg htarget, ← append_assoc]
    exact ih hdir houtcome

theorem followFrom_front (hmore : more ≠ [])
    (h : tree.followFrom true budget here (names ++ more) = .ok loc) :
    ∃ dir, tree.followFrom true budget here names = .ok dir ∧ tree.find? dir = some .directory := by
  simp only [reaches_iff] at h ⊢
  generalize hall : names ++ more = all at h
  induction h generalizing names with
  | here => exact absurd (append_eq_nil_iff.mp hall).2 hmore
  | @dots budget here loc name rest hdir hdot _ ih =>
    cases names with
    | nil => exact ⟨here, .here, hdir⟩
    | cons x names =>
      obtain ⟨rfl, hrest⟩ := cons.inj hall
      obtain ⟨dir, hreaches, hend⟩ := ih hrest
      exact ⟨dir, .dots hdir hdot hreaches, hend⟩
  | @onto budget here loc name rest hname hlink _ ih =>
    cases names with
    | nil => exact ⟨here, .here, hname.directory⟩
    | cons x names =>
      obtain ⟨rfl, hrest⟩ := cons.inj hall
      obtain ⟨dir, hreaches, hend⟩ := ih hrest
      exact ⟨dir, .onto hname hlink hreaches, hend⟩
  | last _ _ hlast => cases hlast
  | @link budget here loc name target rest hname hlink _ htarget _ ih =>
    cases names with
    | nil => exact ⟨here, .here, hname.directory⟩
    | cons x names =>
      obtain ⟨rfl, hrest⟩ := cons.inj hall
      obtain ⟨dir, hreaches, hend⟩ := @ih (namesOf target ++ names) (by simp [← hrest])
      exact ⟨dir, .link hname hlink (.inr rfl) htarget hreaches, hend⟩

theorem not_isDotName (hx : IsName x) : isDotName x = false :=
  isDotName_eq_false.mpr ⟨⟨hx.filled, hx.notDot⟩, hx.notDots⟩

theorem Enters.of_name (hdir : tree.find? dir = some .directory) (hx : IsName x) :
    tree.Enters dir x :=
  ⟨hdir, not_isDotName hx, hx.short⟩

def startOf (workDir : Location) (path : String) : Location :=
  if isAbsolute path then [] else workDir

structure Leads (tree : FileTree) (workDir : Location) (top : String) (dir : Location) : Prop where
  plain : '\x00' ∉ top.toList
  followed : tree.followFrom true (linkLimit + 1) (startOf workDir top) (filledParts top) = .ok dir
  directory : tree.find? dir = some .directory

theorem isOverlong_eq_false : isOverlong path = false ↔ path.utf8ByteSize < pathLimit := by
  rw [isOverlong, decide_eq_false_iff_not, Nat.not_le]

/-- A name that can stand behind a path. -/
structure Fits (top x : String) : Prop where
  name : IsName x
  short : isOverlong (join top x) = false

def lookAt (tree : FileTree) (loc : Location) : Except FileCause (Location × Node) :=
  match tree.find? loc with
  | some node => .ok (loc, node)
  | none => .error .missing

def LinkFree (tree : FileTree) (dir : Location) : Prop :=
  ∀ x target, tree.find? (dir ++ [x]) ≠ some (.link target)

theorem Fits.opened_short (hx : Fits top x) : isOverlong (opened top) = false := by
  have hshort := hx.short
  rw [isOverlong_eq_false, join_name hx.name, String.utf8ByteSize_append] at hshort
  exact isOverlong_eq_false.mpr (Nat.lt_of_le_of_lt (Nat.le_add_right _ _) hshort)

theorem locate_of_short (hfilled : path ≠ "") (hshort : isOverlong path = false) :
    tree.locate lastToo workDir path =
      tree.followFrom lastToo (linkLimit + 1) (startOf workDir path) (namesOf path) := by
  rw [locate, if_neg (by simpa using hfilled), hshort]
  rfl

theorem stat_short {r : Location × Node} (h : tree.stat workDir path = .ok r) :
    path ≠ "" ∧ isOverlong path = false := by
  have hloc := (stat_ok.mp (h : tree.stat workDir path = .ok (r.1, r.2))).1
  rw [locate] at hloc
  split at hloc
  · cases hloc
  · next hfilled =>
    split at hloc
    · cases hloc
    · next hshort => exact ⟨by simpa using hfilled, by simpa using hshort⟩

theorem startOf_join (hx : IsName x) (workDir : Location) :
    startOf workDir (join top x) = startOf workDir top := by
  rw [startOf, startOf]
  by_cases htop : top = ""
  · rw [htop, join_name hx]
    have hplain : isAbsolute (opened "" ++ x) = false := by
      rw [Bool.eq_false_iff, Ne, isAbsolute, hasPrefix, isPrefixOf_iff_prefix]
      exact fun h => hx.noSlash (h.subset (by simp))
    rw [hplain]
    rfl
  · rw [isAbsolute_join hx htop]

theorem join_ne_empty (hx : IsName x) : join top x ≠ "" := by
  simp [join_name hx, hx.filled]

namespace Leads

theorem nil (h : tree.find? workDir = some .directory) : tree.Leads workDir "" workDir :=
  ⟨by simp, rfl, h⟩

theorem follow_more (h : tree.Leads workDir top dir) (hmore : more ≠ [])
    (houtcome : ∀ rest, tree.followFrom lastToo (rest + 1) dir more = outcome) :
    tree.followFrom lastToo (linkLimit + 1) (startOf workDir top) (filledParts top ++ more) =
      outcome :=
  followFrom_append hmore h.followed h.directory houtcome

theorem follow_dot (h : tree.Leads workDir top dir) :
    tree.followFrom true (linkLimit + 1) (startOf workDir top) (filledParts top ++ ["."]) =
      .ok dir := by
  refine h.follow_more (by simp) fun rest => ?_
  rw [followFrom, advance, h.directory]
  rfl

theorem of_stat (hplain : '\x00' ∉ top.toList)
    (h : tree.stat workDir top = .ok (dir, .directory)) : tree.Leads workDir top dir := by
  obtain ⟨hloc, hdir⟩ := stat_ok.mp h
  obtain ⟨hfilled, hshort⟩ := stat_short h
  refine ⟨hplain, ?_, hdir⟩
  rw [locate_of_short hfilled hshort] at hloc
  rcases namesOf_cases top with hnames | hnames
  · rwa [hnames] at hloc
  · rw [hnames] at hloc
    obtain ⟨dir', hfront, hdir'⟩ := followFrom_front (by simp) hloc
    have hdot : tree.followFrom true (linkLimit + 1) (startOf workDir top)
        (filledParts top ++ ["."]) = .ok dir' := follow_dot ⟨hplain, hfront, hdir'⟩
    exact hfront.trans (hdot.symm.trans hloc)

variable (h : tree.Leads workDir top dir)
include h

theorem follow_name (hx : IsName x)
    (hlink : ∀ target, tree.find? (dir ++ [x]) ≠ some (.link target)) (lastToo : Bool) :
    tree.followFrom lastToo (linkLimit + 1) (startOf workDir top) (filledParts top ++ [x]) =
      .ok (dir ++ [x]) := by
  refine h.follow_more (by simp) fun rest => ?_
  rw [followFrom, advance_onto (.of_name h.directory hx) hlink (.inr rfl), advance]

theorem stat_of_parts (hfilled : path ≠ "") (hshort : isOverlong path = false)
    (hstart : startOf workDir path = startOf workDir top)
    (hparts : filledParts path = filledParts top) :
    tree.stat workDir path = .ok (dir, .directory) := by
  refine stat_ok.mpr ⟨?_, h.directory⟩
  rw [locate_of_short hfilled hshort, hstart]
  rcases namesOf_cases path with hnames | hnames
  · rw [hnames, hparts]
    exact h.followed
  · rw [hnames, hparts]
    exact h.follow_dot

theorem locate_join (hx : Fits top x)
    (hlink : ∀ target, tree.find? (dir ++ [x]) ≠ some (.link target)) (lastToo : Bool) :
    tree.locate lastToo workDir (join top x) = .ok (dir ++ [x]) := by
  rw [locate_of_short (join_ne_empty hx.name) hx.short, startOf_join hx.name, namesOf_join hx.name]
  exact h.follow_name hx.name hlink lastToo

theorem step (hx : IsName x) (hdir : tree.find? (dir ++ [x]) = some .directory) :
    tree.Leads workDir (join top x) (dir ++ [x]) := by
  refine ⟨plain_join hx h.plain, ?_, hdir⟩
  rw [startOf_join hx, filledParts_join hx]
  exact h.follow_name hx (by simp [hdir]) true

theorem entrance_join (hx : Fits top x) :
    tree.entrance workDir (join top x) = .ok ⟨dir, x, false⟩ := by
  have habove : tree.stat workDir (if (opened top).toList.isEmpty then "."
      else String.ofList (opened top).toList) = .ok (dir, .directory) := by
    by_cases htop : top = ""
    · subst htop
      refine stat_ok.mpr ⟨?_, h.directory⟩
      exact (locate_of_short (by decide) (by decide)).trans h.follow_dot
    · have hne := opened_ne htop
      rw [if_neg (by simpa using hne), String.ofList_toList]
      refine h.stat_of_parts hne hx.opened_short ?_ (filledParts_opened top)
      rw [startOf, startOf, isAbsolute_opened htop]
  rw [entrance, withoutTrailingSlash_join hx.name, splitLast_join hx.name]
  dsimp only
  rw [hx.short, if_neg (by decide), if_neg (by simpa using join_ne_empty hx.name), habove]
  simp

theorem stat_join (hx : Fits top x)
    (hlink : ∀ target, tree.find? (dir ++ [x]) ≠ some (.link target)) :
    tree.stat workDir (join top x) = tree.lookAt (dir ++ [x]) := by
  have hloc := h.locate_join hx hlink true
  unfold lookAt
  split
  · next hnode => exact stat_ok.mpr ⟨hloc, hnode⟩
  · next hnone =>
    rw [stat, hloc]
    dsimp only
    rw [hnone]

theorem opens_join (hx : Fits top x) (hopen : tree.Overwritable (dir ++ [x])) :
    tree.Opens workDir (join top x) (dir ++ [x]) := by
  refine ⟨plain_join hx.name h.plain, writeLocation_ok.mpr ⟨⟨_, h.entrance_join hx, rfl⟩,
    h.locate_join hx hopen.no_link true, ?_⟩, hopen⟩
  intro n hn
  obtain ⟨bytes, rfl⟩ := hopen n hn
  simp

theorem extend {tree' : FileTree} (hext : Extends tree tree') : tree'.Leads workDir top dir :=
  ⟨h.plain, hext.followFrom h.followed, hext.ways _ _ rfl h.directory⟩

end Leads

/-- A tree in which every place has a proper name and lies in a directory. -/
structure Sound (tree : FileTree) : Prop where
  named : ∀ loc name node, tree.find? (loc ++ [name]) = some node → IsName name
  above : ∀ loc name node, tree.find? (loc ++ [name]) = some node → tree.find? loc = some .directory

theorem Sound.directory_above (h : tree.Sound) {more : Location} (hmore : more ≠ [])
    (hnode : tree.find? (loc ++ more) = some node) : tree.find? loc = some .directory := by
  induction more generalizing loc with
  | nil => exact absurd rfl hmore
  | cons name more ih =>
    by_cases hlast : more = []
    · rw [hlast] at hnode
      exact h.above loc name node hnode
    · rw [← singleton_append, ← append_assoc] at hnode
      exact h.above loc name .directory (ih hlast hnode)

theorem Sound.none_below (h : tree.Sound) (hnone : tree.find? loc = none) (more : Location) :
    tree.find? (loc ++ more) = none := by
  by_cases hmore : more = []
  · rwa [hmore, append_nil]
  · by_contra hnode
    obtain ⟨node, hnode⟩ := ne_none_iff_exists'.mp hnode
    rw [h.directory_above hmore hnode] at hnone
    cases hnone

theorem find?_of_mem (he : e ∈ tree.entries) : tree.find? e.1 ≠ none := by
  unfold find?
  split
  · simp
  · rw [Ne, lookup_eq_none_iff]
    intro hnone
    exact absurd (hnone e he) (by simp)

theorem mem_entries (hloc : loc ≠ []) (hnode : tree.find? loc = some node) :
    (loc, node) ∈ tree.entries := by
  rw [find?, if_neg (by simpa using hloc)] at hnode
  obtain ⟨front, back, hsplit, -⟩ := lookup_eq_some_iff.mp hnode
  simp [hsplit]

theorem mem_keys (hloc : loc ≠ []) (hnode : tree.find? loc ≠ none) :
    loc ∈ tree.entries.map Prod.fst := by
  obtain ⟨node, hnode⟩ := ne_none_iff_exists'.mp hnode
  exact mem_map_of_mem (mem_entries hloc hnode)

theorem sound_of_entries (h : ∀ e ∈ tree.entries, ∀ name ∈ e.1.getLast?,
    IsName name ∧ tree.find? e.1.dropLast = some .directory) : tree.Sound := by
  have hlast : ∀ loc name node, tree.find? (loc ++ [name]) = some node →
      IsName name ∧ tree.find? loc = some .directory := by
    intro loc name node hnode
    simpa using h _ (mem_entries (by simp) hnode) name (by simp)
  exact ⟨fun loc name node hnode => (hlast loc name node hnode).1,
    fun loc name node hnode => (hlast loc name node hnode).2⟩

theorem linkFree_of_entries (h : ∀ e ∈ tree.entries, e.2.leads = true → e.2 = .directory)
    (dir : Location) : tree.LinkFree dir := by
  intro x target hlink
  cases h _ (mem_entries (by simp) hlink) rfl

section

variable (h : tree.Sound) (hhere : tree.find? here = some node) (hnode : node ≠ .directory)
include h hhere hnode

theorem Sound.alone (he : e ∈ tree.entries) (hbelow : here <+: e.1) : e.1 = here := by
  obtain ⟨more, hmore⟩ := hbelow
  obtain ⟨n, hn⟩ := ne_none_iff_exists'.mp (find?_of_mem he)
  by_cases hlast : more = []
  · rw [← hmore, hlast, append_nil]
  · rw [← hmore] at hn
    have hdir := h.directory_above hlast hn
    exact absurd (some.inj (hhere.symm.trans hdir)) hnode

theorem Sound.entries_move (there : Location) :
    (tree.move here there).entries =
      tree.entries.map fun e => ((if e.1 = here then there else e.1), e.2) := by
  apply map_congr_left
  rintro ⟨l, n⟩ he
  dsimp only
  by_cases hpre : here <+: l
  · have hl : l = here := h.alone hhere hnode he hpre
    rw [if_pos ( isPrefixOf_iff_prefix.mpr hpre), if_pos hl, hl, drop_length, append_nil]
  · have hl : l ≠ here := fun hl => hpre (hl ▸ prefix_refl l)
    rw [if_neg (by rwa [ isPrefixOf_iff_prefix]), if_neg hl]

theorem Sound.find?_move {there : Location} (hthere : tree.find? there = none) (loc : Location) :
    (tree.move here there).find? loc =
      if loc = there then some node else if loc = here then none else tree.find? loc := by
  have hroot : here ≠ [] := by
    rintro rfl
    exact hnode (some.inj hhere).symm
  have hroot' : there ≠ [] := by
    rintro rfl
    cases hthere
  have hfree : ∀ e ∈ tree.entries, e.1 ≠ there := by
    intro e he heq
    exact find?_of_mem he (heq ▸ hthere)
  have hne : here ≠ there := by
    rintro rfl
    rw [hhere] at hthere
    cases hthere
  have hlookup : ∀ l : Location, l ≠ [] → tree.find? l = tree.entries.lookup l := by
    intro l hl
    rw [find?, if_neg (by simpa using hl)]
  by_cases hl : loc = []
  · subst hl
    rw [if_neg (Ne.symm hroot'), if_neg (Ne.symm hroot)]
    rfl
  rw [find?, if_neg (by simpa using hl), h.entries_move hhere hnode]
  by_cases hl' : loc = there
  · rw [if_pos hl', hl', ← hhere, hlookup here hroot]
    refine (lookup_map (fun l => if l = here then there else l) id ?_).trans map_id_apply
    intro e he
    split
    · next heq => simp [heq]
    · next heq => simp [heq, hfree e he]
  rw [if_neg hl']
  by_cases hl'' : loc = here
  · rw [if_pos hl'', hl'', lookup_eq_none_iff]
    intro e he
    obtain ⟨e, -, rfl⟩ := mem_map.mp he
    split
    · simpa using hne
    · next heq => simpa using Ne.symm heq
  · rw [if_neg hl'', hlookup loc hl]
    refine (lookup_map (fun l => if l = here then there else l) id ?_).trans map_id_apply
    intro e he
    split
    · next heq => simp [heq, Ne.symm hl', Ne.symm hl'']
    · rfl

end

theorem Leads.rename_join (h : tree.Leads workDir top dir) (hx : Fits top x) (hy : Fits top y)
    (hhere : tree.find? (dir ++ [x]) = some node) (hthere : tree.find? (dir ++ [y]) = none) :
    tree.rename workDir (join top x) (join top y) = .ok (tree.move (dir ++ [x]) (dir ++ [y])) := by
  have hne : dir ++ [x] ≠ dir ++ [y] := by
    intro heq
    rw [heq, hthere] at hhere
    cases hhere
  have hapart : ∀ a b : String, dir ++ [a] ≠ dir ++ [b] →
      (dir ++ [a]).isPrefixOf (dir ++ [b]) = false := by
    intro a b hab
    rw [Bool.eq_false_iff, Ne, isPrefixOf_iff_prefix]
    exact fun hpre => hab (hpre.eq_of_length (by simp))
  rw [rename, h.entrance_join hx, h.entrance_join hy]
  simp only [bind, Except.bind, pure, Except.pure, not_isDotName hx.name,
    not_isDotName hy.name, Bool.or_false, Bool.and_false, Bool.false_eq_true, if_false,
    Nat.not_lt.mpr hx.name.short, Nat.not_lt.mpr hy.name.short, hhere, hne,
    hapart x y hne, hapart y x (Ne.symm hne), replacement, hthere]

def rootedPath (loc : Location) : String :=
  (Clean.mk "/" loc).toText

theorem rootedPath_eq (loc : Location) : rootedPath loc = "/" ++ "/".intercalate loc := by
  simp [rootedPath, Clean.toText]

theorem rootedPath_concat (hloc : ∀ y ∈ loc, IsName y) (hx : IsName x) :
    rootedPath (loc ++ [x]) = join (rootedPath loc) x := by
  rw [join_name hx, rootedPath_eq, rootedPath_eq]
  rcases eq_nil_or_concat loc with rfl | ⟨front, y, rfl⟩
  · rfl
  · rw [concat_eq_append] at hloc ⊢
    have hy : IsName y := hloc y (by simp)
    have hends : ∃ u, "/".intercalate (front ++ [y]) = u ++ y := by
      by_cases hfront : front = []
      · exact ⟨"", by simp [hfront]⟩
      · refine ⟨"/".intercalate front ++ "/", ?_⟩
        rw [String.intercalate_append_of_ne_nil hfront (by simp), String.intercalate_singleton]
    obtain ⟨u, hu⟩ := hends
    have hslash : hasSuffix ("/" ++ "/".intercalate (front ++ [y])) "/" = false := by
      rw [hu, ← String.append_assoc]
      exact not_hasSuffix_name _ hy
    rw [String.intercalate_append_of_ne_nil (by simp) (by simp), String.intercalate_singleton,
      opened, hslash]
    simp [String.append_assoc]

theorem Sound.names_of (h : tree.Sound) (hnode : tree.find? loc = some node) :
    ∀ y ∈ loc, IsName y := by
  intro y hy
  obtain ⟨front, rest, rfl⟩ := append_of_mem hy
  by_cases hrest : rest = []
  · exact h.named front y node (by rwa [hrest] at hnode)
  · rw [← singleton_append, ← append_assoc] at hnode
    exact h.named front y _ (h.directory_above hrest hnode)

theorem Sound.leads_rootedPath (h : tree.Sound) (workDir : Location)
    (hdir : tree.find? loc = some .directory) : tree.Leads workDir (rootedPath loc) loc := by
  induction loc using List.reverseRecOn with
  | nil => exact ⟨by decide, rfl, rfl⟩
  | append_singleton loc x ih =>
    have habove := h.above loc x _ hdir
    have hx := h.named loc x _ hdir
    rw [rootedPath_concat (h.names_of habove) hx]
    exact (ih habove).step hx hdir

theorem filledParts_rootedPath (hloc : ∀ y ∈ loc, IsName y) :
    filledParts (rootedPath loc) = loc := by
  induction loc using List.reverseRecOn with
  | nil => decide
  | append_singleton loc x ih =>
    have hfront : ∀ y ∈ loc, IsName y := fun y hy => hloc y (mem_append_left _ hy)
    have hx : IsName x := hloc x (by simp)
    rw [rootedPath_concat hfront hx, filledParts_join hx, ih hfront]

theorem resolveFrom_plain {steps : Nat} (hsteps : names.length ≤ steps)
    (hnames : ∀ n ∈ names, n ≠ "" → IsName n)
    (hlinks : ∀ front rest, (names.filter fun n => !n.isEmpty) = front ++ rest →
      ∀ target, tree.find? (here ++ front) ≠ some (.link target)) :
    tree.resolveFrom steps here names = some (here ++ names.filter fun n => !n.isEmpty) := by
  induction names generalizing here steps with
  | nil => cases steps <;> simp [resolveFrom]
  | cons name names ih =>
    obtain ⟨steps, rfl⟩ : ∃ k, steps = k + 1 := ⟨steps - 1, by simp at hsteps; omega⟩
    have hsteps' : names.length ≤ steps := by simpa using hsteps
    have hnames' : ∀ n ∈ names, n ≠ "" → IsName n := fun n hn => hnames n (by simp [hn])
    rw [resolveFrom]
    by_cases hempty : name = ""
    · subst hempty
      exact ih hsteps' hnames' fun front rest heq => hlinks front rest (by simpa using heq)
    · have hname : IsName name := hnames name (by simp) hempty
      have hkept : (name :: names).filter (fun n => !n.isEmpty) =
          name :: names.filter fun n => !n.isEmpty := by simp [hempty]
      rw [if_neg (by simp [hempty, hname.notDot]), if_neg hname.notDots, hkept]
      have hrest : tree.resolveFrom steps (here ++ [name]) names =
          some (here ++ [name] ++ names.filter fun n => !n.isEmpty) := by
        apply ih hsteps' hnames'
        intro front rest heq
        rw [append_assoc, singleton_append]
        exact hlinks (name :: front) rest (by rw [hkept, heq]; rfl)
      rw [append_assoc, singleton_append] at hrest
      have hplain := hlinks [name] (names.filter fun n => !n.isEmpty) hkept
      split
      · next target htarget => exact absurd htarget (hplain target)
      · exact hrest

theorem length_parts_le (path : String) : (parts path).length ≤ path.utf8ByteSize + 1 := by
  have hsplit := length_splitAll_le '/' path.toList
  have hsize := length_le_size path.toList
  rw [String.ofList_toList] at hsize
  rw [parts, length_map]
  exact Nat.le_trans hsplit (Nat.succ_le_succ hsize)

theorem Sound.read_rootedPath (h : tree.Sound) (workDir : Location) {bytes : List UInt8}
    {readOnly : Bool} (hfile : tree.find? (loc ++ [x]) = some (.file bytes readOnly))
    (hshort : isOverlong (rootedPath (loc ++ [x])) = false) :
    '\x00' ∉ (rootedPath (loc ++ [x])).toList ∧
      tree.read workDir (rootedPath (loc ++ [x])) = .ok bytes := by
  have hdir := h.above loc x _ hfile
  have hx := h.named loc x _ hfile
  rw [rootedPath_concat (h.names_of hdir) hx] at hshort ⊢
  have hfits : Fits (rootedPath loc) x := ⟨hx, hshort⟩
  have hleads := h.leads_rootedPath workDir hdir
  refine ⟨plain_join hx hleads.plain, ?_⟩
  rw [read, hleads.stat_join hfits (by simp [hfile]), lookAt, hfile]

theorem Sound.resolve_join (h : tree.Sound) (workDir : Location)
    (hdir : tree.find? dir = some .directory) (hx : Fits (rootedPath dir) x)
    (hlink : ∀ target, tree.find? (dir ++ [x]) ≠ some (.link target)) :
    tree.resolve? workDir (join (rootedPath dir) x) = some (dir ++ [x]) := by
  have hnames := h.names_of hdir
  have hfilled : filledParts (join (rootedPath dir) x) = dir ++ [x] := by
    rw [filledParts_join hx.name, filledParts_rootedPath hnames]
  have habsolute : isAbsolute (join (rootedPath dir) x) = true := by
    rw [← rootedPath_concat hnames hx.name, rootedPath_eq, isAbsolute_append _ (by decide)]
    rfl
  have hsteps : (parts (join (rootedPath dir) x)).length ≤ 65536 := by
    have hshort := hx.short
    have hparts := length_parts_le (join (rootedPath dir) x)
    rw [isOverlong_eq_false, pathLimit] at hshort
    omega
  rw [resolve?, habsolute, if_pos rfl]
  refine (resolveFrom_plain hsteps ?_ ?_).trans (congrArg some hfilled)
  · intro n hn hne
    have hmem : n ∈ dir ++ [x] := by
      rw [← hfilled]
      exact mem_filter.mpr ⟨hn, by simpa using hne⟩
    rcases mem_append.mp hmem with hn | hn
    · exact hnames n hn
    · rw [mem_singleton.mp hn]
      exact hx.name
  · intro front rest hsplit target
    rw [nil_append]
    have hsplit : dir ++ [x] = front ++ rest := hfilled.symm.trans hsplit
    rcases eq_nil_or_concat rest with rfl | ⟨rest, y, rfl⟩
    · rw [← append_nil front, ← hsplit]
      exact hlink target
    · rw [concat_eq_append, ← append_assoc] at hsplit
      have hdir' : dir = front ++ rest := append_inj_left' hsplit rfl
      by_cases hrest : rest = []
      · rw [hrest, append_nil] at hdir'
        rw [← hdir', hdir]
        simp
      · rw [h.directory_above hrest (hdir' ▸ hdir)]
        simp

end FileTree

namespace Run

open FileTree

variable {s : Session} {top x : String} {dir : Location}

theorem eval_nodeAt_ok (h : s.tree.stat s.workDir path = .ok (loc, node)) :
    eval (nodeAt? path) s = (.ok (some node), s) := by
  rw [nodeAt?, eval_bind, eval_query]
  rw [h]
  rfl

variable (h : s.tree.Leads s.workDir top dir)
include h

theorem eval_nodeAt (hx : Fits top x) (hlink : s.tree.LinkFree dir) :
    eval (nodeAt? (join top x)) s = (.ok (s.tree.find? (dir ++ [x])), s) := by
  rw [nodeAt?, eval_bind, eval_query]
  rw [h.stat_join hx (hlink x), lookAt]
  cases s.tree.find? (dir ++ [x]) with
  | none => rfl
  | some node => rfl

theorem eval_occupied (hx : Fits top x) (hlink : s.tree.LinkFree dir) :
    eval (occupied (join top x)) s = (.ok (s.tree.find? (dir ++ [x])).isSome, s) := by
  rw [occupied, eval_bind_ok (eval_nodeAt h hx hlink)]
  rfl

theorem eval_rename (hx : Fits top x) (hy : Fits top y)
    (hhere : s.tree.find? (dir ++ [x]) = some node) (hthere : s.tree.find? (dir ++ [y]) = none) :
    eval (rename (join top x) (join top y)) s =
      (.ok (), { s with tree := s.tree.move (dir ++ [x]) (dir ++ [y]) }) := by
  have hget : eval (get : Run Session) s = (.ok s, s) := rfl
  rw [rename, eval_bind_ok (eval_checkPath (plain_join hx.name h.plain) s),
    eval_bind_ok (eval_checkPath (plain_join hy.name h.plain) s), eval_bind_ok hget,
    h.rename_join hx hy hhere hthere]
  rfl

end Run
end SceneText
