import SceneText.Proofs.Removals

/-!
# Trees of files and directories

In a tree without links the text of a path alone tells where the path leads, if it leads anywhere.
-/

namespace SceneText

open List SceneText.Path String

variable {node : Node}

namespace Text

theorem mem_splitAll {mark c : Char} {text : List Char} (hc : c ∈ text) (hmark : c ≠ mark) :
    ∃ part ∈ splitAll mark text, c ∈ part := by
  induction text with
  | nil => cases hc
  | cons d rest ih =>
    rw [splitAll]
    split
    · next hd =>
      have hrest : c ∈ rest := (mem_cons.mp hc).resolve_left fun h => hmark (h.trans hd)
      obtain ⟨part, hpart, hmem⟩ := ih hrest
      exact ⟨part, mem_cons_of_mem _ hpart, hmem⟩
    · split
      · next hnil => exact absurd hnil (splitAll_ne_nil mark rest)
      · next first others hparts =>
        rcases mem_cons.mp hc with rfl | hc
        · exact ⟨_, mem_cons_self, mem_cons_self⟩
        · obtain ⟨part, hpart, hmem⟩ := ih hc
          rw [hparts] at hpart
          rcases mem_cons.mp hpart with rfl | hpart
          · exact ⟨_, mem_cons_self, mem_cons_of_mem _ hmem⟩
          · exact ⟨part, mem_cons_of_mem _ hpart, hmem⟩

end Text

namespace Path

variable {path : String} {c : Char}

theorem mem_filledParts (hc : c ∈ path.toList) (hslash : c ≠ '/') :
    ∃ y ∈ filledParts path, c ∈ y.toList := by
  obtain ⟨part, hpart, hmem⟩ := Text.mem_splitAll hc hslash
  refine ⟨ofList part, mem_filter.mpr ⟨mem_map_of_mem hpart, ?_⟩, by simpa⟩
  have hfilled : part ≠ [] := ne_nil_of_mem hmem
  simpa using hfilled

theorem foldl_filledParts (path : String) (done : List String) :
    (filledParts path).foldl pushPart done = (parts path).foldl pushPart done := by
  unfold filledParts
  induction parts path generalizing done with
  | nil => rfl
  | cons y ps ih =>
    cases hy : y.isEmpty with
    | true =>
      rw [filter_cons_of_neg (by simp [hy]), foldl_cons, pushPart, hy]
      exact ih done
    | false =>
      rw [filter_cons_of_pos (by simp [hy]), foldl_cons, foldl_cons]
      exact ih _

theorem opened_self {top : String} (h : top = "" ∨ ∃ u, top = u ++ "/") : opened top = top := by
  rw [opened]
  rcases h with rfl | ⟨u, rfl⟩
  · rfl
  · rw [if_pos]
    rw [Bool.or_eq_true]
    exact .inr (Text.hasSuffix_iff.mpr ⟨u, rfl⟩)

theorem join_of_front {front x : String} (hpath : path = front ++ x)
    (hfront : front = "" ∨ ∃ u, front = u ++ "/") (hx : IsName x) : path = join front x := by
  rw [join_name hx, opened_self hfront]
  exact hpath

end Path

namespace FileTree

/-- A proper tree in which there is nothing but files and directories. -/
structure Regular (tree : FileTree) : Prop extends tree.Proper where
  plain : tree.Plain []

theorem regular_of_entries {tree : FileTree} (hproper : tree.Proper)
    (h : ∀ e ∈ tree.entries, e.2.plain = true) : tree.Regular :=
  ⟨hproper, plain_of_entries h []⟩

variable {tree tree' : FileTree} {lastToo : Bool} {workDir here loc dir : Location}
  {names : List String} {budget : Nat} {path x : String}

theorem followed_of_locate (hloc : tree.locate lastToo workDir path = .ok loc) :
    path ≠ "" ∧ isOverlong path = false ∧
      tree.Reaches lastToo (linkLimit + 1) (startOf workDir path) (namesOf path) loc := by
  rw [locate] at hloc
  split at hloc
  · cases hloc
  · next hfilled =>
    split at hloc
    · cases hloc
    · next hshort => exact ⟨by simpa using hfilled, by simpa using hshort, reaches_iff.mp hloc⟩

theorem namesOf_ends (hfilled : path ≠ "") :
    (∃ names, namesOf path = names ++ ["."]) ∨
      ∃ front, path = front ++ base path ∧ (front = "" ∨ ∃ u, front = u ++ "/") ∧
        namesOf path = filledParts front ++ [base path] := by
  rcases namesOf_cases path with hnames | hnames
  · obtain ⟨hpath, hfront⟩ := front_base path
    refine .inr ⟨_, hpath, hfront, ?_⟩
    have hbase : base path ≠ "" := by
      intro hempty
      rw [hempty, append_empty] at hpath
      rcases hfront with hnone | ⟨u, hu⟩
      · exact hfilled (hpath.trans hnone)
      · rw [namesOf, if_pos (Text.hasSuffix_iff.mpr ⟨u, hpath.trans hu⟩)] at hnames
        exact absurd hnames (by simp [filledParts])
    conv => lhs; rw [hnames, hpath]
    rw [filledParts_append hfront, filledParts_plain hbase (base_noSlash path)]
  · exact .inl ⟨_, hnames⟩

theorem isName_of_not_dot (hdot : isDotName x = false) (hslash : '/' ∉ x.toList)
    (hzero : '\x00' ∉ x.toList) (hsize : x.utf8ByteSize ≤ 255) : IsName x := by
  obtain ⟨⟨hfilled, hone⟩, htwo⟩ := isDotName_eq_false.mp hdot
  exact ⟨hfilled, hone, htwo, hslash, hzero, hsize⟩

namespace Regular

variable {bytes : List UInt8} {y : String}

section

variable (h : tree.Regular)
include h

theorem not_link (loc : Location) (target : String) : tree.find? loc ≠ some (.link target) :=
  fun hlink => by cases h.plain loc _ hlink

theorem dropLast (hdir : tree.find? dir = some .directory) :
    tree.find? dir.dropLast = some .directory := by
  rcases eq_nil_or_concat dir with rfl | ⟨l, x, rfl⟩
  · exact hdir
  · rw [concat_eq_append] at hdir ⊢
    rw [dropLast_concat]
    exact h.above l x _ hdir

theorem pushPart_dot (hdir : tree.find? dir = some .directory) (hdot : isDotName y = true) :
    tree.find? (pushPart dir y) = some .directory := by
  rw [isDotName, Bool.or_eq_true] at hdot
  rw [pushPart]
  split
  · exact hdir
  · next hstay =>
    rw [if_pos (of_decide_eq_true (hdot.resolve_left hstay))]
    exact h.dropLast hdir

section

variable (hloc : tree.Reaches lastToo budget here names loc)
include hloc

theorem follow_any (other : Bool) : tree.Reaches other budget here names loc := by
  induction hloc with
  | here => exact .here
  | dots hdir hdot _ ih => exact .dots hdir hdot ih
  | onto hname hlink _ ih => exact .onto hname hlink ih
  | last _ hlink | link _ hlink => exact absurd hlink (h.not_link _ _)

theorem follow_eq : loc = names.foldl pushPart here := by
  induction hloc with
  | here => rfl
  | dots _ _ _ ih => exact ih
  | onto hname _ _ ih => rw [ih, foldl_cons, pushPart_ordinary hname.ordinary]
  | last _ hlink | link _ hlink => exact absurd hlink (h.not_link _ _)

theorem follow_short : ∀ y ∈ names, isDotName y = false → y.utf8ByteSize ≤ 255 := by
  induction hloc with
  | here => simp
  | dots _ hdot _ ih => exact forall_mem_cons.mpr ⟨by simp [hdot], ih⟩
  | onto hname _ _ ih => exact forall_mem_cons.mpr ⟨fun _ => hname.short, ih⟩
  | last _ hlink | link _ hlink => exact absurd hlink (h.not_link _ _)

theorem follow_plain (hsome : tree.find? loc ≠ none) : ∀ y ∈ names, '\x00' ∉ y.toList := by
  induction hloc with
  | here => simp
  | @dots _ _ _ name _ _ hdot _ ih =>
    refine forall_mem_cons.mpr ⟨?_, ih hsome⟩
    obtain rfl | rfl | rfl : name = "" ∨ name = "." ∨ name = ".." := by
      simpa [isDotName, or_assoc] using hdot
    all_goals decide
  | @onto _ here _ name _ hname _ hrest ih =>
    refine forall_mem_cons.mpr ⟨?_, ih hsome⟩
    obtain ⟨n, hn⟩ := Option.ne_none_iff_exists'.mp (hrest.found hsome)
    exact (h.named here name _ hn).noZero
  | last _ hlink | link _ hlink => exact absurd hlink (h.not_link _ _)

end

/-- The last name is looked up in the directory that the other names lead to. -/
theorem follow_last (hloc : tree.Reaches lastToo budget here (names ++ [y]) loc) :
    ∃ dir, tree.followFrom true budget here names = .ok dir ∧
      tree.find? dir = some .directory ∧ loc = pushPart dir y := by
  obtain ⟨dir, hreached, hdir⟩ :=
    followFrom_front (by simp) (reaches_iff.mpr (h.follow_any hloc true))
  refine ⟨dir, hreached, hdir, ?_⟩
  rw [h.follow_eq hloc, foldl_append, ← h.follow_eq (reaches_iff.mp hreached)]
  rfl

theorem locate_any (hloc : tree.locate lastToo workDir path = .ok loc)
    (other : Bool) : tree.locate other workDir path = .ok loc := by
  obtain ⟨hfilled, hshort, hfollowed⟩ := followed_of_locate hloc
  rw [locate_of_short hfilled hshort]
  exact reaches_iff.mpr (h.follow_any hfollowed other)

theorem locate_eq (hloc : tree.locate lastToo workDir path = .ok loc) :
    loc = absoluteParts workDir path := by
  obtain ⟨-, -, hfollowed⟩ := followed_of_locate hloc
  rw [h.follow_eq hfollowed, absoluteParts, ← foldl_filledParts]
  rcases namesOf_cases path with hnames | hnames
  · rw [hnames]
    rfl
  · rw [hnames, foldl_append]
    rfl

theorem stat_eq (hstat : tree.stat workDir path = .ok (loc, node)) :
    loc = absoluteParts workDir path :=
  h.locate_eq (stat_ok.mp hstat).1

theorem stat_plain (hstat : tree.stat workDir path = .ok (loc, node)) : '\x00' ∉ path.toList := by
  obtain ⟨hloc, hnode⟩ := stat_ok.mp hstat
  obtain ⟨-, -, hfollowed⟩ := followed_of_locate hloc
  intro hmem
  obtain ⟨y, hy, hc⟩ := mem_filledParts hmem (by decide)
  refine h.follow_plain hfollowed (by simp [hnode]) y ?_ hc
  rcases namesOf_cases path with hnames | hnames
  · rwa [hnames]
  · rw [hnames]
    exact mem_append_left _ hy

theorem ends_in_name (hplain : '\x00' ∉ path.toList)
    (hloc : tree.locate lastToo workDir path = .ok loc) (hdir : tree.find? loc ≠ some .directory) :
    ∃ top x dir, path = join top x ∧ tree.Leads workDir top dir ∧ Fits top x ∧
      loc = dir ++ [x] := by
  obtain ⟨hfilled, hshort, hfollowed⟩ := followed_of_locate hloc
  -- A dot in the last place would lead to a directory.
  have hordinary : ∀ names y, namesOf path = names ++ [y] → isDotName y = false := by
    intro names y hnames
    rw [hnames] at hfollowed
    obtain ⟨dir, -, hdir', rfl⟩ := h.follow_last hfollowed
    exact Bool.eq_false_iff.mpr fun hdot => hdir (h.pushPart_dot hdir' hdot)
  obtain ⟨names, hnames⟩ | ⟨front, hpath, hfront, hnames⟩ := namesOf_ends hfilled
  · cases hordinary _ _ hnames
  have hdot := hordinary _ _ hnames
  rw [hnames] at hfollowed
  obtain ⟨dir, hreached, hdir', hpush⟩ := h.follow_last hfollowed
  have hsize := h.follow_short hfollowed _ (by simp) hdot
  rw [hpath, toList_append, mem_append, not_or] at hplain
  have hx := isName_of_not_dot hdot (base_noSlash path) hplain.2 hsize
  have hjoin := join_of_front hpath hfront hx
  have hstart : startOf workDir path = startOf workDir front := by
    conv => lhs; rw [hjoin]
    exact startOf_join hx workDir
  refine ⟨front, base path, dir, hjoin, ⟨hplain.1, hstart ▸ hreached, hdir'⟩,
    ⟨hx, hjoin ▸ hshort⟩, ?_⟩
  rw [hpush, pushPart_ordinary hdot]

theorem file_join {readOnly : Bool}
    (hstat : tree.stat workDir path = .ok (loc, .file bytes readOnly)) :
    ∃ top x dir, path = join top x ∧ tree.Leads workDir top dir ∧ Fits top x ∧
      loc = dir ++ [x] ∧ tree.find? (dir ++ [x]) = some (.file bytes readOnly) := by
  obtain ⟨hloc, hnode⟩ := stat_ok.mp hstat
  obtain ⟨top, x, dir, hpath, hleads, hx, rfl⟩ := h.ends_in_name (h.stat_plain hstat) hloc
    (by simp [hnode])
  exact ⟨top, x, dir, hpath, hleads, hx, rfl, hnode⟩

end

theorem withoutTrailingSlash_plain (hplain : '\x00' ∉ path.toList) :
    '\x00' ∉ (withoutTrailingSlash path).toList := by
  obtain ⟨n, hn⟩ := withoutTrailingSlash_eq path
  intro hzero
  apply hplain
  rw [hn, toList_append]
  exact mem_append_left _ hzero

variable (h : tree.Regular)
include h

theorem makeDirectory_ok (hplain : '\x00' ∉ path.toList)
    (hmade : tree.makeDirectory workDir path = .ok tree') :
    ∃ top x dir, withoutTrailingSlash path = join top x ∧ tree.Leads workDir top dir ∧
      Fits top x ∧ tree.find? (dir ++ [x]) = none ∧
      tree' = tree.insert (dir ++ [x]) .directory := by
  unfold makeDirectory at hmade
  split at hmade
  · cases hmade
  split at hmade
  · cases hmade
  · next loc hloc =>
    split at hmade
    · cases hmade
    · next hnone =>
      cases hmade
      obtain ⟨top, x, dir, hpath, hleads, hx, rfl⟩ := h.ends_in_name
        (withoutTrailingSlash_plain hplain) hloc (by simp [hnone])
      exact ⟨top, x, dir, hpath, hleads, hx, hnone, rfl⟩

theorem entrance_name (hplain : '\x00' ∉ path.toList)
    (hplace : tree.entrance workDir path = .ok ⟨dir, x, false⟩) (hdot : isDotName x = false)
    (hsize : x.utf8ByteSize ≤ 255) :
    ∃ top, path = join top x ∧ tree.Leads workDir top dir ∧ Fits top x := by
  rw [entrance] at hplace
  dsimp only at hplace
  split at hplace
  · cases hplace
  next hshort =>
  split at hplace
  · cases hplace
  · next loc hstat =>
    obtain ⟨rfl, rfl, hbare⟩ : loc = dir ∧
        ofList (splitLast (withoutTrailingSlash path).toList).2 = x ∧
        withoutTrailingSlash path = path := by simpa using hplace
    rw [hbare] at hstat hdot hsize ⊢
    obtain ⟨hpath, hfront⟩ := front_base path
    rw [hpath, toList_append, mem_append, not_or] at hplain
    have hx : IsName (base path) := isName_of_not_dot hdot (base_noSlash path) hplain.2 hsize
    have hjoin := join_of_front hpath hfront hx
    refine ⟨_, hjoin, ?_, hx, (congrArg isOverlong hjoin).symm.trans (by simpa using hshort)⟩
    have hfilled : ¬ path.isEmpty = true := by
      intro hempty
      rw [String.isEmpty_iff] at hempty
      exact hx.filled (by rw [hempty]; rfl)
    rw [if_neg hfilled] at hstat
    by_cases hnil : (splitLast path.toList).1 = []
    · -- The name stands alone, in the working directory.
      rw [hnil] at hstat ⊢
      have hwork : loc = workDir := h.stat_eq hstat
      rw [hwork] at hstat ⊢
      exact Leads.nil (stat_ok.mp hstat).2
    · rw [if_neg (by simpa using hnil)] at hstat
      exact Leads.of_stat hplain.1 hstat
  · cases hplace

theorem remove_ok (hplain : '\x00' ∉ path.toList)
    (hremoved : tree.remove workDir path = .ok tree') :
    ∃ top x dir node, path = join top x ∧ tree.Leads workDir top dir ∧ Fits top x ∧
      tree.find? (dir ++ [x]) = some node ∧ node ≠ .directory ∧
      tree' = tree.erase (dir ++ [x]) := by
  rw [remove] at hremoved
  cases hplace : tree.entrance workDir path with
  | error cause =>
    rw [hplace] at hremoved
    cases hremoved
  | ok place =>
    obtain ⟨dir, x, slash⟩ := place
    rw [hplace] at hremoved
    simp only [bind, Except.bind, pure, Except.pure] at hremoved
    by_cases hdot : isDotName x = true
    · rw [if_pos hdot] at hremoved
      cases hremoved
    rw [if_neg hdot] at hremoved
    by_cases hlong : x.utf8ByteSize > 255
    · rw [if_pos hlong] at hremoved
      cases hremoved
    rw [if_neg hlong] at hremoved
    split at hremoved
    · cases hremoved
    · cases hremoved
    · next node hdir hnode =>
      cases slash with
      | true => cases hremoved
      | false =>
        cases hremoved
        obtain ⟨top, hpath, hleads, hx⟩ := h.entrance_name hplain hplace (by simpa using hdot)
          (Nat.not_lt.mp hlong)
        exact ⟨top, x, dir, node, hpath, hleads, hx, hnode, hdir, rfl⟩

theorem rename_ok {target : String} (hplain : '\x00' ∉ target.toList) {top : String}
    (hleads : tree.Leads workDir top dir) (hx : Fits top x)
    (hnode : tree.find? (dir ++ [x]) = some node) (hfile : node ≠ .directory)
    (hfree : ∀ r, tree.stat workDir target ≠ .ok r)
    (hrenamed : tree.rename workDir (join top x) target = .ok tree') :
    ∃ top' y dir', target = join top' y ∧ tree.Leads workDir top' dir' ∧ Fits top' y ∧
      tree.find? (dir' ++ [y]) = none ∧ tree' = tree.move (dir ++ [x]) (dir' ++ [y]) := by
  rw [rename, hleads.entrance_join hx] at hrenamed
  cases hplace : tree.entrance workDir target with
  | error cause =>
    rw [hplace] at hrenamed
    cases hrenamed
  | ok place =>
    obtain ⟨dir', y, slash⟩ := place
    rw [hplace] at hrenamed
    simp only [bind, Except.bind, pure, Except.pure, not_isDotName hx.name, Bool.false_or,
      if_neg (Nat.not_lt.mpr hx.name.short), hnode] at hrenamed
    by_cases hdot : isDotName y = true
    · rw [if_pos hdot] at hrenamed
      cases hrenamed
    rw [if_neg hdot] at hrenamed
    by_cases hlong : y.utf8ByteSize > 255
    · rw [if_pos hlong] at hrenamed
      cases hrenamed
    rw [if_neg hlong] at hrenamed
    have hslash : slash = false := by
      cases slash with
      | false => rfl
      | true =>
        rw [if_pos (by simpa using hfile)] at hrenamed
        cases hrenamed
    subst hslash
    obtain ⟨top', rfl, hleads', hy⟩ := h.entrance_name hplain hplace (by simpa using hdot)
      (Nat.not_lt.mp hlong)
    have hnone : tree.find? (dir' ++ [y]) = none := by
      by_contra hsome
      obtain ⟨n, hn⟩ := Option.ne_none_iff_exists'.mp hsome
      refine hfree (dir' ++ [y], n) ?_
      rw [hleads'.stat_join hy (h.not_link _), lookAt, hn]
    have hne : dir ++ [x] ≠ dir' ++ [y] := by
      intro heq
      rw [heq, hnone] at hnode
      cases hnode
    refine ⟨top', y, dir', rfl, hleads', hy, hnone, ?_⟩
    rw [if_neg (by simp), if_neg hne] at hrenamed
    split at hrenamed
    · cases hrenamed
    split at hrenamed
    · cases hrenamed
    have hreplaced : tree.replacement node (dir' ++ [y]) = .ok tree := by
      simp only [replacement, hnone]
    rw [hreplaced] at hrenamed
    exact (Except.ok.inj hrenamed).symm

theorem write_ok (hwrite : tree.write workDir path bytes = .ok tree') :
    ∃ loc, tree.locate true workDir path = .ok loc ∧ loc ≠ [] ∧
      (∀ n, tree.find? loc = some n → n.leads = false) ∧
      tree' = tree.insert loc (.file bytes false) := by
  unfold write at hwrite
  split at hwrite
  · cases hwrite
  · next loc hloc =>
    obtain ⟨-, hlocate, hfree⟩ := writeLocation_ok.mp hloc
    refine ⟨loc, hlocate, ?_, fun n hn => ?_, ?_⟩
    · rintro rfl
      exact (hfree .directory rfl).1 rfl
    · cases n with
      | file content readOnly => rfl
      | directory => exact absurd rfl (hfree _ hn).1
      | link | device => cases h.plain loc _ hn
    · split at hwrite
      · next hdevice => cases h.plain loc _ hdevice
      · exact (Except.ok.inj hwrite).symm

theorem erase (hnode : tree.find? loc = some node) (hdir : node ≠ .directory) :
    (tree.erase loc).Regular := by
  have hpruned := pruned_erase h.toProper hnode hdir
  exact ⟨hpruned.proper, fun l n hn => h.plain l n (hpruned.less _ n hn)⟩

theorem extends_erase (hnode : tree.find? loc = some node) (hdir : node ≠ .directory) :
    Extends tree (tree.erase loc) := by
  refine FileTree.extends_erase h.toProper hnode ?_
  cases node with
  | file bytes readOnly => rfl
  | directory => exact absurd rfl hdir
  | link target => exact absurd hnode (h.not_link loc target)
  | device => rfl

theorem insert (hdir : tree.find? dir = some .directory) (hx : IsName x)
    (hold : tree.find? (dir ++ [x]) ≠ some .directory) (hnode : node.plain = true) :
    (tree.insert (dir ++ [x]) node).Regular := by
  refine ⟨h.toProper.insert hdir hx hold node, fun l n hn => ?_⟩
  rw [nil_append, find?_insert (by simp)] at hn
  split at hn
  · cases hn
    exact hnode
  · exact h.plain l n hn

end Regular

end FileTree
end SceneText
