import SceneText.Tool.Duplicates
import SceneText.Proofs.Walks

/-!
# Equal files

Files that are grouped by size and then by digest are grouped by content, as long as no two contents
among them have one digest. A group has the files of one content in the order of the walk, and each
file that has an equal is in one group.
-/

namespace SceneText.DuplicatesTool

open Run FileTree List

section Groups

variable {κ α : Type} [DecidableEq κ] {key k : κ} {item : α} {groups : List (κ × List α)}
  {f : α → Option κ} {xs : List α}

theorem mem_insertGroup (hnodup : (groups.map Prod.fst).Nodup) {items : List α} :
    (k, items) ∈ insertGroup key item groups ↔
      if k = key then items = (groups.lookup key).getD [] ++ [item] else (k, items) ∈ groups := by
  induction groups with
  | nil => by_cases hk : k = key <;> simp [insertGroup, hk]
  | cons g groups ih =>
    obtain ⟨k', items'⟩ := g
    rw [map_cons, nodup_cons] at hnodup
    rw [insertGroup]
    by_cases hkey : k' = key
    · subst hkey
      have hrest : (k', items) ∉ groups := fun h => hnodup.1 (mem_map.mpr ⟨_, h, rfl⟩)
      by_cases hk : k = k' <;> simp [hk, hrest]
    · rw [if_neg hkey, mem_cons, ih hnodup.2, lookup_cons_ne (Ne.symm hkey)]
      by_cases hk : k = key
      · simp [hk, Ne.symm hkey]
      · simp [hk]

theorem nodup_insertGroup (h : (groups.map Prod.fst).Nodup) :
    ((insertGroup key item groups).map Prod.fst).Nodup := by
  induction groups with
  | nil => simp [insertGroup]
  | cons g groups ih =>
    rw [insertGroup]
    split
    · exact h
    · next hne =>
      rw [map_cons, nodup_cons] at h ⊢
      refine ⟨fun hmem => ?_, ih h.2⟩
      obtain ⟨⟨k, items⟩, hmem, rfl⟩ := mem_map.mp hmem
      rw [mem_insertGroup h.2, if_neg hne] at hmem
      exact h.1 (mem_map.mpr ⟨_, hmem, rfl⟩)

def tagged (f : α → Option κ) (xs : List α) : List (κ × α) :=
  xs.filterMap fun x => (f x).map (·, x)

theorem grouped (f : α → Option κ) (xs : List α) :
    ((groupBy (tagged f xs)).map Prod.fst).Nodup ∧ ∀ k items,
      (k, items) ∈ groupBy (tagged f xs) ↔ items = xs.filter (f · = some k) ∧ items ≠ [] := by
  induction xs using List.reverseRecOn with
  | nil => exact ⟨nodup_nil, by simp [groupBy, tagged]⟩
  | append_singleton xs x ih =>
    obtain ⟨hnodup, hgroups⟩ := ih
    have hsplit : groupBy (tagged f (xs ++ [x])) =
        (tagged f [x]).foldl (fun groups p => insertGroup p.1 p.2 groups)
          (groupBy (tagged f xs)) := by
      rw [tagged, filterMap_append, groupBy, foldl_append]
      rfl
    cases hx : f x with
    | none =>
      rw [show tagged f [x] = [] by simp [tagged, hx], foldl_nil] at hsplit
      simp [hsplit, hnodup, hgroups, hx]
    | some key =>
      rw [show tagged f [x] = [(key, x)] by simp [tagged, hx], foldl_cons, foldl_nil] at hsplit
      rw [hsplit]
      refine ⟨nodup_insertGroup hnodup, fun k items => ?_⟩
      rw [mem_insertGroup hnodup]
      by_cases hk : k = key
      · subst hk
        have hold : ((groupBy (tagged f xs)).lookup k).getD [] = xs.filter (f · = some k) := by
          cases hlook : (groupBy (tagged f xs)).lookup k with
          | some old =>
            obtain ⟨front, back, heq, -⟩ := lookup_eq_some_iff.mp hlook
            exact ((hgroups k old).mp (by simp [heq])).1
          | none =>
            by_contra hne
            rw [lookup_of_mem hnodup ((hgroups k _).mpr ⟨rfl, Ne.symm hne⟩)] at hlook
            cases hlook
        rw [if_pos rfl, hold]
        constructor
        · rintro rfl
          simp [hx]
        · rintro ⟨rfl, -⟩
          simp [hx]
      · rw [if_neg hk, hgroups, filter_append]
        simp [hx, Ne.symm hk]

def alike (f : α → Option κ) (xs : List α) : List (List α) :=
  ((groupBy (tagged f xs)).map Prod.snd).filter fun g => g.length > 1

theorem mem_alike {g : List α} :
    g ∈ alike f xs ↔ 1 < g.length ∧ ∃ k, g = xs.filter (f · = some k) := by
  simp only [alike, mem_filter, mem_map, Prod.exists, exists_eq_right, (grouped f xs).2,
    gt_iff_lt, decide_eq_true_eq]
  constructor
  · rintro ⟨⟨k, hg, -⟩, hlength⟩
    exact ⟨hlength, k, hg⟩
  · rintro ⟨hlength, k, hg⟩
    exact ⟨⟨k, hg, by rintro rfl; cases hlength⟩, hlength⟩

theorem alike_of_two {x y : α} (hx : x ∈ xs) (hy : y ∈ xs) (hne : x ≠ y) (hfx : f x = some k)
    (hfy : f y = some k) : ∃ g ∈ alike f xs, x ∈ g ∧ y ∈ g := by
  have hxg : x ∈ xs.filter (f · = some k) := by simp [hx, hfx]
  have hyg : y ∈ xs.filter (f · = some k) := by simp [hy, hfy]
  have htwo : [x, y] ⊆ xs.filter (f · = some k) := by
    simpa using And.intro hxg hyg
  have hlength := (subperm_of_subset (by simpa using hne) htwo).length_le
  exact ⟨_, mem_alike.mpr ⟨hlength, k, rfl⟩, hxg, hyg⟩

theorem disjoint_alike (f : α → Option κ) (xs : List α) : (alike f xs).Pairwise List.Disjoint := by
  refine List.Pairwise.filter _ (pairwise_map.mpr ?_)
  refine (pairwise_map.mp (grouped f xs).1).imp_of_mem fun {g g'} hg hg' hne x hx hx' => ?_
  rw [((grouped f xs).2 g.1 g.2).mp hg |>.1, mem_filter, decide_eq_true_eq] at hx
  rw [((grouped f xs).2 g'.1 g'.2).mp hg' |>.1, mem_filter, decide_eq_true_eq] at hx'
  exact hne (Option.some.inj (hx.2.symm.trans hx'.2))

end Groups

def contentAt (s : Session) (path : String) : Option (List UInt8) :=
  (s.tree.read s.workDir path).toOption

def sizeAt (s : Session) (path : String) : Option Nat :=
  (contentAt s path).map List.length

def digestAt (s : Session) (path : String) : Option String :=
  (contentAt s path).map Sha256.digest

variable {s : Session} {dir path : String}

theorem eval_attempt_inquire {α : Type} (hzero : '\x00' ∉ path.toList)
    (ask : FileTree → Location → Except FileCause α) :
    eval (attempt (inquire path ask)) s =
      (.ok ((ask s.tree s.workDir).mapError fun cause => .file cause path none), s) := by
  rw [eval_attempt, inquire, eval_bind_ok (eval_checkPath hzero s), eval_bind_ok (eval_query ask s)]
  cases ask s.tree s.workDir <;> rfl

theorem eval_sizeOf? (hzero : '\x00' ∉ path.toList)
    (hfile : s.tree.isDirectory s.workDir path = false) :
    eval (sizeOf? path) s = (.ok (sizeAt s path), s) := by
  have hsize : (s.tree.size s.workDir path).toOption = sizeAt s path := by
    unfold FileTree.isDirectory at hfile
    unfold sizeAt contentAt FileTree.size FileTree.read
    rcases hstat : s.tree.stat s.workDir path with cause | ⟨loc, node⟩
    · rfl
    · rw [hstat] at hfile
      cases node with
      | directory => cases hfile
      | _ => rfl
  unfold sizeOf? Run.sizeOf
  rw [eval_bind_ok (eval_attempt_inquire hzero _), ← hsize]
  cases s.tree.size s.workDir path <;> rfl

theorem eval_digestOf (hzero : '\x00' ∉ path.toList) :
    eval (digestOf blockSize path) s = (.ok (digestAt s path), s) := by
  rw [digestOf, readBytes, eval_bind_ok (eval_attempt_inquire hzero _), digestAt, contentAt]
  cases s.tree.read s.workDir path <;> rfl

theorem eval_keyedBy {κ : Type} {key : String → Run (Option κ)} {f : String → Option κ}
    {paths : List String} (h : ∀ p ∈ paths, eval (key p) s = (.ok (f p), s)) :
    eval (keyedBy key paths) s = (.ok (tagged f paths), s) := by
  induction paths with
  | nil => rfl
  | cons p paths ih =>
    have hrest := ih fun q hq => h q (by simp [hq])
    rw [keyedBy, eval_bind_ok (h p (by simp)), tagged, filterMap_cons]
    cases f p with
    | none => exact hrest
    | some k => exact eval_bind_ok hrest _

theorem eval_find (hproper : s.tree.Proper) (hzero : '\x00' ∉ dir.toList) :
    eval (find dir) s = (.ok ((alike (sizeAt s) (filesBelow s.tree s.workDir dir none)).flatMap
      (alike (digestAt s))), s) := by
  have hplain : ∀ p ∈ filesBelow s.tree s.workDir dir none, '\x00' ∉ p.toList ∧
      s.tree.isDirectory s.workDir p = false := by
    intro p hp
    obtain ⟨hfile, names, -, hnames, rfl⟩ := below_of_mem_filesBelow hproper.toSound hp
    exact ⟨Path.plain_below hzero hnames, hfile⟩
  have hwalk : eval (Run.walk dir) s = (.ok (s.tree.walk s.workDir dir), s) := by
    rw [Run.walk, eval_bind_ok (eval_checkPath hzero s), eval_query]
  have hsizes : eval (keyedBy sizeOf? (filesBelow s.tree s.workDir dir none)) s = _ :=
    eval_keyedBy fun p hp => eval_sizeOf? (hplain p hp).1 (hplain p hp).2
  have hparted : ∀ g ∈ (groupBy (tagged (sizeAt s) (filesBelow s.tree s.workDir dir none))).filter
      fun g => g.2.length > 1,
      eval (parted (id g).2) s = (.ok (alike (digestAt s) g.2), s) := by
    intro g hg
    refine eval_bind_ok (eval_keyedBy fun p hp => eval_digestOf ?_) _
    have hsized := ((grouped _ _).2 g.1 g.2).mp (mem_filter.mp hg).1
    rw [id, hsized.1] at hp
    exact (hplain p (mem_filter.mp hp).1).1
  have hgroups := @eval_mapM _ _ _ (fun g : Nat × List String => parted g.2) id _ s _ hparted
  rw [map_id] at hgroups
  rw [find, eval_bind_ok hwalk]
  rw [filesBelow_none] at hsizes hgroups ⊢
  refine (eval_bind_ok hsizes _).trans ((eval_bind_ok hgroups _).trans ?_)
  rw [flatMap_def, alike, filter_map, map_map]
  rfl

/-- No two contents among some files have the same digest. -/
def Distinguished (s : Session) (files : List String) : Prop :=
  ∀ p ∈ files, ∀ q ∈ files, ∀ a b, contentAt s p = some a → contentAt s q = some b →
    Sha256.digest a = Sha256.digest b → a = b

theorem mem_alike_digest {files g : List String} (h : Distinguished s files) :
    g ∈ (alike (sizeAt s) files).flatMap (alike (digestAt s)) ↔ g ∈ alike (contentAt s) files := by
  -- Among these files a content has the files of its size and digest.
  have hclass : ∀ p ∈ files, ∀ bytes, contentAt s p = some bytes →
      (files.filter (sizeAt s · = some bytes.length)).filter
          (digestAt s · = some (Sha256.digest bytes)) =
        files.filter (contentAt s · = some bytes) := by
    intro p hp bytes hbytes
    rw [filter_filter]
    refine filter_congr fun q hq => ?_
    rw [← Bool.decide_and, decide_eq_decide, sizeAt, digestAt]
    cases hcontent : contentAt s q with
    | none => simp
    | some content =>
      have hsame := h p hp q hq bytes content hbytes hcontent
      simp only [Option.map_some, Option.some.injEq]
      exact ⟨fun hq => (hsame hq.1.symm).symm, by rintro rfl; simp⟩
  simp only [mem_flatMap, mem_alike]
  constructor
  · rintro ⟨sized, ⟨-, n, rfl⟩, hlength, d, rfl⟩
    obtain ⟨p, hp⟩ := exists_mem_of_length_pos (Nat.zero_lt_of_lt hlength)
    simp only [mem_filter, decide_eq_true_eq, sizeAt, digestAt, Option.map_eq_some_iff] at hp
    obtain ⟨⟨hp, bytes, hbytes, rfl⟩, bytes', hbytes', rfl⟩ := hp
    obtain rfl := Option.some.inj (hbytes.symm.trans hbytes')
    exact ⟨hlength, bytes, hclass p hp bytes hbytes⟩
  · rintro ⟨hlength, bytes, rfl⟩
    obtain ⟨p, hp⟩ := exists_mem_of_length_pos (Nat.zero_lt_of_lt hlength)
    rw [mem_filter, decide_eq_true_eq] at hp
    rw [← hclass p hp.1 bytes hp.2] at hlength ⊢
    exact ⟨_, ⟨hlength.trans_le filter_sublist.length_le, _, rfl⟩, hlength, _, rfl⟩

theorem countP_eq_one {groups : List (List String)} (hdisjoint : groups.Pairwise List.Disjoint)
    {g : List String} (hg : g ∈ groups) (hpath : path ∈ g) : groups.countP (path ∈ ·) = 1 := by
  induction groups with
  | nil => cases hg
  | cons g' groups ih =>
    rw [pairwise_cons] at hdisjoint
    rcases mem_cons.mp hg with rfl | hg
    · have hrest : groups.countP (path ∈ ·) = 0 :=
        countP_eq_zero.mpr fun g' hg' h => hdisjoint.1 g' hg' hpath (by simpa using h)
      simp [hrest, hpath]
    · have hnot : path ∉ g' := fun h => hdisjoint.1 g hg h hpath
      simp [ih hdisjoint.2 hg, hnot]

/-- What is found are the classes of equal files: two files are in one group just if they have the
same content, a group has at least two files, in the order of the walk, and a file that has an equal
is in one group. -/
theorem find_classes (hproper : s.tree.Proper) (hzero : '\x00' ∉ dir.toList)
    (hdigest : Distinguished s (filesBelow s.tree s.workDir dir none)) :
    ∃ groups, eval (find dir) s = (.ok groups, s) ∧
      (∀ p ∈ filesBelow s.tree s.workDir dir none, ∀ q ∈ filesBelow s.tree s.workDir dir none,
        p ≠ q → ((∃ g ∈ groups, p ∈ g ∧ q ∈ g) ↔
          ∃ bytes, contentAt s p = some bytes ∧ contentAt s q = some bytes)) ∧
      (∀ g ∈ groups, 2 ≤ g.length ∧ g.Nodup ∧ g.Sublist (filesBelow s.tree s.workDir dir none)) ∧
      ∀ p ∈ filesBelow s.tree s.workDir dir none, ∀ q ∈ filesBelow s.tree s.workDir dir none,
        p ≠ q → ∀ bytes, contentAt s p = some bytes → contentAt s q = some bytes →
          groups.countP (p ∈ ·) = 1 := by
  have hgroups := fun g => @mem_alike_digest s _ g hdigest
  have hdisjoint : ((alike (sizeAt s) (filesBelow s.tree s.workDir dir none)).flatMap
      (alike (digestAt s))).Pairwise List.Disjoint := by
    refine pairwise_flatMap.mpr ⟨fun g _ => disjoint_alike _ _, ?_⟩
    refine (disjoint_alike _ _).imp fun {a b} hab g hg g' hg' p hp hp' => ?_
    obtain ⟨-, k, rfl⟩ := mem_alike.mp hg
    obtain ⟨-, k', rfl⟩ := mem_alike.mp hg'
    exact hab (mem_filter.mp hp).1 (mem_filter.mp hp').1
  refine ⟨_, eval_find hproper hzero, ?_, ?_, ?_⟩
  · intro p hp q hq hne
    constructor
    · rintro ⟨g, hg, hpg, hqg⟩
      obtain ⟨-, bytes, rfl⟩ := mem_alike.mp ((hgroups g).mp hg)
      simp only [mem_filter, decide_eq_true_eq] at hpg hqg
      exact ⟨bytes, hpg.2, hqg.2⟩
    · rintro ⟨bytes, hpb, hqb⟩
      obtain ⟨g, hg, hboth⟩ := alike_of_two hp hq hne hpb hqb
      exact ⟨g, (hgroups g).mpr hg, hboth⟩
  · intro g hg
    obtain ⟨hlength, bytes, rfl⟩ := mem_alike.mp ((hgroups g).mp hg)
    exact ⟨hlength, (nodup_filesBelow hproper _ _ _).filter _, filter_sublist⟩
  · intro p hp q hq hne bytes hpb hqb
    obtain ⟨g, hg, hpg, -⟩ := alike_of_two hp hq hne hpb hqb
    exact countP_eq_one hdisjoint ((hgroups g).mpr hg) hpg

def twins : Session where
  tree := ⟨[(["d"], .directory), (["d", "a"], .file [120] false), (["d", "b"], .file [121] false),
    (["d", "c"], .file [120] false)]⟩
  workDir := []

theorem files_twins : filesBelow twins.tree twins.workDir "d" none = ["d/a", "d/b", "d/c"] := by
  have hnames : twins.tree.names ["d"] = ["a", "b", "c"] :=
    (mergeSort_of_pairwise (by decide +kernel)).trans (by decide +kernel)
  have hlist : twins.tree.list twins.workDir "d" = .ok ["a", "b", "c"] := by
    rw [← hnames]
    rfl
  rw [filesBelow_none, filesWithin_succ hlist]
  decide +kernel

theorem find_classes_twins : ∃ groups, eval (find "d") twins = (.ok groups, twins) ∧
    (∃ g ∈ groups, "d/a" ∈ g ∧ "d/c" ∈ g) ∧ ¬ ∃ g ∈ groups, "d/a" ∈ g ∧ "d/b" ∈ g := by
  have hproper : twins.tree.Proper := ⟨sound_of_entries (by decide +kernel), by decide +kernel⟩
  have hdigest : Distinguished twins (filesBelow twins.tree twins.workDir "d" none) := by
    have hread : ∀ p ∈ ["d/a", "d/b", "d/c"], contentAt twins p = some [120] ∨
        contentAt twins p = some [121] := by decide +kernel
    have hapart : Sha256.digest [120] ≠ Sha256.digest [121] := by decide +kernel
    rw [files_twins]
    intro p hp q hq a b ha hb heq
    rcases hread p hp with hp | hp <;> rcases hread q hq with hq | hq <;>
      obtain rfl := Option.some.inj (ha.symm.trans hp) <;>
      obtain rfl := Option.some.inj (hb.symm.trans hq)
    · rfl
    · exact absurd heq hapart
    · exact absurd heq.symm hapart
    · rfl
  obtain ⟨groups, hrun, hsame, -⟩ := find_classes hproper (by decide) hdigest
  rw [files_twins] at hsame
  refine ⟨groups, hrun, ?_, ?_⟩
  · exact (hsame "d/a" (by decide) "d/c" (by decide) (by decide)).mpr ⟨[120], by decide +kernel⟩
  · intro h
    obtain ⟨bytes, ha, hb⟩ := (hsame "d/a" (by decide) "d/b" (by decide) (by decide)).mp h
    have hne : contentAt twins "d/a" ≠ contentAt twins "d/b" := by decide +kernel
    exact hne (ha.trans hb.symm)

end SceneText.DuplicatesTool
