import Mathlib.Data.List.Flatten
import Mathlib.Data.List.Perm.Subperm
import SceneText.Proofs.RegularTrees

/-!
# Walks

A walk from a directory lists paths that go down from it by proper names, and no path twice. Where
there are only files and directories and no path is too long, it lists the files below the directory
and nothing else. From the directory the names alone lead to what is listed.
-/

namespace SceneText

open List SceneText.Path Option

variable {p : List String}

namespace Path

variable {top x : String} {p q : List String}

theorem below_concat (top : String) (p : List String) (x : String) :
    below top (p ++ [x]) = join (below top p) x := by
  rw [below, foldl_append]
  rfl

theorem filledParts_below (hp : ∀ y ∈ p, IsName y) :
    filledParts (below top p) = filledParts top ++ p := by
  induction p generalizing top with
  | nil => exact (append_nil _).symm
  | cons x p ih =>
    have hrest := @ih (join top x) fun y hy => hp y (by simp [hy])
    rw [filledParts_join (hp x (by simp)), append_assoc] at hrest
    exact hrest

theorem plain_below (htop : '\x00' ∉ top.toList) (hp : ∀ y ∈ p, IsName y) :
    '\x00' ∉ (below top p).toList := by
  induction p generalizing top with
  | nil => exact htop
  | cons x p ih => exact ih (plain_join (hp x (by simp)) htop) fun y hy => hp y (by simp [hy])

theorem below_inj (hp : ∀ y ∈ p, IsName y) (hq : ∀ y ∈ q, IsName y)
    (h : below top p = below top q) : p = q := by
  have hparts := congrArg filledParts h
  rw [filledParts_below hp, filledParts_below hq] at hparts
  exact append_cancel_left hparts

theorem absoluteParts_join (workDir : Location) (hx : IsName x) :
    absoluteParts workDir (join top x) = absoluteParts workDir top ++ [x] := by
  have hparts : ∀ path, absoluteParts workDir path =
      (filledParts path).foldl pushPart (FileTree.startOf workDir path) :=
    fun path => (foldl_filledParts path _).symm
  rw [hparts, hparts, filledParts_join hx, FileTree.startOf_join hx, foldl_append]
  exact FileTree.pushPart_ordinary (FileTree.not_isDotName hx) _

theorem absoluteParts_below (workDir : Location) (hp : ∀ y ∈ p, IsName y) :
    absoluteParts workDir (below top p) = absoluteParts workDir top ++ p := by
  induction p generalizing top with
  | nil => exact (append_nil _).symm
  | cons x p ih =>
    have hrest := @ih (join top x) fun y hy => hp y (by simp [hy])
    rw [absoluteParts_join workDir (hp x (by simp)), append_assoc] at hrest
    exact hrest

theorem commonLength_append (start p : List String) :
    commonLength start (start ++ p) = start.length := by
  induction start with
  | nil => simp [commonLength]
  | cons a start ih => rw [cons_append, commonLength, if_pos rfl, ih]; rfl

theorem between_below (workDir : Location) (hp : ∀ y ∈ p, IsName y) (hne : p ≠ []) :
    between (absoluteParts workDir top) (absoluteParts workDir (below top p)) =
      "/".intercalate p := by
  rw [absoluteParts_below workDir hp, between, commonLength_append, Nat.sub_self,
    drop_left, replicate_zero, nil_append, if_neg (by simpa using hne)]

theorem join_relative {w : String} (hw : Text.hasPrefix w "/" = false) :
    join top w = opened top ++ w := by
  rw [join, if_neg (by simp [hw]), opened]
  split <;> rfl

theorem join_intercalate (hp : ∀ y ∈ p, IsName y) (hne : p ≠ []) :
    join top ("/".intercalate p) = below top p := by
  -- A text that starts with a name starts with no slash.
  have hrelative : ∀ x w, IsName x → Text.hasPrefix (x ++ w) "/" = false := by
    intro x w hx
    obtain ⟨c, rest, hchars⟩ : ∃ c rest, x.toList = c :: rest :=
      exists_cons_of_ne_nil (mt String.toList_eq_nil_iff.mp hx.filled)
    have hslash : '/' ≠ c := by
      rintro rfl
      exact hx.noSlash (by simp [hchars])
    rw [Text.hasPrefix, String.toList_append, hchars, Bool.eq_false_iff, Ne, isPrefixOf_iff_prefix]
    exact fun h => hslash (cons_prefix_cons.mp h).1
  induction p generalizing top with
  | nil => exact absurd rfl hne
  | cons x p ih =>
    have hx : IsName x := hp x (by simp)
    cases p with
    | nil => simp [below]
    | cons y p =>
      have hrest : join (join top x) ("/".intercalate (y :: p)) = below top (x :: y :: p) :=
        ih (fun z hz => hp z (by simp [hz])) (by simp)
      have hopened : opened (join top x) = join top x ++ "/" := by
        rw [join_name hx, opened, not_hasSuffix_name _ hx, Bool.or_false, if_neg]
        simp [hx.filled]
      have hway : "/".intercalate (x :: y :: p) = x ++ ("/" ++ "/".intercalate (y :: p)) := by
        rw [String.intercalate_cons_cons, String.append_assoc]
      have hnext : Text.hasPrefix ("/".intercalate (y :: p)) "/" = false := by
        cases p with
        | nil => simpa using hrelative y "" (hp y (by simp))
        | cons z p =>
          rw [String.intercalate_cons_cons, String.append_assoc]
          exact hrelative y _ (hp y (by simp))
      rw [← hrest, join_relative hnext, hopened, join_name hx, hway,
        join_relative (hrelative x _ hx)]
      simp only [String.append_assoc]

end Path

namespace FileTree

variable {tree : FileTree} {workDir dir : Location} {top x path : String} {depth : Nat}

theorem list_ok {names : List String} (h : tree.list workDir top = .ok names) :
    ∃ loc, tree.stat workDir top = .ok (loc, .directory) ∧ names = tree.names loc := by
  unfold list at h
  split at h
  · cases h
  · next loc hstat =>
    cases h
    exact ⟨loc, hstat, rfl⟩
  · cases h

def Visit.paths (visit : Visit) : List String :=
  visit.files.map (join visit.path)

def filesWithin (tree : FileTree) (workDir : Location) (depth : Nat) (top : String) :
    List String :=
  (tree.walkWithin workDir depth top).flatMap Visit.paths

def descents (tree : FileTree) (workDir : Location) (top : String) (names : List String) :
    List String :=
  (names.filter fun n => tree.isDirectory workDir (join top n)).filter
    fun n => !tree.isLink workDir (join top n)

theorem filesWithin_succ {names : List String} (h : tree.list workDir top = .ok names)
    (depth : Nat) : tree.filesWithin workDir (depth + 1) top =
      (names.filter fun n => !tree.isDirectory workDir (join top n)).map (join top) ++
        (tree.descents workDir top names).flatMap fun n =>
          tree.filesWithin workDir depth (join top n) := by
  rw [filesWithin, walkWithin, h]
  rw [flatMap_cons, flatMap_assoc]
  rfl

theorem filesWithin_cases (tree : FileTree) (workDir : Location) (depth : Nat) (top : String) :
    tree.filesWithin workDir (depth + 1) top = [] ∨ ∃ names, tree.list workDir top = .ok names := by
  cases hlist : tree.list workDir top with
  | ok names => exact .inr ⟨names, rfl⟩
  | error cause =>
    rw [filesWithin, walkWithin, hlist]
    exact .inl rfl

theorem Sound.below_of_mem (hsound : tree.Sound) (h : path ∈ tree.filesWithin workDir depth top) :
    tree.isDirectory workDir path = false ∧
      ∃ p, p ≠ [] ∧ (∀ y ∈ p, IsName y) ∧ path = below top p := by
  induction depth generalizing top with
  | zero => cases h
  | succ depth ih =>
    rcases filesWithin_cases tree workDir depth top with hnil | ⟨names, hlist⟩
    · rw [hnil] at h
      cases h
    obtain ⟨loc, -, rfl⟩ := list_ok hlist
    have hname : ∀ n ∈ tree.names loc, IsName n := by
      intro n hn
      obtain ⟨node, hnode⟩ := ne_none_iff_exists'.mp (mem_names.mp hn)
      exact hsound.named loc n node hnode
    rw [filesWithin_succ hlist, mem_append, List.mem_map, mem_flatMap] at h
    rcases h with ⟨n, hn, rfl⟩ | ⟨n, hn, h⟩
    · obtain ⟨hn, hfile⟩ := mem_filter.mp hn
      exact ⟨by simpa using hfile, [n], by simp, by simpa using hname n hn, rfl⟩
    · have hn := hname n (mem_filter.mp (mem_filter.mp hn).1).1
      obtain ⟨hfile, p, -, hp, rfl⟩ := ih h
      exact ⟨hfile, n :: p, by simp, by simpa using ⟨hn, hp⟩, rfl⟩

theorem Proper.nodup_filesWithin (hproper : tree.Proper) (workDir : Location) (depth : Nat)
    (top : String) : (tree.filesWithin workDir depth top).Nodup := by
  induction depth generalizing top with
  | zero => exact nodup_nil
  | succ depth ih =>
    rcases filesWithin_cases tree workDir depth top with hnil | ⟨names, hlist⟩
    · rw [hnil]
      exact nodup_nil
    obtain ⟨loc, -, rfl⟩ := list_ok hlist
    have hname : ∀ n ∈ tree.names loc, IsName n := fun n hn => hproper.isName_of_mem hn
    have hnodup := nodup_names hproper loc
    -- Two paths that go down by different first names, or by one name and by more, differ.
    have hfirst : ∀ m ∈ tree.names loc, ∀ n ∈ tree.names loc, ∀ p q : List String,
        (∀ y ∈ p, IsName y) → (∀ y ∈ q, IsName y) →
        below (join top m) p = below (join top n) q → m = n ∧ p = q := by
      intro m hm n hn p q hp hq heq
      have hboth := @below_inj top (m :: p) (n :: q) (by simpa using ⟨hname m hm, hp⟩)
        (by simpa using ⟨hname n hn, hq⟩) heq
      exact List.cons.inj hboth
    have hgoes : ∀ n ∈ tree.descents workDir top (tree.names loc), n ∈ tree.names loc :=
      fun n hn => (mem_filter.mp (mem_filter.mp hn).1).1
    rw [filesWithin_succ hlist, nodup_append']
    refine ⟨?_, ?_, ?_⟩
    · refine (hnodup.filter _).map_on fun m hm n hn heq => ?_
      exact (hfirst m (mem_filter.mp hm).1 n (mem_filter.mp hn).1 [] [] (by simp) (by simp) heq).1
    · refine nodup_flatMap.mpr ⟨fun n _ => ih _, ?_⟩
      refine ((hnodup.filter _).filter _).imp_of_mem fun {m n} hm hn hne path hpm hpn => hne ?_
      obtain ⟨-, p, -, hp, rfl⟩ := hproper.toSound.below_of_mem hpm
      obtain ⟨-, q, -, hq, heq⟩ := hproper.toSound.below_of_mem hpn
      exact (hfirst m (hgoes m hm) n (hgoes n hn) p q hp hq heq).1
    · intro path hpath hbelow
      obtain ⟨m, hm, rfl⟩ := mem_map.mp hpath
      obtain ⟨n, hn, hbelow⟩ := mem_flatMap.mp hbelow
      obtain ⟨-, q, hne, hq, heq⟩ := hproper.toSound.below_of_mem hbelow
      exact hne (hfirst m (mem_filter.mp hm).1 n (hgoes n hn) [] q (by simp) hq heq).2.symm

section

variable (h : tree.Leads workDir top dir)
include h

theorem Leads.below (hsound : tree.Sound) {q : List String}
    (hdir : tree.find? (dir ++ q) = some .directory) :
    tree.Leads workDir (below top q) (dir ++ q) := by
  induction q generalizing top dir with
  | nil => rwa [append_nil]
  | cons x q ih =>
    have hsplit : dir ++ x :: q = dir ++ [x] ++ q := by simp
    rw [hsplit] at hdir ⊢
    have hfirst : tree.find? (dir ++ [x]) = some .directory := by
      by_cases hq : q = []
      · simpa [hq] using hdir
      · exact hsound.directory_above hq hdir
    exact ih (h.step (hsound.named dir x _ hfirst) hfirst) hdir

theorem Leads.fits_below (hsound : tree.Sound) (hne : p ≠ [])
    (hp : tree.find? (dir ++ p) ≠ none) (hshort : isOverlong (Path.below top p) = false) :
    ∃ q x, p = q ++ [x] ∧ tree.Leads workDir (Path.below top q) (dir ++ q) ∧
      Fits (Path.below top q) x := by
  obtain ⟨node, hnode⟩ := ne_none_iff_exists'.mp hp
  obtain rfl | ⟨q, x, rfl⟩ := eq_nil_or_concat p
  · exact absurd rfl hne
  · rw [concat_eq_append, ← append_assoc] at hnode
    rw [concat_eq_append, below_concat] at hshort
    exact ⟨q, x, concat_eq_append, h.below hsound (hsound.above _ _ _ hnode),
      hsound.named _ _ _ hnode, hshort⟩

theorem Leads.stat_below (hsound : tree.Sound) (hne : p ≠ [])
    {node : Node} (hp : tree.find? (dir ++ p) = some node) (hlink : ∀ target, node ≠ .link target)
    (hshort : isOverlong (Path.below top p) = false) :
    tree.stat workDir (Path.below top p) = .ok (dir ++ p, node) := by
  obtain ⟨q, x, rfl, hleads, hx⟩ := h.fits_below hsound hne (by simp [hp]) hshort
  rw [← append_assoc] at hp ⊢
  have hno : ∀ target, tree.find? (dir ++ q ++ [x]) ≠ some (.link target) := by
    rw [hp]
    exact fun target heq => hlink target (some.inj heq)
  rw [below_concat, hleads.stat_join hx hno, lookAt, hp]

theorem Leads.opens_below (hsound : tree.Sound) (hne : p ≠ [])
    {bytes : List UInt8} (hp : tree.find? (dir ++ p) = some (.file bytes false))
    (hshort : isOverlong (Path.below top p) = false) :
    tree.Opens workDir (Path.below top p) (dir ++ p) := by
  obtain ⟨q, x, rfl, hleads, hx⟩ := h.fits_below hsound hne (by simp [hp]) hshort
  rw [← append_assoc] at hp ⊢
  rw [Path.below_concat]
  refine hleads.opens_join hx fun n hn => ⟨bytes, ?_⟩
  rw [hp] at hn
  exact (some.inj hn).symm

end

theorem Sound.length_le (hsound : tree.Sound) (hp : tree.find? (dir ++ p) ≠ none) :
    p.length ≤ tree.entries.length := by
  obtain ⟨node, hnode⟩ := ne_none_iff_exists'.mp hp
  have hprefixes : ((List.range p.length).map fun i => dir ++ p.take (i + 1)).Nodup := by
    refine nodup_range.map_on fun i hi j hj heq => ?_
    have hlength := congrArg List.length (append_cancel_left heq)
    rw [mem_range] at hi hj
    simp only [length_take] at hlength
    omega
  have hentries : ((List.range p.length).map fun i => dir ++ p.take (i + 1)) ⊆
      tree.entries.map Prod.fst := by
    intro loc hloc
    obtain ⟨i, hi, rfl⟩ := mem_map.mp hloc
    have hfilled : p.take (i + 1) ≠ [] := by
      rw [Ne, take_eq_nil_iff]
      rintro (h | rfl)
      · cases h
      · cases hi
    refine mem_keys (by simp [hfilled]) ?_
    by_cases hrest : p.drop (i + 1) = []
    · have hall : p.take (i + 1) = p := by
        rw [take_of_length_le (by simpa using hrest)]
      rwa [hall]
    · have hsplit : dir ++ p = dir ++ p.take (i + 1) ++ p.drop (i + 1) := by simp
      rw [hsplit] at hnode
      rw [hsound.directory_above hrest hnode]
      simp
  simpa using (subperm_of_subset hprefixes hentries).length_le

section Regular

variable (hzero : '\x00' ∉ top.toList) (hstat : tree.stat workDir top = .ok (dir, .directory))
  (hplain : tree.Plain dir)

include hzero hstat hplain

theorem stat_regular (hname : IsName x) (hshort : isOverlong (join top x) = false)
    {node : Node} (hnode : tree.find? (dir ++ [x]) = some node) :
    tree.stat workDir (join top x) = .ok (dir ++ [x], node) ∧
      tree.isLink workDir (join top x) = false := by
  have hleads : tree.Leads workDir top dir := .of_stat hzero hstat
  constructor
  · rw [hleads.stat_join ⟨hname, hshort⟩ (hplain.no_link [x]), lookAt, hnode]
  · rw [isLink, linkStat, hleads.locate_join ⟨hname, hshort⟩ (hplain.no_link [x])]
    dsimp only
    rw [hnode]
    cases node with
    | link target => exact absurd hnode (hplain.no_link [x] target)
    | _ => rfl

theorem Proper.listed_regular (hproper : tree.Proper)
    (hshort : ∀ n, tree.find? (dir ++ [n]) ≠ none → isOverlong (join top n) = false) :
    (∀ n, n ∈ (tree.names dir).filter (fun n => !tree.isDirectory workDir (join top n)) ↔
      ∃ bytes readOnly, tree.find? (dir ++ [n]) = some (.file bytes readOnly)) ∧
    ∀ n, n ∈ tree.descents workDir top (tree.names dir) ↔
      tree.find? (dir ++ [n]) = some .directory := by
  have hseen : ∀ n node, tree.find? (dir ++ [n]) = some node →
      tree.isDirectory workDir (join top n) = decide (node = .directory) ∧
        tree.isLink workDir (join top n) = false := by
    intro n node hnode
    obtain ⟨hat, hlink⟩ := stat_regular hzero hstat hplain (hproper.named dir n node hnode)
      (hshort n (by simp [hnode])) hnode
    refine ⟨?_, hlink⟩
    rw [isDirectory, hat]
    cases node <;> rfl
  refine ⟨fun n => ?_, fun n => ?_⟩
  · rw [mem_filter, mem_names]
    cases hnode : tree.find? (dir ++ [n]) with
    | none => simp
    | some node =>
      rw [(hseen n node hnode).1]
      cases node with
      | file bytes readOnly => simp
      | directory => simp
      | link target => exact absurd hnode (hplain.no_link [n] target)
      | device => cases hplain [n] _ hnode
  · rw [descents, mem_filter, mem_filter, mem_names]
    cases hnode : tree.find? (dir ++ [n]) with
    | none => simp
    | some node =>
      rw [(hseen n node hnode).1, (hseen n node hnode).2]
      simp

theorem Proper.mem_filesWithin (hproper : tree.Proper)
    (hshort : ∀ p n, p ≠ [] → tree.find? (dir ++ p) = some n → isOverlong (below top p) = false) :
    path ∈ tree.filesWithin workDir depth top ↔ ∃ p bytes readOnly, p ≠ [] ∧ p.length ≤ depth ∧
      path = below top p ∧ tree.find? (dir ++ p) = some (.file bytes readOnly) := by
  induction depth generalizing top dir with
  | zero =>
    constructor
    · exact fun h => absurd h not_mem_nil
    · rintro ⟨p, bytes, readOnly, hne, hlength, -⟩
      exact absurd (length_eq_zero_iff.mp (Nat.le_zero.mp hlength)) hne
  | succ depth ih =>
    have hlist : tree.list workDir top = .ok (tree.names dir) := by
      rw [list, hstat]
    have hshort' : ∀ n, tree.find? (dir ++ [n]) ≠ none → isOverlong (join top n) = false := by
      intro n hn
      obtain ⟨node, hnode⟩ := ne_none_iff_exists'.mp hn
      exact hshort [n] node (by simp) hnode
    obtain ⟨hfiles, hdirs⟩ := hproper.listed_regular hzero hstat hplain hshort'
    have hnext : ∀ n, tree.find? (dir ++ [n]) = some .directory →
        (path ∈ tree.filesWithin workDir depth (join top n) ↔
          ∃ p bytes readOnly, p ≠ [] ∧ p.length ≤ depth ∧ path = below top (n :: p) ∧
            tree.find? (dir ++ [n] ++ p) = some (.file bytes readOnly)) := by
      intro n hn
      have hname := hproper.named dir n _ hn
      refine ih (plain_join hname hzero) (stat_regular hzero hstat hplain hname
        (hshort' n (by simp [hn])) hn).1 (hplain.below [n]) ?_
      intro p node _ hnode
      exact hshort (n :: p) node (by simp) (by simpa using hnode)
    rw [filesWithin_succ hlist, mem_append, List.mem_map, mem_flatMap]
    constructor
    · rintro (⟨n, hn, rfl⟩ | ⟨n, hn, h⟩)
      · obtain ⟨bytes, readOnly, hnode⟩ := (hfiles n).mp hn
        exact ⟨[n], bytes, readOnly, by simp, by simp, rfl, hnode⟩
      · obtain ⟨p, bytes, readOnly, -, hlength, rfl, hnode⟩ := (hnext n ((hdirs n).mp hn)).mp h
        refine ⟨n :: p, bytes, readOnly, by simp, by simpa using hlength, rfl, ?_⟩
        simpa using hnode
    · rintro ⟨p, bytes, readOnly, hne, hlength, rfl, hnode⟩
      cases p with
      | nil => exact absurd rfl hne
      | cons n p =>
        by_cases hp : p = []
        · subst hp
          exact .inl ⟨n, (hfiles n).mpr ⟨bytes, readOnly, hnode⟩, rfl⟩
        · rw [append_cons] at hnode
          have hdir := hproper.directory_above hp hnode
          exact .inr ⟨n, (hdirs n).mpr hdir, (hnext n hdir).mpr
            ⟨p, bytes, readOnly, hp, by simpa using hlength, rfl, hnode⟩⟩

end Regular

end FileTree

namespace Run

open FileTree

variable {tree : FileTree} {workDir dir : Location} {top path : String}

theorem filesBelow_none (tree : FileTree) (workDir : Location) (top : String) :
    filesBelow tree workDir top none = tree.filesWithin workDir (tree.entries.length + 2) top := by
  have hall : ∀ visit : Visit, visit.files.filter (suffixMatches none) = visit.files :=
    fun visit => filter_eq_self.mpr fun _ _ => rfl
  simp only [filesBelow, hall]
  rfl

theorem filesBelow_sublist (tree : FileTree) (workDir : Location) (top : String)
    (suffix : Option String) :
    (filesBelow tree workDir top suffix).Sublist (filesBelow tree workDir top none) := by
  rw [filesBelow_none, filesBelow, filesWithin, FileTree.walk]
  exact List.Sublist.flatMap_right _ fun visit _ => filter_sublist.map _

theorem nodup_filesBelow (hproper : tree.Proper) (workDir : Location) (top : String)
    (suffix : Option String) : (filesBelow tree workDir top suffix).Nodup := by
  have hnodup := hproper.nodup_filesWithin workDir (tree.entries.length + 2) top
  rw [← filesBelow_none] at hnodup
  exact hnodup.sublist (filesBelow_sublist tree workDir top suffix)

theorem below_of_mem_filesBelow (hsound : tree.Sound) {suffix : Option String}
    (h : path ∈ filesBelow tree workDir top suffix) :
    tree.isDirectory workDir path = false ∧
      ∃ p, p ≠ [] ∧ (∀ y ∈ p, IsName y) ∧ path = below top p := by
  have hmem := (filesBelow_sublist tree workDir top suffix).subset h
  rw [filesBelow_none] at hmem
  exact hsound.below_of_mem hmem

theorem eval_relative_below {s : Session} (hp : ∀ y ∈ p, IsName y) (hne : p ≠ []) :
    eval (relative (below top p) top) s = (.ok ("/".intercalate p), s) := by
  have hfilled : below top p ≠ "" := by
    intro hempty
    have hparts := @filledParts_below top p hp
    rw [hempty] at hparts
    exact hne (append_eq_nil_iff.mp hparts.symm).2
  rw [relative, if_neg (by simpa using hfilled), ← between_below s.workDir hp hne]
  rfl

theorem mem_filesBelow_regular (hproper : tree.Proper) (hzero : '\x00' ∉ top.toList)
    (hstat : tree.stat workDir top = .ok (dir, .directory)) (hplain : tree.Plain dir)
    (hshort : ∀ p n, p ≠ [] → tree.find? (dir ++ p) = some n → isOverlong (below top p) = false) :
    path ∈ filesBelow tree workDir top none ↔ ∃ p bytes readOnly, p ≠ [] ∧
      path = below top p ∧ tree.find? (dir ++ p) = some (.file bytes readOnly) := by
  rw [filesBelow_none, hproper.mem_filesWithin hzero hstat hplain hshort]
  constructor
  · rintro ⟨p, bytes, readOnly, hne, -, hpath, hfile⟩
    exact ⟨p, bytes, readOnly, hne, hpath, hfile⟩
  · rintro ⟨p, bytes, readOnly, hne, hpath, hfile⟩
    have hlength := hproper.length_le (by simp [hfile] : tree.find? (dir ++ p) ≠ none)
    exact ⟨p, bytes, readOnly, hne, by omega, hpath, hfile⟩

end Run
end SceneText
