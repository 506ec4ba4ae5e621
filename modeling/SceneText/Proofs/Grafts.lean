import SceneText.Proofs.CleanPaths
import SceneText.Proofs.Collecting

/-!
# Grafts

A tree grows by copies: what was in it stays, and everything new lies below one location and is what
is at the same place below another. Grafts below the same locations make one graft. The
locations may overlap; the contents of new files come from files that were there before in any case.
-/

namespace SceneText

open List SceneText.Path

def Node.plain : Node → Bool
  | .file _ _ | .directory => true
  | _ => false

namespace FileTree

variable {tree t t' t'' : FileTree} {src tgt dir loc : Location} {x : String} {node n : Node}

/-- A sound tree that has one node at each place. -/
structure Proper (tree : FileTree) : Prop extends tree.Sound where
  once : (tree.entries.map Prod.fst).Nodup

theorem nodup_names (h : tree.Proper) (loc : Location) : (tree.names loc).Nodup := by
  rw [names, (mergeSort_perm _ _).nodup_iff, List.Nodup, pairwise_filterMap]
  have honce := h.once
  rw [List.Nodup, pairwise_map] at honce
  refine honce.imp fun {a b} hne x hx y hy heq => hne ?_
  rw [lastName_iff.mp hx, lastName_iff.mp hy, heq]

theorem Proper.isName_of_mem (h : tree.Proper) (hx : x ∈ tree.names loc) : IsName x := by
  obtain ⟨n, hn⟩ := Option.ne_none_iff_exists'.mp (mem_names.mp hx)
  exact h.named loc x n hn

theorem mem_keys_insertEntry {entries : List (Location × Node)} {l : Location}
    (h : l ∈ (insertEntry loc node entries).map Prod.fst) : l = loc ∨ l ∈ entries.map Prod.fst := by
  induction entries with
  | nil => simpa [insertEntry] using h
  | cons e entries ih =>
    rw [insertEntry] at h
    split at h
    · exact .inr h
    · rw [map_cons, mem_cons] at h ⊢
      rcases h with h | h
      · exact .inr (.inl h)
      · exact (ih h).imp_right .inr

theorem nodup_insertEntry {entries : List (Location × Node)} (h : (entries.map Prod.fst).Nodup) :
    ((insertEntry loc node entries).map Prod.fst).Nodup := by
  induction entries with
  | nil => simp [insertEntry]
  | cons e entries ih =>
    rw [insertEntry]
    split
    · exact h
    · next hne =>
      rw [map_cons, nodup_cons] at h ⊢
      refine ⟨fun hmem => ?_, ih h.2⟩
      rcases mem_keys_insertEntry hmem with heq | hmem
      · exact hne heq
      · exact h.1 hmem

theorem Proper.insert (h : tree.Proper) (hdir : tree.find? dir = some .directory) (hx : IsName x)
    (hold : tree.find? (dir ++ [x]) ≠ some .directory) (node : Node) :
    (tree.insert (dir ++ [x]) node).Proper := by
  have hfind : ∀ l, (tree.insert (dir ++ [x]) node).find? l =
      if l = dir ++ [x] then some node else tree.find? l := find?_insert (by simp) tree node
  have hne : dir ≠ dir ++ [x] := by simp
  refine ⟨⟨?_, ?_⟩, nodup_insertEntry h.once⟩
  · intro l name n hn
    rw [hfind] at hn
    split at hn
    · next heq =>
      rw [singleton_inj.mp (append_inj_right' heq rfl)]
      exact hx
    · exact h.named l name n hn
  · intro l name n hn
    rw [hfind] at hn ⊢
    split at hn
    · next heq =>
      rw [append_inj_left' heq rfl, if_neg hne, hdir]
    · have habove := h.above l name n hn
      rw [if_neg (by rintro rfl; exact hold habove), habove]

structure Grafts (src tgt : Location) (t t' : FileTree) : Prop where
  kept : ∀ l n, t.find? l = some n → t'.find? l = some n
  copies : ∀ l n, t'.find? l = some n → t.find? l = some n ∨
    n.plain = true ∧ ∃ p, l = tgt ++ p ∧ t'.find? (src ++ p) = some n
  contents : ∀ l bytes readOnly, t'.find? l = some (.file bytes readOnly) →
    t.find? l = some (.file bytes readOnly) ∨
      ∃ p, t.find? (src ++ p) = some (.file bytes readOnly)
  proper : t.Proper → t'.Proper

namespace Grafts

theorem refl (src tgt : Location) (t : FileTree) : Grafts src tgt t t :=
  ⟨fun _ _ h => h, fun _ _ h => .inl h, fun _ _ _ h => .inl h, id⟩

theorem trans (h : Grafts src tgt t t') (h' : Grafts src tgt t' t'') : Grafts src tgt t t'' := by
  refine ⟨fun l n hl => h'.kept l n (h.kept l n hl), ?_, ?_, fun ht => h'.proper (h.proper ht)⟩
  · intro l n hl
    rcases h'.copies l n hl with hl | hnew
    · rcases h.copies l n hl with hl | ⟨hplain, p, hp, hn⟩
      · exact .inl hl
      · exact .inr ⟨hplain, p, hp, h'.kept _ _ hn⟩
    · exact .inr hnew
  · intro l bytes readOnly hl
    rcases h'.contents l bytes readOnly hl with hl | ⟨p, hp⟩
    · exact h.contents l bytes readOnly hl
    · exact .inr ((h.contents _ _ _ hp).elim (fun hp => ⟨p, hp⟩) id)

theorem lift {q : Location} (h : Grafts (src ++ q) (tgt ++ q) t t') : Grafts src tgt t t' := by
  refine ⟨h.kept, fun l n hl => ?_, fun l bytes readOnly hl => ?_, h.proper⟩
  · refine (h.copies l n hl).imp_right ?_
    rintro ⟨hplain, p, rfl, hn⟩
    exact ⟨hplain, q ++ p, by simp, by rwa [← append_assoc]⟩
  · refine (h.contents l bytes readOnly hl).imp_right ?_
    rintro ⟨p, hp⟩
    exact ⟨q ++ p, by rwa [← append_assoc]⟩

theorem insert (hdir : t.find? dir = some .directory) (hx : IsName x)
    (hfree : t.find? (dir ++ [x]) = none) (hn : t.find? src = some n) (hplain : n.plain = true) :
    Grafts src (dir ++ [x]) t (t.insert (dir ++ [x]) n) := by
  have hfind : ∀ l, (t.insert (dir ++ [x]) n).find? l =
      if l = dir ++ [x] then some n else t.find? l := find?_insert (by simp) t n
  have hkept : ∀ l k, t.find? l = some k → (t.insert (dir ++ [x]) n).find? l = some k := by
    intro l k hl
    rw [hfind, if_neg, hl]
    rintro rfl
    rw [hfree] at hl
    cases hl
  refine ⟨hkept, fun l k hl => ?_, fun l bytes readOnly hl => ?_,
    fun ht => ht.insert hdir hx (by simp [hfree]) n⟩
  · rw [hfind] at hl
    split at hl
    · next heq =>
      cases hl
      exact .inr ⟨hplain, [], by simp [heq], by simpa using hkept _ _ hn⟩
    · exact .inl hl
  · rw [hfind] at hl
    split at hl
    · cases hl
      exact .inr ⟨[], by simpa using hn⟩
    · exact .inl hl

theorem toExtends (h : Grafts src tgt t t') : Extends t t' := by
  refine ⟨fun l n _ hl => h.kept l n hl, fun l target hl => ?_⟩
  rcases h.copies l _ hl with hl | ⟨hplain, -⟩
  · exact hl
  · cases hplain

theorem outside (h : Grafts src tgt t t') {l : Location} (hl : ¬ tgt <+: l) :
    t'.find? l = t.find? l := by
  cases hnode : t.find? l with
  | some n => exact h.kept l n hnode
  | none =>
    by_contra hnew
    obtain ⟨n, hn⟩ := Option.ne_none_iff_exists'.mp hnew
    rcases h.copies l n hn with hn | ⟨-, p, rfl, -⟩
    · rw [hnode] at hn
      cases hn
    · exact hl (prefix_append _ _)

end Grafts

def Plain (tree : FileTree) (loc : Location) : Prop :=
  ∀ p n, tree.find? (loc ++ p) = some n → n.plain = true

theorem plain_of_entries (h : ∀ e ∈ tree.entries, e.2.plain = true) (loc : Location) :
    tree.Plain loc := by
  intro p n hn
  by_cases hp : loc ++ p = []
  · rw [hp] at hn
    cases hn
    rfl
  · exact h _ (mem_entries hp hn)

theorem Plain.below (h : tree.Plain loc) (q : Location) : tree.Plain (loc ++ q) := by
  intro p n hn
  rw [append_assoc] at hn
  exact h _ n hn

theorem Plain.graft (h : t.Plain loc) (hgraft : Grafts src tgt t t') : t'.Plain loc := by
  intro p n hn
  rcases hgraft.copies _ n hn with hn | ⟨hplain, -⟩
  · exact h p n hn
  · exact hplain

theorem Plain.file (h : tree.Plain loc) {p : Location} {n : Node}
    (hn : tree.find? (loc ++ p) = some n) (hdir : tree.find? (loc ++ p) ≠ some .directory) :
    ∃ bytes readOnly, n = .file bytes readOnly := by
  have hplain := h p n hn
  cases n with
  | file bytes readOnly => exact ⟨bytes, readOnly, rfl⟩
  | directory => exact absurd hn hdir
  | link | device => cases hplain

theorem Plain.no_link (h : tree.Plain loc) (p : Location) (target : String) :
    tree.find? (loc ++ p) ≠ some (.link target) := by
  intro hlink
  cases h p _ hlink

end FileTree

namespace Path

theorem isAbsolute_directory (path : String) : isAbsolute (directory path) = isAbsolute path := by
  obtain ⟨front, n, hpath, -, hfront, hempty⟩ := directory_base path
  by_cases hdir : directory path = ""
  · rw [hempty hdir, String.empty_append] at hpath
    have hrelative : isAbsolute path = false := by
      rw [isAbsolute, Text.hasPrefix, Bool.eq_false_iff, Ne, isPrefixOf_iff_prefix, hpath]
      exact fun hslash => base_noSlash path (hslash.subset (by simp))
    rw [hdir, hrelative]
    rfl
  · have hsplit : path = directory path ++ (String.ofList (List.replicate n '/') ++ base path) := by
      rw [← String.append_assoc, ← hfront, ← hpath]
    calc isAbsolute (directory path) =
        isAbsolute (directory path ++ (String.ofList (List.replicate n '/') ++ base path)) :=
          (isAbsolute_append _ hdir).symm
      _ = isAbsolute path := by rw [← hsplit]

theorem directory_subset (path : String) : (directory path).toList ⊆ path.toList := by
  obtain ⟨front, n, hpath, -, hfront, -⟩ := directory_base path
  have hsplit : path.toList = (directory path).toList ++
      ((String.ofList (List.replicate n '/')).toList ++ (base path).toList) := by
    rw [← append_assoc, ← String.toList_append, ← hfront, ← String.toList_append, ← hpath]
  exact fun c hc => hsplit ▸ mem_append_left _ hc

end Path

namespace FileTree

variable {tree tree' : FileTree} {workDir dir loc : Location} {top path head tail x : String}
  {node : Node} {bytes : List UInt8}

theorem isDirectory_iff :
    tree.isDirectory workDir path = true ↔
      ∃ loc, tree.stat workDir path = .ok (loc, .directory) := by
  unfold isDirectory
  split
  · next loc hstat => simp [hstat]
  · next hother =>
    simp only [Bool.false_eq_true, false_iff, not_exists]
    exact fun loc hstat => hother loc hstat

theorem splitForMaking_parts (h : Run.splitForMaking path = (head, tail)) (htail : tail ≠ "") :
    filledParts path = filledParts head ++ [tail] ∧
      isAbsolute head = isAbsolute path ∧ head.toList ⊆ path.toList := by
  unfold Run.splitForMaking at h
  by_cases hbase : base path = ""
  · rw [if_pos (by simp [hbase])] at h
    obtain ⟨rfl, rfl⟩ := Prod.mk.inj h
    refine ⟨?_, ?_, fun c hc => directory_subset _ (directory_subset _ hc)⟩
    · rw [← filledParts_directory hbase, filledParts_base htail]
    · rw [isAbsolute_directory, isAbsolute_directory]
  · rw [if_neg (by simpa using hbase)] at h
    obtain ⟨rfl, rfl⟩ := Prod.mk.inj h
    exact ⟨filledParts_base hbase, isAbsolute_directory path, directory_subset path⟩

namespace Leads

theorem above (h : tree.Leads workDir path dir) (hsplit : Run.splitForMaking path = (head, tail))
    (htail : tail ≠ "") : ∃ dir', tree.Leads workDir head dir' := by
  obtain ⟨hparts, hstart, hsubset⟩ := splitForMaking_parts hsplit htail
  have hfollowed := h.followed
  rw [hparts] at hfollowed
  obtain ⟨dir', hreached, hdir'⟩ := followFrom_front (by simp) hfollowed
  refine ⟨dir', fun hzero => h.plain (hsubset hzero), ?_, hdir'⟩
  rwa [startOf, hstart]

variable (h : tree.Leads workDir top dir)
include h

theorem head_join (hx : IsName x) :
    ∃ head, Run.splitForMaking (join top x) = (head, x) ∧ tree.Leads workDir head dir ∧
      head.utf8ByteSize ≤ (join top x).utf8ByteSize := by
  have hsplit : Run.splitForMaking (Path.join top x) = (Path.directory (Path.join top x), x) := by
    rw [Run.splitForMaking, Path.base_join hx, if_neg (by simpa using hx.filled)]
  obtain ⟨hparts, hstart, hsubset⟩ := splitForMaking_parts hsplit hx.filled
  rw [filledParts_join hx] at hparts
  refine ⟨_, hsplit, ⟨fun hzero => plain_join hx h.plain (hsubset hzero), ?_, h.directory⟩, ?_⟩
  · rw [← append_inj_left' hparts rfl]
    have hsame : startOf workDir (Path.directory (Path.join top x)) = startOf workDir top := by
      rw [startOf, hstart]
      exact startOf_join hx workDir
    rw [hsame]
    exact h.followed
  · obtain ⟨front, n, hpath, -, hfront, -⟩ := directory_base (join top x)
    calc (Path.directory (Path.join top x)).utf8ByteSize ≤ front.utf8ByteSize := by
          conv => rhs; rw [hfront, String.utf8ByteSize_append]
          exact Nat.le_add_right _ _
      _ ≤ (Path.join top x).utf8ByteSize := by
          conv => rhs; rw [hpath, String.utf8ByteSize_append]
          exact Nat.le_add_right _ _

theorem spells_join (hx : Fits top x) : Spells workDir top [x] (join top x) :=
  ⟨plain_join hx.name h.plain, hx.short, startOf_join hx.name workDir, filledParts_join hx.name⟩

theorem of_stat_join (hx : IsName x)
    (hlink : ∀ target, tree.find? (dir ++ [x]) ≠ some (.link target))
    (hstat : tree.stat workDir (join top x) = .ok (loc, node)) :
    Fits top x ∧ loc = dir ++ [x] ∧ tree.find? (dir ++ [x]) = some node := by
  have hfits : Fits top x := ⟨hx, (stat_short hstat).2⟩
  rw [h.stat_join hfits hlink, lookAt] at hstat
  split at hstat
  · next hnode =>
    cases hstat
    exact ⟨hfits, rfl, hnode⟩
  · cases hstat

theorem of_read_join (hx : IsName x)
    (hplain : ∀ n, tree.find? (dir ++ [x]) = some n → n.plain = true)
    (hread : tree.read workDir (join top x) = .ok bytes) :
    Fits top x ∧ ∃ readOnly, tree.find? (dir ++ [x]) = some (.file bytes readOnly) := by
  have hlink : ∀ target, tree.find? (dir ++ [x]) ≠ some (.link target) :=
    fun target hlink => by cases hplain _ hlink
  unfold read at hread
  split at hread
  · cases hread
  · next loc content readOnly hstat =>
    cases hread
    obtain ⟨hfits, -, hnode⟩ := h.of_stat_join hx hlink hstat
    exact ⟨hfits, readOnly, hnode⟩
  · cases hread
  · next r hfile hdir hstat =>
    obtain ⟨l, n⟩ := r
    obtain ⟨-, -, hnode⟩ := h.of_stat_join hx hlink hstat
    cases n with
    | file content readOnly => exact (hfile l content readOnly rfl).elim
    | directory => exact (hdir l rfl).elim
    | link target => exact absurd hnode (hlink target)
    | device => cases hplain _ hnode

theorem of_write_join (hx : IsName x)
    (hplain : ∀ n, tree.find? (dir ++ [x]) = some n → n.plain = true)
    (hwrite : tree.write workDir (join top x) bytes = .ok tree') :
    Fits top x ∧ tree.Overwritable (dir ++ [x]) ∧
      tree' = tree.insert (dir ++ [x]) (.file bytes false) := by
  have hlink : ∀ target, tree.find? (dir ++ [x]) ≠ some (.link target) :=
    fun target hlink => by cases hplain _ hlink
  unfold write at hwrite
  split at hwrite
  · cases hwrite
  · next loc hloc =>
    obtain ⟨-, hlocate, hfree⟩ := writeLocation_ok.mp hloc
    have hshort : isOverlong (join top x) = false := by
      rw [locate, if_neg (by simpa using join_ne_empty hx)] at hlocate
      split at hlocate
      · cases hlocate
      · next hshort => simpa using hshort
    rw [h.locate_join ⟨hx, hshort⟩ hlink] at hlocate
    cases hlocate
    refine ⟨⟨hx, hshort⟩, fun n hn => ?_, ?_⟩
    · cases n with
      | file content readOnly =>
        cases readOnly with
        | false => exact ⟨content, rfl⟩
        | true => exact absurd rfl ((hfree _ hn).2 content)
      | directory => exact absurd rfl (hfree _ hn).1
      | link target => exact absurd hn (hlink target)
      | device => cases hplain _ hn
    split at hwrite
    · next hdevice => cases hplain _ hdevice
    · cases hwrite
      rfl

end Leads

end FileTree

namespace Run

open FileTree

variable {s : Session} {existing : Bool} {top path x : String} {dir : Location} {tree : FileTree}

theorem eval_makeDirectory_ok (hplain : '\x00' ∉ path.toList)
    (h : s.tree.makeDirectory s.workDir path = .ok tree) :
    eval (makeDirectory existing path) s = (.ok (), { s with tree := tree }) := by
  rw [makeDirectory, eval_bind, eval_attempt, eval_change hplain, h]
  rfl

theorem stat_overlong {workDir : Location} (hlong : isOverlong path = true) :
    tree.stat workDir path = .error .nameTooLong := by
  have hfilled : path.isEmpty = false := by
    rw [Bool.eq_false_iff, Ne, String.isEmpty_iff]
    rintro rfl
    cases hlong
  rw [stat, locate, hfilled, hlong]
  rfl

theorem eval_makeDirectory_overlong (hplain : '\x00' ∉ path.toList)
    (hlong : isOverlong path = true) : eval (makeDirectory existing path) s =
      (.error (.fault (.file .nameTooLong path none)), s) := by
  have hthere : s.tree.isDirectory s.workDir path = false := by
    rw [FileTree.isDirectory, stat_overlong hlong]
  rw [makeDirectory, eval_bind, eval_attempt, eval_change hplain, FileTree.makeDirectory, hlong,
    if_pos rfl]
  dsimp only
  rw [eval_bind, isDirectory, eval_query]
  dsimp only
  rw [hthere, Bool.and_false]
  rfl

theorem eval_makeDirectoriesWithin_overlong {depth : Nat} (hplain : '\x00' ∉ path.toList)
    (hlong : isOverlong path = true)
    (hheads : ∀ head tail, splitForMaking path = (head, tail) → tail ≠ "" →
      ∃ dir, s.tree.Leads s.workDir head dir) :
    ∃ p, eval (makeDirectoriesWithin existing depth path) s =
      (.error (.fault (.file .nameTooLong p none)), s) := by
  have hmake : eval (makeDirectory existing path) s =
      (.error (.fault (.file .nameTooLong path none)), s) :=
    eval_makeDirectory_overlong hplain hlong
  induction depth generalizing path with
  | zero => exact ⟨path, hmake⟩
  | succ depth ih =>
    rcases hsplit : splitForMaking path with ⟨head, tail⟩
    rw [makeDirectoriesWithin, hsplit]
    dsimp only
    rw [present, eval_bind, eval_query]
    dsimp only
    split
    · next hcond =>
      simp only [Bool.and_eq_true, Bool.not_eq_true', String.isEmpty_eq_false_iff] at hcond
      obtain ⟨⟨hhead, htail⟩, habsent⟩ := hcond
      obtain ⟨dir, hleads⟩ := hheads head tail hsplit htail
      -- The directory above is there, so that only the length of its path can hide it.
      have hlong' : isOverlong head = true := by
        by_contra hshort
        rw [FileTree.present, hleads.stat_self hhead (by simpa using hshort)] at habsent
        cases habsent
      obtain ⟨p, hp⟩ := ih hleads.plain hlong' (fun head' tail' h h' => hleads.above h h')
        (eval_makeDirectory_overlong hleads.plain hlong')
      refine ⟨p, ?_⟩
      rw [eval_bind, eval_attempt, hp]
      rfl
    · exact ⟨path, hmake⟩

theorem eval_makeDirectories_join (h : s.tree.Leads s.workDir top dir) (hx : IsName x)
    (hfree : s.tree.find? (dir ++ [x]) = none) :
    Fits top x ∧ eval (makeDirectories existing (join top x)) s =
        (.ok (), { s with tree := s.tree.insert (dir ++ [x]) .directory }) ∨
      ¬ Fits top x ∧ ∃ stop, eval (makeDirectories existing (join top x)) s = (.error stop, s) := by
  obtain ⟨head, hsplit, hhead, hsize⟩ := h.head_join hx
  by_cases hfits : Fits top x
  · refine .inl ⟨hfits, ?_⟩
    have hmake : eval (makeDirectory existing (join top x)) s =
        (.ok (), { s with tree := s.tree.insert (dir ++ [x]) .directory }) :=
      eval_makeDirectory_ok (plain_join hx h.plain)
        (h.makeDirectory_new (h.spells_join hfits) hx hfree)
    have hthere : head ≠ "" → s.tree.present s.workDir head = true := by
      intro hfilled
      have hshort := isOverlong_eq_false.mp hfits.short
      rw [FileTree.present, hhead.stat_self hfilled (isOverlong_eq_false.mpr (by omega))]
      rfl
    rw [makeDirectories]
    cases (join top x).length with
    | zero => exact hmake
    | succ depth =>
      rw [makeDirectoriesWithin, hsplit]
      dsimp only
      rw [present, eval_bind, eval_query]
      dsimp only
      rw [if_neg (by simpa using fun hfilled _ => hthere hfilled)]
      exact hmake
  · have hlong : isOverlong (join top x) = true := by
      by_contra hshort
      exact hfits ⟨hx, by simpa using hshort⟩
    have hheads : ∀ head' tail, splitForMaking (join top x) = (head', tail) → tail ≠ "" →
        ∃ dir', s.tree.Leads s.workDir head' dir' := by
      intro head' tail hsplit' _
      obtain ⟨rfl, rfl⟩ := Prod.mk.inj (hsplit.symm.trans hsplit')
      exact ⟨dir, hhead⟩
    obtain ⟨p, hp⟩ := eval_makeDirectoriesWithin_overlong (plain_join hx h.plain) hlong hheads
    exact .inr ⟨hfits, _, hp⟩

end Run
end SceneText
