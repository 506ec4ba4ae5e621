import SceneText.Workspace.Rename
import SceneText.Proofs.Thinning

/-!
# Originals

What happens to a file that is renamed and to what is copied, in trees of files and directories.
Both operations take away what is in their way before they start. A renamed file is lost if it is
itself in its way, and so is everything at or below a place that a copy takes away.
-/

namespace SceneText

open SceneText.Path

variable {s₁ : Session}

namespace FileTree

variable {t : FileTree} {workDir here there dir : Location} {top x : String}
  {bytes : List UInt8} {readOnly : Bool}

theorem Leads.read_join (h : t.Leads workDir top dir) (hx : Fits top x)
    (hfile : t.find? (dir ++ [x]) = some (.file bytes readOnly)) :
    t.read workDir (join top x) = .ok bytes := by
  rw [read, h.stat_join hx (by simp [hfile]), lookAt, hfile]

theorem extends_move (h : t.Sound) (hhere : t.find? here = some (.file bytes readOnly))
    (hthere : t.find? there = none) : Extends t (t.move here there) := by
  have hfind := h.find?_move hhere (by simp) hthere
  refine ⟨fun l n hn hl => ?_, fun l target hl => ?_⟩
  · rw [hfind, if_neg, if_neg, hl]
    · rintro rfl
      rw [hhere] at hl
      cases hl
      cases hn
    · rintro rfl
      rw [hthere] at hl
      cases hl
  · rw [hfind] at hl
    split at hl
    · cases hl
    · split at hl
      · cases hl
      · exact hl

end FileTree

namespace Run

theorem eval_say_between {x y : Run Unit} {s : Session} (h : eval x s = (.ok (), s₁))
    (line : String) : ∃ s₂, eval (x >>= fun _ => say line >>= fun _ => y) s = eval y s₂ ∧
      s₂.tree = s₁.tree ∧ s₂.workDir = s₁.workDir :=
  ⟨{ s₁ with out := s₁.out ++ line ++ "\n" }, eval_bind_ok h _, rfl, rfl⟩

theorem rename_cases (source target : String) (s : Session) :
    (∃ stop, eval (rename source target) s = (.error stop, s)) ∨
      ∃ tree, '\x00' ∉ target.toList ∧ s.tree.rename s.workDir source target = .ok tree ∧
        eval (rename source target) s = (.ok (), { s with tree := tree }) := by
  rw [rename]
  by_cases hsource : '\x00' ∈ source.toList
  · refine .inl ⟨.fault .zeroInPath, ?_⟩
    rw [eval_bind, checkPath, if_pos (by simpa using hsource)]
    rfl
  rw [eval_bind_ok (eval_checkPath hsource s)]
  by_cases htarget : '\x00' ∈ target.toList
  · refine .inl ⟨.fault .zeroInPath, ?_⟩
    rw [eval_bind, checkPath, if_pos (by simpa using htarget)]
    rfl
  rw [eval_bind_ok (eval_checkPath htarget s),
    eval_bind_ok (show eval (get : Run Session) s = (.ok s, s) from rfl)]
  cases hrenamed : s.tree.rename s.workDir source target with
  | error cause => exact .inl ⟨_, rfl⟩
  | ok tree => exact .inr ⟨tree, htarget, rfl, rfl⟩

end Run

namespace Workspace

open Run FileTree

section Renaming

variable {s : Session} {path name target top x : String} {overwrite readOnly : Bool}
  {dir f : Location} {bytes : List UInt8} {top' y : String} {dir' : Location}

def Readable (bytes : List UInt8) (a b : String) (s : Session) : Prop :=
  s.tree.read s.workDir a = .ok bytes ∨ s.tree.read s.workDir b = .ok bytes

variable (h : s.tree.Regular)
include h

section

variable (hleads : s.tree.Leads s.workDir top dir)
include hleads

section

variable (hx : Fits top x) (hfile : s.tree.find? (dir ++ [x]) = some (.file bytes readOnly))
include hx hfile

theorem readable_rename (hfree : ∀ r, s.tree.stat s.workDir target ≠ .ok r) :
    Readable bytes (join top x) target (eval (rename (join top x) target) s).2 := by
  rcases rename_cases (join top x) target s with ⟨stop, hstop⟩ | ⟨tree, hplain, hrenamed, hdone⟩
  · rw [hstop]
    exact .inl (hleads.read_join hx hfile)
  · obtain ⟨top', y, dir', rfl, hleads', hy, hnone, rfl⟩ :=
      h.rename_ok hplain hleads hx hfile (by simp) hfree hrenamed
    rw [hdone]
    have hmoved : (s.tree.move (dir ++ [x]) (dir' ++ [y])).find? (dir' ++ [y]) =
        some (.file bytes readOnly) := by
      rw [h.toSound.find?_move hfile (by simp) hnone, if_pos rfl]
    exact .inr ((hleads'.extend (extends_move h.toSound hfile hnone)).read_join hy hmoved)

theorem readable_erase_rename (hleads' : s.tree.Leads s.workDir top' dir') (hy : Fits top' y)
    {node : Node} (hnode : s.tree.find? (dir' ++ [y]) = some node) (hdir : node ≠ .directory)
    (hne : dir ++ [x] ≠ dir' ++ [y]) (htree : s₁.tree = s.tree.erase (dir' ++ [y]))
    (hplace : s₁.workDir = s.workDir) :
    Readable bytes (join top x) (join top' y) (eval (rename (join top x) (join top' y)) s₁).2 := by
  have hextends := h.extends_erase hnode hdir
  have hnone : (s.tree.erase (dir' ++ [y])).find? (dir' ++ [y]) = none := find?_erase (by simp)
  have hregular : s₁.tree.Regular := by
    rw [htree]
    exact h.erase hnode hdir
  have hstill : s₁.tree.Leads s₁.workDir top dir := by
    rw [htree, hplace]
    exact hleads.extend hextends
  have hfile' : s₁.tree.find? (dir ++ [x]) = some (.file bytes readOnly) := by
    rw [htree, find?_erase_ne hne, hfile]
  refine readable_rename hregular hstill hx hfile' fun r hstat => ?_
  rw [htree, hplace, (hleads'.extend hextends).stat_join hy (by simp [hnone]), lookAt,
    hnone] at hstat
  cases hstat

theorem not_readable_erase_rename (hleads' : s.tree.Leads s.workDir top' dir') (hy : Fits top' y)
    (heq : dir ++ [x] = dir' ++ [y]) (htree : s₁.tree = s.tree.erase (dir ++ [x]))
    (hplace : s₁.workDir = s.workDir) :
    ¬ Readable bytes (join top x) (join top' y)
      (eval (rename (join top x) (join top' y)) s₁).2 := by
  have hextends := h.extends_erase hfile (by simp)
  have hnone : (s.tree.erase (dir ++ [x])).find? (dir ++ [x]) = none := find?_erase (by simp)
  have hnone' : (s.tree.erase (dir ++ [x])).find? (dir' ++ [y]) = none := heq ▸ hnone
  have hmissing := (hleads.extend hextends).stat_join hx (by simp [hnone])
  have hmissing' := (hleads'.extend hextends).stat_join hy (by simp [hnone'])
  rw [lookAt, hnone] at hmissing
  rw [lookAt, hnone'] at hmissing'
  have hsame : (eval (rename (join top x) (join top' y)) s₁).2 = s₁ := by
    rcases rename_cases (join top x) (join top' y) s₁ with
      ⟨stop, hstop⟩ | ⟨tree, -, hrenamed, -⟩
    · rw [hstop]
    · rw [htree, hplace, FileTree.rename, (hleads.extend hextends).entrance_join hx,
        (hleads'.extend hextends).entrance_join hy] at hrenamed
      simp only [bind, Except.bind, not_isDotName hx.name, not_isDotName hy.name, Bool.or_false,
        Bool.false_eq_true, if_false, Nat.not_lt.mpr hx.name.short, hnone] at hrenamed
      cases hrenamed
  rw [hsame, Readable, htree, hplace, FileTree.read, hmissing, FileTree.read, hmissing']
  simp

end

end

theorem readable_renameFile_iff
    (hfile : s.tree.stat s.workDir path = .ok (f, .file bytes readOnly)) :
    Readable bytes path (join (directory path) name) (eval (renameFile path name overwrite) s).2 ↔
      ¬ (overwrite = true ∧
        ∃ n, s.tree.stat s.workDir (join (directory path) name) = .ok (f, n)) := by
  obtain ⟨top, x, dir, rfl, hleads, hx, rfl, hnode⟩ := h.file_join hfile
  have hread : ∀ target, Readable bytes (join top x) target s :=
    fun target => .inl (hleads.read_join hx hnode)
  rw [renameFile, Run.present, eval_bind, eval_query]
  generalize join (directory (join top x)) name = target
  cases hpresent : s.tree.present s.workDir target with
  | false =>
    have hfree : ∀ r, s.tree.stat s.workDir target ≠ .ok r := by
      intro r hstat
      rw [FileTree.present, hstat] at hpresent
      cases hpresent
    refine iff_of_true ?_ fun hsame => hfree _ hsame.2.choose_spec
    exact after_bind (readable_rename h hleads hx hnode hfree) fun _ _ _ hs => hs
  | true =>
    cases overwrite with
    | false => exact iff_of_true (hread target) (by simp)
    | true =>
      change Readable _ _ _ (eval (removeFile target >>= fun _ => say _ >>= fun _ =>
        rename (join top x) target >>= fun _ => say _) s).2 ↔ _
      -- What is removed first is the file itself, or another one.
      by_cases hsame : ∃ n, s.tree.stat s.workDir target = .ok (dir ++ [x], n)
      · refine iff_of_false ?_ (by simpa using hsame)
        obtain ⟨n, hstat⟩ := hsame
        obtain rfl : n = .file bytes readOnly :=
          Option.some.inj ((stat_ok.mp hstat).2.symm.trans hnode)
        obtain ⟨top', y, dir', rfl, hleads', hy, hloc, -⟩ := h.file_join hstat
        obtain ⟨s₁, hs₁, htree, hplace⟩ := eval_say_between
          (eval_removeFile_join hleads' hy (hloc ▸ hnode) (by simp)) _
        rw [hs₁, eval_bind]
        rw [← hloc] at htree
        have hlost := not_readable_erase_rename h hleads hx hnode hleads' hy hloc htree hplace
        rcases hrun : eval (rename (join top x) (join top' y)) s₁ with ⟨stop | _, s₂⟩ <;>
          rw [hrun] at hlost
        · exact hlost
        · exact hlost
      · refine iff_of_true ?_ (by simpa using hsame)
        rcases change_cases target (fun tree dir => tree.remove dir target) s with
          ⟨stop, hstop⟩ | ⟨tree, hplain, hremoved, hdone⟩
        · rw [eval_bind, removeFile, hstop]
          exact hread target
        · obtain ⟨top', y, dir', node, rfl, hleads', hy, hnode', hdir', rfl⟩ :=
            h.remove_ok hplain hremoved
          have hne : dir ++ [x] ≠ dir' ++ [y] := by
            intro heq
            refine hsame ⟨node, ?_⟩
            rw [heq, hleads'.stat_join hy (h.not_link _), lookAt, hnode']
          obtain ⟨s₁, hs₁, htree, hplace⟩ := eval_say_between hdone _
          rw [removeFile, hs₁]
          exact after_bind (readable_erase_rename h hleads hx hnode hleads' hy hnode' hdir' hne
            htree hplace) fun _ _ _ hs => hs

end Renaming

section Copying

variable {s s' s'' : Session} {source destination here there : String} {overwrite : Bool}
  {src tgt : Location} {node : Node} {lost : Location → Prop} {p : Clean}

/-- The path that something is copied to. A file that is copied to a directory goes into it. -/
def copyPlace (s : Session) (source destination : String) : Clean :=
  let path := Clean.ofText source
  let target := Clean.ofText destination
  if s.tree.isDirectory s.workDir target.toText && s.tree.isFile s.workDir path.toText then
    target.append path.name
  else target

theorem isClean_copyPlace (s : Session) (source destination : String) :
    (copyPlace s source destination).IsClean := by
  have hclean := Clean.isClean_ofText destination
  rw [copyPlace]
  split
  · rw [Clean.append]
    have hname := Clean.isClean_ofText (Clean.ofText source).name
    split
    · exact ⟨hclean.rooted, List.forall_mem_append.mpr ⟨hclean.parts, hname.parts⟩⟩
    · exact hname
  · exact hclean

theorem holdsDirectory_cases (path : String) (s : Session) :
    (∃ stop, eval (Run.holdsDirectory path) s = (.error stop, s) ∧
        ∀ r, s.tree.stat s.workDir path ≠ .ok r) ∨
      eval (Run.holdsDirectory path) s = (.ok (s.tree.isDirectory s.workDir path), s) := by
  rcases nodeAt_cases path s with ⟨stop, hstop, hno⟩ | ⟨found, hfound, hiff⟩
  · refine .inl ⟨stop, ?_, hno⟩
    rw [Run.holdsDirectory, eval_bind, hstop]
  · have hsame : decide (found = some .directory) = s.tree.isDirectory s.workDir path := by
      rw [Bool.eq_iff_iff, decide_eq_true_eq, isDirectory_iff]
      exact hiff .directory
    exact .inr (hsame ▸ eval_holdsDirectory_of hfound)

theorem copyPath_cases
    (hstat : s.tree.stat s.workDir (Clean.ofText source).toText = .ok (src, node)) :
    (∃ stop, eval (copyPath source destination overwrite) s = (.error stop, s) ∧
        ∀ r, s.tree.stat s.workDir (copyPlace s source destination).toText ≠ .ok r) ∨
      eval (copyPath source destination overwrite) s =
        eval (makeRoom overwrite (copyPlace s source destination).toText >>= fun _ => do
          makeClean (copyPlace s source destination).parent
          deliver (Clean.ofText source).toText (copyPlace s source destination).toText) s := by
  have hnode := eval_nodeAt_ok hstat
  have hfile : eval (holdsFile (Clean.ofText source).toText) s =
      (.ok (s.tree.isFile s.workDir (Clean.ofText source).toText), s) := by
    rw [holdsFile, eval_bind_ok hnode, FileTree.isFile, hstat]
    cases node <;> rfl
  rw [copyPath, eval_bind_ok (eval_occupied_of hnode)]
  rcases holdsDirectory_cases (Clean.ofText destination).toText s with ⟨stop, hstop, hno⟩ | hdir
  · refine .inl ⟨stop, ?_, ?_⟩
    · change eval (Run.holdsDirectory _ >>= _) s = _
      rw [eval_bind, hstop]
    · rw [copyPlace, if_neg]
      · exact hno
      · rw [Bool.and_eq_true, isDirectory_iff]
        rintro ⟨⟨loc, hloc⟩, -⟩
        exact hno _ hloc
  · refine .inr ?_
    rw [copyPlace]
    change eval (Run.holdsDirectory _ >>= _) s = _
    rw [eval_bind_ok hdir]
    cases s.tree.isDirectory s.workDir (Clean.ofText destination).toText with
    | false =>
      change eval (pure false >>= _) s = _
      rw [Bool.false_and, pure_bind]
    | true =>
      change eval (holdsFile _ >>= _) s = _
      rw [eval_bind_ok hfile]
      rfl

/-- What a copy takes away before it starts: everything at the place that its path leads to and
below it. -/
def InTheWay (s : Session) (there : String) (overwrite : Bool) (l : Location) : Prop :=
  overwrite = true ∧ ∃ loc node, s.tree.stat s.workDir there = .ok (loc, node) ∧ loc <+: l

theorem thinned_makeRoom (h : s.tree.Regular) (there : String) (overwrite : Bool) :
    Thinned (InTheWay s there overwrite) s (eval (makeRoom overwrite there) s).2 := by
  rcases nodeAt_cases there s with ⟨stop, hstop, hno⟩ | ⟨found, hfound, hiff⟩
  · have hrun : eval (makeRoom overwrite there) s = (.error stop, s) := by
      rw [makeRoom, occupied, eval_bind, eval_bind, hstop]
    rw [hrun]
    refine .refl h ?_
    rintro l ⟨-, loc, node, hstat, -⟩
    exact hno _ hstat
  · rw [makeRoom, eval_bind_ok (eval_occupied_of hfound)]
    cases found with
    | none =>
      refine .refl h ?_
      rintro l ⟨-, loc, node, hstat, -⟩
      cases (hiff node).mpr ⟨loc, hstat⟩
    | some node =>
      obtain ⟨loc, hstat⟩ := (hiff node).mp rfl
      cases overwrite with
      | false =>
        refine .refl h ?_
        rintro l ⟨hno, -⟩
        cases hno
      | true =>
        obtain ⟨hpruned, hplace⟩ := pruned_clear h hstat
        refine after_bind (.of_pruned h hpruned hplace fun l => ?_) fun _ _ _ hs => hs.say _
        constructor
        · rintro ⟨-, loc', node', hstat', hpre⟩
          cases hstat.symm.trans hstat'
          exact hpre
        · exact fun hpre => ⟨rfl, loc, node, hstat, hpre⟩

/-- What is left of a source: everything that is not lost; and where something is lost there is no
file afterwards, unless it is a copy of a file of the source that is not lost. -/
structure Spared (src : Location) (lost : Location → Prop) (s s' : Session) : Prop where
  kept : ∀ q n, s.tree.find? (src ++ q) = some n → ¬ lost (src ++ q) →
    s'.tree.find? (src ++ q) = some n
  left : ∀ q bytes readOnly, s'.tree.find? (src ++ q) = some (.file bytes readOnly) →
    lost (src ++ q) → ∃ r protect, s.tree.find? (src ++ r) = some (.file bytes protect) ∧
      ¬ lost (src ++ r)

theorem Spared.say (h : Spared src lost s s') (line : String) :
    Spared src lost s (eval (say line) s').2 :=
  ⟨h.kept, h.left⟩

theorem spared_of_thinned (h : Thinned lost s s') (src : Location) : Spared src lost s s' :=
  ⟨fun _ n => h.kept _ n, fun _ _ _ hl hin => absurd hin (h.files _ _ _ hl).2⟩

theorem spared_of_grafted (h : Thinned lost s s') (hgraft : Grafted src tgt s' s'') :
    Spared src lost s s'' := by
  refine ⟨fun q n hl hno => hgraft.tree.kept _ n (h.kept _ n hl hno), ?_⟩
  intro q bytes readOnly hl hin
  rcases hgraft.tree.contents _ _ _ hl with hl | ⟨r, hr⟩
  · exact absurd hin (h.files _ _ _ hl).2
  · exact ⟨r, readOnly, h.files _ _ _ hr⟩

theorem spared_copyFile (h : s.tree.Regular) (hthin : Thinned lost s s') {bytes : List UInt8}
    {readOnly : Bool} (hstat : s'.tree.stat s'.workDir here = .ok (src, .file bytes readOnly))
    (there : String) : Spared src lost s (eval (copyFile here there) s').2 := by
  rcases copyFile_cases s' here there with
    ⟨stop, hstop⟩ | ⟨content, tree, hdone, hread, hwrite, hother⟩
  · rw [hstop]
    exact spared_of_thinned hthin src
  · obtain rfl : bytes = content := by
      rw [FileTree.read, hstat] at hread
      exact Except.ok.inj hread
    obtain ⟨loc, hlocate, hloc, hleads, rfl⟩ := hthin.regular.write_ok hwrite
    have hfile := (stat_ok.mp hstat).2
    obtain ⟨hold, hkept⟩ := hthin.files _ _ _ hfile
    -- A file is not copied onto itself, so that the write leaves it alone.
    have hne : src ≠ loc := by
      rintro rfl
      exact hother _ _ _ hstat (stat_ok.mpr ⟨hlocate, hfile⟩)
    rw [hdone, protectLike_insert hstat hlocate hloc hne hleads]
    refine ⟨fun q n hl _ => ?_, fun q content protect hl hin => ?_⟩
    · by_cases hq : q = []
      · rw [hq, List.append_nil] at hl ⊢
        rw [find?_insert hloc, if_neg hne, hfile, ← hold, hl]
      · rw [h.directory_above hq hl] at hold
        cases hold
    · rw [find?_insert hloc] at hl
      split at hl
      · cases hl
        exact ⟨[], readOnly, by rwa [List.append_nil], by rwa [List.append_nil]⟩
      · exact absurd hin (hthin.files _ _ _ hl).2

theorem spared_copyTree (hthin : Thinned lost s s') (hp : p.IsClean)
    (hstat : s'.tree.stat s'.workDir here = .ok (src, .directory)) :
    Spared src lost s (eval (copyTree here p.toText) s').2 := by
  have hplain := hthin.regular.stat_plain hstat
  change Spared src lost s (eval (copyTreeWithin (4095 + 1) here p.toText) s').2
  rw [copyTreeWithin, eval_bind_ok (eval_listNames hplain hstat)]
  have hmade := @furnished_makeDirectoriesWithin s' false hthin.regular p.toText.length p.toText
  refine after_bind (spared_of_thinned (hthin.furnish hmade) src) fun _ s₁ hs₁ _ => ?_
  obtain ⟨tgt, hfurnished, hthere, hempty⟩ := makeDirectories_new hthin.regular hp hs₁
  have hcopying : Copying s₁ here p.toText src tgt := ⟨hfurnished.regular.toProper,
      hfurnished.place ▸ (Leads.of_stat hplain hstat).extend hfurnished.toExtends, hthere,
      fun q n hn => hfurnished.regular.plain (src ++ q) n hn⟩
  refine after_bind (spared_of_grafted (hthin.furnish hfurnished)
    (hcopying.grafted_each (graftsTrees 4095) _ (nodup_names hthin.regular.toProper src) ?_)) ?_
  · exact fun x hx => ⟨hthin.regular.isName_of_mem hx, hempty x⟩
  · intro complete s₂ _ hrest
    cases complete <;> exact hrest

theorem spared_deliver (h : s.tree.Regular) (hstat : s.tree.stat s.workDir here = .ok (src, node))
    (hthin : Thinned lost s s') (hp : p.IsClean) :
    Spared src lost s (eval (deliver here p.toText) s').2 := by
  -- The path still leads to the same place, if anything is left there.
  have hplace : ∀ loc n, s'.tree.stat s'.workDir here = .ok (loc, n) → loc = src := by
    intro loc n hn
    rw [hthin.regular.stat_eq hn, h.stat_eq hstat, hthin.place]
  have hunchanged := spared_of_thinned hthin src
  rcases nodeAt_cases here s' with ⟨stop, hstop, -⟩ | ⟨found, hfound, hiff⟩
  · have hrun : eval (deliver here p.toText) s' = (.error stop, s') := by
      rw [deliver, holdsFile, eval_bind, eval_bind, hstop]
    rw [hrun]
    exact hunchanged
  · obtain ⟨b, hb, hfile⟩ := eval_holdsFile_of hfound
    rw [deliver, eval_bind_ok hb]
    cases b with
    | true =>
      obtain ⟨bytes, readOnly, hnode⟩ := hfile.mp rfl
      obtain ⟨loc, hloc⟩ := (hiff _).mp hnode
      obtain rfl := hplace loc _ hloc
      exact after_bind (spared_copyFile h hthin hloc p.toText) fun _ _ _ hs => hs.say _
    | false =>
      change Spared src lost s (eval (Run.holdsDirectory here >>= _) s').2
      rw [eval_bind_ok (eval_holdsDirectory_of hfound)]
      by_cases hdir : found = some .directory
      · obtain ⟨loc, hloc⟩ := (hiff _).mp hdir
        obtain rfl := hplace loc _ hloc
        rw [if_pos (by simpa using hdir)]
        exact after_bind (spared_copyTree hthin hp hloc) fun _ _ _ hs => hs.say _
      · rw [if_neg (by simpa using hdir)]
        exact hunchanged

theorem spared_copyPath (h : s.tree.Regular) (destination : String) (overwrite : Bool)
    (hstat : s.tree.stat s.workDir (Clean.ofText source).toText = .ok (src, node)) :
    Spared src (InTheWay s (copyPlace s source destination).toText overwrite) s
      (eval (copyPath source destination overwrite) s).2 := by
  rcases @copyPath_cases s source destination overwrite src node hstat with
    ⟨stop, hstop, hno⟩ | hrun
  · rw [hstop]
    refine spared_of_thinned (.refl h ?_) src
    rintro l ⟨-, loc, n, hn, -⟩
    exact hno _ hn
  · rw [hrun]
    have hroom := thinned_makeRoom h (copyPlace s source destination).toText overwrite
    refine after_bind (spared_of_thinned hroom src) fun _ s₁ hs₁ _ => ?_
    rw [hs₁] at hroom
    have hparents := furnished_makeClean hroom.regular (copyPlace s source destination).parent
    refine after_bind (spared_of_thinned (hroom.furnish hparents) src) fun _ s₂ hs₂ _ => ?_
    rw [hs₂] at hparents
    exact spared_deliver h hstat (hroom.furnish hparents) (isClean_copyPlace s source destination)

end Copying

/-- However a copy ends, everything of its source that is not in the way of it is as it was, and a
file of the source that is in the way is gone, at most with a copy of another one in its place.
However a renaming ends, the content of the file can be read under its old or its new name, unless
the new name leads to the file itself and what is there may be overwritten. -/
theorem originals_spared {s : Session} (h : s.tree.Regular) :
    (∀ source destination overwrite src node,
      s.tree.stat s.workDir (Path.Clean.ofText source).toText = .ok (src, node) →
        Spared src (InTheWay s (copyPlace s source destination).toText overwrite) s
          (eval (copyPath source destination overwrite) s).2) ∧
      ∀ path name overwrite file bytes readOnly,
        s.tree.stat s.workDir path = .ok (file, .file bytes readOnly) →
          (Readable bytes path (Path.join (Path.directory path) name)
              (eval (renameFile path name overwrite) s).2 ↔
            ¬ (overwrite = true ∧ ∃ n,
              s.tree.stat s.workDir (Path.join (Path.directory path) name) = .ok (file, n))) :=
  ⟨fun _ destination overwrite _ _ hstat => spared_copyPath h destination overwrite hstat,
    fun _ _ _ _ _ _ hstat => readable_renameFile_iff h hstat⟩

def drawer : Session where
  tree := ⟨[(["w"], .directory), (["w", "d"], .directory), (["w", "d", "a"], .file [1] false),
    (["w", "d", "b"], .file [2] false)]⟩
  workDir := ["w"]

theorem originals_spared_drawer :
    (eval (copyPath "d" "d/a" true) drawer).2.tree.find? ["w", "d", "b"] = some (.file [2] false) ∧
      Readable [2] "d/b" "d/a" (eval (renameFile "d/b" "a" true) drawer).2 := by
  have hregular : drawer.tree.Regular :=
    regular_of_entries ⟨sound_of_entries (by decide +kernel), by decide +kernel⟩ (by decide +kernel)
  obtain ⟨hcopies, hrenames⟩ := originals_spared hregular
  have hplace : drawer.tree.stat drawer.workDir (copyPlace drawer "d" "d/a").toText =
      .ok (["w", "d", "a"], .file [1] false) := by decide +kernel
  have htarget : drawer.tree.stat drawer.workDir (Path.join (Path.directory "d/b") "a") =
      .ok (["w", "d", "a"], .file [1] false) := by decide +kernel
  constructor
  · refine (hcopies "d" "d/a" true ["w", "d"] .directory (by decide +kernel)).kept ["b"] _
      (by decide +kernel) ?_
    rintro ⟨-, loc, node, hstat, hpre⟩
    cases hplace.symm.trans hstat
    exact absurd hpre (by decide)
  · refine (hrenames "d/b" "a" true ["w", "d", "b"] [2] false (by decide +kernel)).mpr ?_
    rintro ⟨-, n, hstat⟩
    have heq := (Prod.mk.inj (Except.ok.inj (htarget.symm.trans hstat))).1
    exact absurd heq (by decide)

/-- A file that is copied to its own directory is lost. -/
theorem copyPath_own_directory :
    drawer.tree.find? ["w", "d", "a"] = some (.file [1] false) ∧
      (eval (copyPath "d/a" "d" true) drawer).2.tree.find? ["w", "d", "a"] = none := by
  refine ⟨?_, ?_⟩ <;> decide +kernel

end Workspace
end SceneText
