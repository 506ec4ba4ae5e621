import SceneText.Workspace.Copy
import SceneText.Proofs.Grafts

/-!
# Copies of files and directories

However the copy of a directory ends, it has grafted parts of the directory to the new place and
done nothing else. It ends well, and everything is there, if no path on the way is too long and the
new place is not inside the directory.
-/

namespace SceneText

open List SceneText.Path

variable {tree tree' : FileTree} {s s' : Session} {source target x : String}
  {src tgt loc q : Location} {bytes : List UInt8} {readOnly : Bool} {depth : Nat} {node : Node}

namespace FileTree

def Apart (a b : Location) : Prop :=
  ¬ a <+: b ∧ ¬ b <+: a

namespace Apart

variable {a b : Location}

theorem symm (h : Apart a b) : Apart b a :=
  ⟨h.2, h.1⟩

theorem not_prefix (h : Apart a b) (p q : Location) : ¬ b ++ q <+: a ++ p := by
  intro hpre
  have hb : b <+: a ++ p := (prefix_append b q).trans hpre
  rcases prefix_or_prefix_of_prefix hb (prefix_append a p) with hba | hab
  · exact h.2 hba
  · exact h.1 hab

theorem ne (h : Apart a b) (p q : Location) : a ++ p ≠ b ++ q :=
  fun heq => h.not_prefix p q (heq ▸ prefix_refl _)

theorem append (h : Apart a b) (p q : Location) : Apart (a ++ p) (b ++ q) :=
  ⟨h.symm.not_prefix q p, h.not_prefix p q⟩

end Apart

theorem Leads.stat_file {workDir : Location} (h : tree.Leads workDir source src)
    (hx : Fits source x)
    (hfile : tree.find? (src ++ [x]) = some (.file bytes readOnly)) :
    tree.stat workDir (join source x) = .ok (src ++ [x], .file bytes readOnly) := by
  rw [h.stat_join hx (by simp [hfile]), lookAt, hfile]

theorem insertEntry_insertEntry (old node : Node) (entries : List (Location × Node)) :
    insertEntry loc node (insertEntry loc old entries) = insertEntry loc node entries := by
  induction entries with
  | nil => simp [insertEntry]
  | cons e entries ih =>
    by_cases h : e.1 = loc
    · simp [insertEntry, h]
    · simp [insertEntry, h, ih]

theorem insert_insert (tree : FileTree) (old node : Node) :
    (tree.insert loc old).insert loc node = tree.insert loc node :=
  congrArg FileTree.mk (insertEntry_insertEntry old node tree.entries)

theorem protectLike_insert {workDir here : Location}
    (hsource : tree.stat workDir source = .ok (here, .file bytes readOnly))
    (htarget : tree.locate true workDir target = .ok loc) (hloc : loc ≠ []) (hne : here ≠ loc)
    (hold : ∀ n, tree.find? loc = some n → n.leads = false) (content : List UInt8) :
    (tree.insert loc (.file content false)).protectLike workDir source target =
      tree.insert loc (.file content readOnly) := by
  have hextends : Extends tree (tree.insert loc (.file content false)) :=
    .insert hloc hold fun x => by simp
  have hfind := find?_insert hloc tree (.file content false)
  have hsource' : (tree.insert loc (.file content false)).stat workDir source =
      .ok (here, .file bytes readOnly) :=
    hextends.stat hsource (by rw [hfind, if_neg hne, (stat_ok.mp hsource).2])
  have htarget' : (tree.insert loc (.file content false)).stat workDir target =
      .ok (loc, .file content false) :=
    stat_ok.mpr ⟨hextends.locate htarget, by rw [hfind, if_pos rfl]⟩
  rw [protectLike, hsource', htarget']
  exact insert_insert tree _ _

theorem Grafts.apart {a b src tgt : Location} {t t' : FileTree} (h : Grafts src tgt t t')
    (hapart : Apart a b) (htgt : tgt = b ++ q) (p : Location) :
    t'.find? (a ++ p) = t.find? (a ++ p) :=
  h.outside (htgt ▸ hapart.not_prefix p q)

end FileTree

namespace Run

open FileTree

structure Grafted (src tgt : Location) (s s' : Session) : Prop where
  place : s'.workDir = s.workDir
  tree : Grafts src tgt s.tree s'.tree

namespace Grafted

variable {s'' : Session}

theorem refl (src tgt : Location) (s : Session) : Grafted src tgt s s :=
  ⟨rfl, .refl _ _ _⟩

theorem trans (h : Grafted src tgt s s') (h' : Grafted src tgt s' s'') : Grafted src tgt s s'' :=
  ⟨h'.place.trans h.place, h.tree.trans h'.tree⟩

theorem lift (h : Grafted (src ++ q) (tgt ++ q) s s') : Grafted src tgt s s' :=
  ⟨h.place, h.tree.lift⟩

end Grafted

variable {path : String}

theorem nodeAt_cases (path : String) (s : Session) :
    (∃ stop, eval (nodeAt? path) s = (.error stop, s) ∧ ∀ r, s.tree.stat s.workDir path ≠ .ok r) ∨
      ∃ found, eval (nodeAt? path) s = (.ok found, s) ∧
        ∀ n, found = some n ↔ ∃ loc, s.tree.stat s.workDir path = .ok (loc, n) := by
  rw [nodeAt?, eval_bind, eval_query]
  cases s.tree.stat s.workDir path with
  | ok r =>
    obtain ⟨loc, node⟩ := r
    exact .inr ⟨some node, rfl, by simp⟩
  | error cause =>
    cases cause with
    | nameTooLong => exact .inl ⟨_, rfl, by simp⟩
    | _ => exact .inr ⟨none, rfl, by simp⟩

section Looking

variable {found : Option Node} (h : eval (nodeAt? path) s = (.ok found, s))
include h

theorem eval_occupied_of : eval (occupied path) s = (.ok found.isSome, s) := by
  rw [occupied, eval_bind_ok h]
  rfl

theorem eval_holdsDirectory_of :
    eval (holdsDirectory path) s = (.ok (decide (found = some .directory)), s) := by
  rw [holdsDirectory, eval_bind_ok h]
  rfl

theorem eval_holdsFile_of :
    ∃ b, eval (holdsFile path) s = (.ok b, s) ∧
      (b = true ↔ ∃ bytes readOnly, found = some (.file bytes readOnly)) := by
  rw [holdsFile, eval_bind_ok h]
  cases found with
  | none => exact ⟨false, rfl, by simp⟩
  | some node =>
    cases node with
    | file bytes readOnly => exact ⟨true, rfl, by simp⟩
    | directory => exact ⟨false, rfl, by simp⟩
    | link target => exact ⟨false, rfl, by simp⟩
    | device => exact ⟨false, rfl, by simp⟩

end Looking

theorem listNames_cases (path : String) (s : Session) :
    (∃ stop, eval (listNames path) s = (.error stop, s)) ∨ ∃ loc, s.tree.Leads s.workDir path loc ∧
        eval (listNames path) s = (.ok (s.tree.names loc), s) := by
  rcases inquire_cases path (fun tree dir => tree.list dir path) s with
    hstop | ⟨v, hplain, hv, hrun⟩
  · exact .inl hstop
  · unfold list at hv
    split at hv
    · cases hv
    · next loc hstat =>
      cases hv
      exact .inr ⟨loc, Leads.of_stat hplain hstat, hrun⟩
    · cases hv

theorem eval_listNames (hplain : '\x00' ∉ path.toList)
    (h : s.tree.stat s.workDir path = .ok (loc, .directory)) :
    eval (listNames path) s = (.ok (s.tree.names loc), s) := by
  rw [listNames, inquire, eval_bind_ok (eval_checkPath hplain s), eval_bind, eval_query]
  rw [list, h]
  rfl

end Run

namespace Workspace

open Run FileTree

def copyTarget (s : Session) (source target : String) : String :=
  if s.tree.isDirectory s.workDir target then join target (base source) else target

theorem eval_copyFile {same : Bool}
    (h : eval (isSameNode source (copyTarget s source target)) s = (.ok same, s)) :
    eval (copyFile source target) s =
      if same then (.error (.fault (.sameFile source (copyTarget s source target))), s)
      else eval (do
        let bytes ← readBytes source
        writeBytes (copyTarget s source target) bytes
        modify fun t => { t with
          tree := t.tree.protectLike t.workDir source (copyTarget s source target) }) s := by
  have hrun : eval (copyFile source target) s =
      eval (isSameNode source (copyTarget s source target) >>= fun same => do
        if same then fail (.sameFile source (copyTarget s source target))
        let bytes ← readBytes source
        writeBytes (copyTarget s source target) bytes
        modify fun t => { t with
          tree := t.tree.protectLike t.workDir source (copyTarget s source target) }) s := rfl
  rw [hrun, eval_bind_ok h]
  cases same <;> rfl

theorem copyFile_cases (s : Session) (source target : String) :
    (∃ stop, eval (copyFile source target) s = (.error stop, s)) ∨
      ∃ bytes tree, eval (copyFile source target) s = (.ok (), { s with
          tree := tree.protectLike s.workDir source (copyTarget s source target) }) ∧
        s.tree.read s.workDir source = .ok bytes ∧
        s.tree.write s.workDir (copyTarget s source target) bytes = .ok tree ∧
        ∀ loc m n, s.tree.stat s.workDir source = .ok (loc, m) →
          s.tree.stat s.workDir (copyTarget s source target) ≠ .ok (loc, n) := by
  have hsame : ∃ b, eval (isSameNode source (copyTarget s source target)) s = (.ok b, s) ∧
      (b = false → ∀ loc m n, s.tree.stat s.workDir source = .ok (loc, m) →
        s.tree.stat s.workDir (copyTarget s source target) ≠ .ok (loc, n)) := by
    refine ⟨_, eval_query _ s, fun hb loc m n hm hn => ?_⟩
    simp [hm, hn] at hb
  obtain ⟨b, hsame, hother⟩ := hsame
  rw [eval_copyFile hsame]
  cases b with
  | true => exact .inl ⟨_, rfl⟩
  | false =>
    rw [if_neg Bool.false_ne_true]
    rcases inquire_cases source (fun tree dir => tree.read dir source) s with
      ⟨stop, hstop⟩ | ⟨bytes, -, hread, hbytes⟩
    · refine .inl ⟨stop, ?_⟩
      rw [eval_bind, readBytes, hstop]
    · rw [readBytes, eval_bind_ok hbytes]
      rcases change_cases (copyTarget s source target)
          (fun tree dir => tree.write dir (copyTarget s source target) bytes) s with
        ⟨stop, hstop⟩ | ⟨tree, -, htree, hdone⟩
      · refine .inl ⟨stop, ?_⟩
        rw [eval_bind, writeBytes, hstop]
      · refine .inr ⟨bytes, tree, ?_, hread, htree, hother rfl⟩
        rw [writeBytes, eval_bind_ok hdone]
        rfl

theorem copyTarget_open (hthere : s.tree.Leads s.workDir target tgt) (hx : IsName x)
    (hopen : s.tree.Overwritable (tgt ++ [x])) (source : String) :
    copyTarget s source (join target x) = join target x := by
  refine if_neg fun hdir => ?_
  obtain ⟨loc, hstat⟩ := isDirectory_iff.mp hdir
  obtain ⟨-, -, hnode⟩ := hthere.of_stat_join hx hopen.no_link hstat
  obtain ⟨content, hn⟩ := hopen _ hnode
  cases hn

theorem copyTarget_into (hstat : s.tree.stat s.workDir target = .ok (tgt, .directory))
    (hx : IsName x) (source : String) : copyTarget s (join source x) target = join target x := by
  rw [copyTarget, if_pos (isDirectory_iff.mpr ⟨tgt, hstat⟩), base_join hx]

theorem eval_copyFile_join {y there : String} (hhere : s.tree.Leads s.workDir source src)
    (hx : Fits source x)
    (hfile : s.tree.find? (src ++ [x]) = some (.file bytes readOnly))
    (htarget : copyTarget s (join source x) there = join target y)
    (hthere : s.tree.Leads s.workDir target tgt) (hy : Fits target y)
    (hopen : s.tree.Overwritable (tgt ++ [y])) (hne : src ++ [x] ≠ tgt ++ [y]) :
    eval (copyFile (join source x) there) s =
      (.ok (), { s with tree := s.tree.insert (tgt ++ [y]) (.file bytes readOnly) }) := by
  have hlook := hhere.stat_file hx hfile
  have hsame : eval (isSameNode (join source x)
      (copyTarget s (join source x) there)) s = (.ok false, s) := by
    rw [htarget, isSameNode, eval_query, hlook, hthere.stat_join hy hopen.no_link, lookAt]
    cases s.tree.find? (tgt ++ [y]) with
    | none => rfl
    | some n => simp [hne]
  have hread : Reads s (join source x) bytes :=
    reads_iff.mpr ⟨plain_join hx.name hhere.plain, by rw [FileTree.read, hlook]⟩
  have hprotected := protectLike_insert hlook
    (hthere.locate_join hy hopen.no_link true) (by simp) hne hopen.not_leads bytes
  rw [eval_copyFile hsame, if_neg Bool.false_ne_true, htarget, eval_bind_ok hread,
    eval_bind_ok (eval_writeBytes (hthere.opens_join hy hopen) bytes), ← hprotected]
  rfl

theorem copyFile_join_cases {y there : String} (hhere : s.tree.Leads s.workDir source src)
    (hx : IsName x) (hplain : ∀ n, s.tree.find? (src ++ [x]) = some n → n.plain = true)
    (htarget : copyTarget s (join source x) there = join target y)
    (hthere : s.tree.Leads s.workDir target tgt) (hy : IsName y)
    (hplain' : ∀ n, s.tree.find? (tgt ++ [y]) = some n → n.plain = true) :
    (∃ stop, eval (copyFile (join source x) there) s = (.error stop, s)) ∨
      ∃ bytes readOnly, eval (copyFile (join source x) there) s = (.ok (), { s with
          tree := s.tree.insert (tgt ++ [y]) (.file bytes readOnly) }) ∧
        s.tree.find? (src ++ [x]) = some (.file bytes readOnly) ∧
        s.tree.Overwritable (tgt ++ [y]) := by
  rcases copyFile_cases s (join source x) there with
    hstop | ⟨bytes, tree, hdone, hread, hwrite, hother⟩
  · exact .inl hstop
  rw [htarget] at hdone hwrite hother
  obtain ⟨hfits, readOnly, hfile⟩ := hhere.of_read_join hx hplain hread
  obtain ⟨hfits', hopen, rfl⟩ := hthere.of_write_join hy hplain' hwrite
  have hlook := hhere.stat_file hfits hfile
  have hlocate := hthere.locate_join hfits' hopen.no_link true
  -- A file is not copied onto itself.
  have hne : src ++ [x] ≠ tgt ++ [y] := by
    intro heq
    refine hother _ _ (.file bytes readOnly) hlook (stat_ok.mpr ⟨?_, hfile⟩)
    rw [heq]
    exact hlocate
  rw [protectLike_insert hlook hlocate (by simp) hne hopen.not_leads] at hdone
  exact .inr ⟨bytes, readOnly, hdone, hfile, hopen⟩

structure Copying (s : Session) (source target : String) (src tgt : Location) : Prop where
  proper : s.tree.Proper
  here : s.tree.Leads s.workDir source src
  there : s.tree.Leads s.workDir target tgt
  plain : s.tree.Plain src

theorem Copying.graft (h : Copying s source target src tgt) {a b : Location}
    (hgraft : Grafted a b s s') : Copying s' source target src tgt where
  proper := hgraft.tree.proper h.proper
  here := hgraft.place ▸ h.here.extend hgraft.tree.toExtends
  there := hgraft.place ▸ h.there.extend hgraft.tree.toExtends
  plain := h.plain.graft hgraft.tree

def GraftsTrees (depth : Nat) : Prop :=
  ∀ (s : Session) (source top x : String) (src dir : Location), Copying s source top src dir →
    IsName x → s.tree.find? (dir ++ [x]) = none →
    Grafted src (dir ++ [x]) s (eval (copyTreeWithin depth source (join top x)) s).2

theorem Copying.grafted_entry (hdepth : GraftsTrees depth) (h : Copying s source target src tgt)
    (hx : IsName x) (hfree : s.tree.find? (tgt ++ [x]) = none) :
    Grafted (src ++ [x]) (tgt ++ [x]) s
      (eval (copyEntry (copyTreeWithin depth) source target x) s).2 := by
  rw [copyEntry, Run.isDirectory, eval_bind, eval_query]
  dsimp only
  split
  · next hdir =>
    obtain ⟨loc, hstat⟩ := isDirectory_iff.mp hdir
    obtain ⟨-, -, hnode⟩ := h.here.of_stat_join hx (h.plain.no_link [x]) hstat
    exact hdepth s _ _ x _ _ ⟨h.proper, h.here.step hx hnode, h.there, h.plain.below [x]⟩ hx hfree
  · have htarget := copyTarget_open h.there hx (overwritable_of_free hfree) (join source x)
    rcases copyFile_join_cases h.here hx (h.plain [x]) htarget h.there hx (by simp [hfree]) with
      ⟨stop, hstop⟩ | ⟨bytes, readOnly, hdone, hfile, -⟩
    · rw [hstop]
      exact .refl _ _ _
    · rw [hdone]
      exact ⟨rfl, .insert h.there.directory hx hfree hfile rfl⟩

theorem Copying.grafted_each (hdepth : GraftsTrees depth) (h : Copying s source target src tgt)
    (names : List String) (hnodup : names.Nodup)
    (hnames : ∀ x ∈ names, IsName x ∧ s.tree.find? (tgt ++ [x]) = none) :
    Grafted src tgt s
      (eval (copyEach (copyEntry (copyTreeWithin depth) source target) names) s).2 := by
  induction names generalizing s with
  | nil => exact .refl _ _ _
  | cons x names ih =>
    rw [nodup_cons] at hnodup
    have hstep := h.grafted_entry hdepth (hnames x (by simp)).1 (hnames x (by simp)).2
    rw [← eval_attempt_snd] at hstep
    refine after_bind hstep.lift fun done s₁ hs₁ _ => ?_
    rw [hs₁] at hstep
    refine hstep.lift.trans (after_bind (ih (h.graft hstep) hnodup.2
      fun y hy => ⟨(hnames y (by simp [hy])).1, ?_⟩) fun others s₂ _ hrest => hrest)
    -- A step adds nothing under another name.
    rw [hstep.tree.outside, (hnames y (by simp [hy])).2]
    intro hpre
    obtain rfl : y = x := by simpa using (hpre.eq_of_length (by simp)).symm
    exact hnodup.1 hy

theorem graftsTrees (depth : Nat) : GraftsTrees depth := by
  induction depth with
  | zero => exact fun s source top x src dir _ _ _ => .refl _ _ _
  | succ depth ih =>
    intro s source top x src dir h hx hfree
    rw [copyTreeWithin]
    rcases listNames_cases source s with ⟨stop, hstop⟩ | ⟨loc, hloc, hlist⟩
    · rw [eval_bind, hstop]
      exact .refl _ _ _
    obtain rfl := Except.ok.inj (hloc.followed.symm.trans h.here.followed)
    rw [eval_bind_ok hlist]
    rcases @eval_makeDirectories_join s false top x dir h.there hx hfree with
      ⟨-, hmade⟩ | ⟨-, stop, hstop⟩
    · rw [eval_bind_ok hmade]
      have hgraft : Grafted loc (dir ++ [x]) s
          { s with tree := s.tree.insert (dir ++ [x]) .directory } :=
        ⟨rfl, .insert h.there.directory hx hfree h.here.directory rfl⟩
      have hafter := h.graft hgraft
      have hthere := hafter.there.step hx (by
        rw [find?_insert (by simp), if_pos rfl])
      refine hgraft.trans (after_bind (Copying.grafted_each ih
        ⟨hafter.proper, hafter.here, hthere, hafter.plain⟩ _ (nodup_names h.proper loc) ?_) ?_)
      · intro y hy
        refine ⟨h.proper.isName_of_mem hy, ?_⟩
        rw [find?_insert (by simp), if_neg (by simp)]
        exact h.proper.none_below hfree [y]
      · intro complete s₁ _ hrest
        cases complete <;> exact hrest
    · rw [eval_bind, hstop]
      exact .refl _ _ _

end Workspace

namespace Path

def below (top : String) (p : List String) : String :=
  p.foldl join top

theorem length_le_below (top : String) (p : List String) (hp : ∀ x ∈ p, IsName x) :
    top.utf8ByteSize + p.length ≤ (below top p).utf8ByteSize := by
  induction p generalizing top with
  | nil => simp [below]
  | cons x p ih =>
    have hx : IsName x := hp x (by simp)
    have hstep : top.utf8ByteSize + 1 ≤ (join top x).utf8ByteSize := by
      have hfilled : 0 < x.utf8ByteSize := by
        rw [Nat.pos_iff_ne_zero, Ne, String.utf8ByteSize_eq_zero_iff]
        exact hx.filled
      have hopened : top.utf8ByteSize ≤ (opened top).utf8ByteSize := by
        unfold opened
        split
        · exact Nat.le_refl _
        · rw [String.utf8ByteSize_append]
          exact Nat.le_add_right _ _
      rw [join_name hx, String.utf8ByteSize_append]
      omega
    have hrest := ih (join top x) fun y hy => hp y (by simp [hy])
    rw [length_cons]
    exact Nat.le_trans (by omega) hrest

end Path

namespace FileTree

/-- No place below a location is too far away to be named, behind either of two paths. -/
def Spellable (tree : FileTree) (src : Location) (source target : String) : Prop :=
  ∀ p n, p ≠ [] → tree.find? (src ++ p) = some n →
    isOverlong (below source p) = false ∧ isOverlong (below target p) = false

theorem spellable_of_entries
    (h : ∀ e ∈ tree.entries, src <+: e.1 → isOverlong (below source (e.1.drop src.length)) = false ∧
        isOverlong (below target (e.1.drop src.length)) = false) :
    tree.Spellable src source target := by
  intro p n hp hn
  simpa using h _ (mem_entries (by simp [hp]) hn) (prefix_append src p)

structure InReach (tree : FileTree) (src : Location) (source target : String) (depth : Nat) :
    Prop where
  short : tree.Spellable src source target
  shallow : ∀ p n, tree.find? (src ++ p) = some n → p.length < depth

namespace InReach

theorem fits (h : tree.InReach src source target depth) (hx : IsName x)
    (hnode : tree.find? (src ++ [x]) = some node) : Fits source x ∧ Fits target x := by
  obtain ⟨hsource, htarget⟩ := h.short [x] node (by simp) hnode
  exact ⟨⟨hx, hsource⟩, ⟨hx, htarget⟩⟩

theorem step (h : tree.InReach src source target (depth + 1)) (x : String) :
    tree.InReach (src ++ [x]) (join source x) (join target x) depth := by
  constructor
  · intro p n _ hn
    rw [append_assoc] at hn
    exact h.short (x :: p) n (by simp) hn
  · intro p n hn
    rw [append_assoc] at hn
    simpa using h.shallow (x :: p) n hn

theorem congr (h : tree.InReach src source target depth)
    (hsame : ∀ p, tree'.find? (src ++ p) = tree.find? (src ++ p)) :
    tree'.InReach src source target depth :=
  ⟨fun p n hp hn => h.short p n hp (hsame p ▸ hn), fun p n hn => h.shallow p n (hsame p ▸ hn)⟩

theorem of_short (hsound : tree.Sound) (h : tree.Spellable src source target) :
    tree.InReach src source target pathLimit := by
  refine ⟨h, fun p n hn => ?_⟩
  by_cases hp : p = []
  · rw [hp]
    decide
  · have hshort := isOverlong_eq_false.mp (h p n hp hn).1
    have hlength := length_le_below source p fun y hy =>
      hsound.names_of hn y (mem_append_right _ hy)
    omega

end InReach

def Complete (src tgt : Location) (t t' : FileTree) : Prop :=
  ∀ p n, t.find? (src ++ p) = some n → t'.find? (tgt ++ p) = some n

end FileTree

namespace Workspace

open Run FileTree

variable {top : String} {dir : Location}

def CompletesTrees (depth : Nat) : Prop :=
  ∀ (s : Session) (source top x : String) (src dir : Location), Copying s source top src dir →
    s.tree.stat s.workDir source = .ok (src, .directory) → Fits top x →
    s.tree.find? (dir ++ [x]) = none → Apart src (dir ++ [x]) →
    s.tree.InReach src source (join top x) depth →
    ∃ s', eval (copyTreeWithin depth source (join top x)) s = (.ok (), s') ∧
      Complete src (dir ++ [x]) s.tree s'.tree

section

variable (hdepth : CompletesTrees depth) (h : Copying s source target src tgt)
  (hapart : Apart src tgt) (hreach : s.tree.InReach src source target (depth + 1))
include hdepth h hapart hreach

theorem Copying.complete_entry {node : Node} (hnode : s.tree.find? (src ++ [x]) = some node)
    (hfree : s.tree.find? (tgt ++ [x]) = none) :
    ∃ s', eval (copyEntry (copyTreeWithin depth) source target x) s = (.ok (), s') ∧
      Complete (src ++ [x]) (tgt ++ [x]) s.tree s'.tree := by
  have hx := h.proper.named src x node hnode
  have hfits := hreach.fits hx hnode
  have hlook : s.tree.stat s.workDir (join source x) = .ok (src ++ [x], node) := by
    rw [h.here.stat_join hfits.1 (h.plain.no_link [x]), lookAt, hnode]
  rw [copyEntry, Run.isDirectory, eval_bind, eval_query]
  dsimp only
  cases node with
  | directory =>
    rw [if_pos (isDirectory_iff.mpr ⟨_, hlook⟩)]
    exact hdepth s _ _ x _ _ ⟨h.proper, h.here.step hx hnode, h.there, h.plain.below [x]⟩ hlook
      hfits.2 hfree (hapart.append [x] [x]) (hreach.step x)
  | file bytes readOnly =>
    have hdir : ¬ s.tree.isDirectory s.workDir (join source x) = true := by
      rw [FileTree.isDirectory, hlook]
      simp
    have hopen := overwritable_of_free hfree
    rw [if_neg hdir, eval_copyFile_join h.here hfits.1 hnode (copyTarget_open h.there hx hopen _)
      h.there hfits.2 hopen (hapart.ne [x] [x])]
    refine ⟨_, rfl, fun p n hn => ?_⟩
    by_cases hp : p = []
    · rw [hp, append_nil, hnode] at hn
      rw [hp, append_nil, find?_insert (by simp), if_pos rfl, hn]
    · rw [h.proper.directory_above hp hn] at hnode
      cases hnode
  | link | device => cases h.plain [x] _ hnode

theorem Copying.complete_each (names : List String) (hnodup : names.Nodup)
    (hnames : ∀ x ∈ names, s.tree.find? (src ++ [x]) ≠ none ∧ s.tree.find? (tgt ++ [x]) = none) :
    ∃ s', eval (copyEach (copyEntry (copyTreeWithin depth) source target) names) s =
        (.ok true, s') ∧
      ∀ x ∈ names, Complete (src ++ [x]) (tgt ++ [x]) s.tree s'.tree := by
  induction names generalizing s with
  | nil => exact ⟨s, rfl, by simp⟩
  | cons x names ih =>
    rw [nodup_cons] at hnodup
    obtain ⟨hsome, hfree⟩ := hnames x (by simp)
    obtain ⟨node, hnode⟩ := Option.ne_none_iff_exists'.mp hsome
    obtain ⟨s₁, hs₁, hfirst⟩ := h.complete_entry hdepth hapart hreach hnode hfree
    have hgraft := h.grafted_entry (graftsTrees depth) (h.proper.named src x node hnode) hfree
    rw [hs₁] at hgraft
    have hsame : ∀ p, s₁.tree.find? (src ++ p) = s.tree.find? (src ++ p) :=
      hgraft.tree.apart hapart rfl
    have hnames' : ∀ y ∈ names, s₁.tree.find? (src ++ [y]) ≠ none ∧
        s₁.tree.find? (tgt ++ [y]) = none := by
      intro y hy
      obtain ⟨hthere, hfree'⟩ := hnames y (by simp [hy])
      refine ⟨by rwa [hsame], ?_⟩
      rw [hgraft.tree.outside, hfree']
      intro hpre
      obtain rfl : y = x := by simpa using (hpre.eq_of_length (by simp)).symm
      exact hnodup.1 hy
    have hafter := h.graft hgraft
    have hrest := hafter.grafted_each (graftsTrees depth) names hnodup.2 fun y hy => by
      obtain ⟨n, hn⟩ := Option.ne_none_iff_exists'.mp (hnames' y hy).1
      exact ⟨hafter.proper.named src y n hn, (hnames' y hy).2⟩
    obtain ⟨s', hs', hothers⟩ := ih hafter (hreach.congr hsame) hnodup.2 hnames'
    rw [hs'] at hrest
    refine ⟨s', ?_, ?_⟩
    · rw [copyEach, eval_bind, eval_attempt, hs₁]
      dsimp only
      rw [eval_bind_ok hs']
      rfl
    · intro y hy p n hn
      rcases mem_cons.mp hy with rfl | hy
      · exact hrest.tree.kept _ _ (hfirst p n hn)
      · refine hothers y hy p n ?_
        rwa [append_assoc, hsame, ← append_assoc]

end

theorem completesTrees (depth : Nat) : CompletesTrees depth := by
  induction depth with
  | zero =>
    intro s source top x src dir h _ _ _ _ hreach
    exact absurd (hreach.shallow [] .directory (by simpa using h.here.directory)) (by simp)
  | succ depth ih =>
    intro s source top x src dir h hstat hfits hfree hapart hreach
    have hx := hfits.name
    have hmade := (@eval_makeDirectories_join s false top x dir h.there hx hfree).resolve_right
      fun hno => hno.1 hfits
    have hgraft : Grafted src (dir ++ [x]) s
        { s with tree := s.tree.insert (dir ++ [x]) .directory } :=
      ⟨rfl, .insert h.there.directory hx hfree h.here.directory rfl⟩
    have hafter := h.graft hgraft
    have hthere := hafter.there.step hx (by rw [find?_insert (by simp), if_pos rfl])
    have hcopying : Copying { s with tree := s.tree.insert (dir ++ [x]) .directory } source
        (join top x) src (dir ++ [x]) :=
      ⟨hafter.proper, hafter.here, hthere, hafter.plain⟩
    have hsame : ∀ p, (s.tree.insert (dir ++ [x]) .directory).find? (src ++ p) =
        s.tree.find? (src ++ p) := hgraft.tree.apart hapart (append_nil _).symm
    have hnames : ∀ y ∈ s.tree.names src,
        (s.tree.insert (dir ++ [x]) .directory).find? (src ++ [y]) ≠ none ∧
          (s.tree.insert (dir ++ [x]) .directory).find? (dir ++ [x] ++ [y]) = none := by
      intro y hy
      refine ⟨by rw [hsame]; exact mem_names.mp hy, ?_⟩
      rw [find?_insert (by simp), if_neg (by simp)]
      exact h.proper.none_below hfree [y]
    have hnodup := nodup_names h.proper src
    obtain ⟨s', hs', hall⟩ := hcopying.complete_each ih hapart (hreach.congr hsame) _ hnodup hnames
    have hrest := hcopying.grafted_each (graftsTrees depth) _ hnodup fun y hy =>
      ⟨h.proper.isName_of_mem hy, (hnames y hy).2⟩
    rw [hs'] at hrest
    refine ⟨s', ?_, fun p n hn => ?_⟩
    · rw [copyTreeWithin, eval_bind_ok (eval_listNames h.here.plain hstat),
        eval_bind_ok hmade.2, eval_bind_ok hs']
      rfl
    · cases p with
      | nil =>
        rw [append_nil, h.here.directory] at hn
        rw [append_nil, ← hn]
        exact hrest.tree.kept _ _ hthere.directory
      | cons y p =>
        have hy : s.tree.find? (src ++ [y]) ≠ none := by
          by_cases hp : p = []
          · rw [hp] at hn
            simp [hn]
          · rw [h.proper.directory_above hp (by rwa [append_assoc])]
            simp
        have hcopied := hall y (mem_names.mpr hy) p n (by
          rw [append_assoc]
          exact (hsame (y :: p)).trans hn)
        rwa [append_assoc] at hcopied

end Workspace
end SceneText
