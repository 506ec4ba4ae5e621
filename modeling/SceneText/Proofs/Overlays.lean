import SceneText.Proofs.Removals

/-!
# Directories laid over others

However the merge of a directory into another ends, it has laid parts of the one over the other:
directories stay, nothing outside the second changes, and in it only what stands where the first has
something or below a file of the first. Without overwriting, the merge only adds.
-/

namespace SceneText

open List SceneText.Path

variable {q : Location} {readOnly : Bool}

namespace FileTree

variable {src dst dir : Location} {t t' t'' : FileTree} {x y : String}

structure Overlays (src dst : Location) (t t' : FileTree) : Prop where
  proper : t.Proper → t'.Proper
  ways : ∀ l n, n.leads = true → t.find? l = some n → t'.find? l = some n
  fresh : ∀ l n, t'.find? l = some n → t.find? l = some n ∨ n.plain = true
  outside : ∀ l, ¬ dst <+: l → t'.find? l = t.find? l
  untouched : ∀ p, t.find? (src ++ p) = none →
    (∀ q bytes readOnly, q <+: p → t.find? (src ++ q) ≠ some (.file bytes readOnly)) →
    t'.find? (dst ++ p) = t.find? (dst ++ p)

namespace Overlays

variable {content : List UInt8}

theorem refl (src dst : Location) (t : FileTree) : Overlays src dst t t :=
  ⟨id, fun _ _ _ h => h, fun _ _ h => .inl h, fun _ _ => rfl, fun _ _ _ => rfl⟩

theorem source (h : Overlays src dst t t') {a b : Location} (hapart : Apart a b)
    (hdst : dst = b ++ q) (p : Location) : t'.find? (a ++ p) = t.find? (a ++ p) :=
  h.outside _ (hdst ▸ hapart.not_prefix p q)

theorem trans (hapart : Apart src dst) (h : Overlays src dst t t') (h' : Overlays src dst t' t'') :
    Overlays src dst t t'' := by
  have hsource := h.source hapart (append_nil dst).symm
  refine ⟨fun ht => h'.proper (h.proper ht), fun l n hn hl => h'.ways l n hn (h.ways l n hn hl),
    fun l n hl => ?_, fun l hl => (h'.outside l hl).trans (h.outside l hl), fun p hp hq => ?_⟩
  · rcases h'.fresh l n hl with hl | hn
    · exact h.fresh l n hl
    · exact .inr hn
  · rw [h'.untouched p ((hsource p).trans hp) fun q bytes readOnly hpre => by
      rw [hsource q]; exact hq q bytes readOnly hpre]
    exact h.untouched p hp hq

theorem lift (h : Overlays (src ++ q) (dst ++ q) t t') : Overlays src dst t t' := by
  refine ⟨h.proper, h.ways, h.fresh, fun l hl => h.outside l fun hpre =>
    hl ((prefix_append dst q).trans hpre), fun p hp hfile => ?_⟩
  by_cases hq : q <+: p
  · obtain ⟨r, rfl⟩ := hq
    rw [← append_assoc] at hp ⊢
    refine h.untouched r hp fun q' bytes readOnly hpre => ?_
    rw [append_assoc]
    exact hfile _ bytes readOnly ((prefix_append_right_inj q).mpr hpre)
  · exact h.outside _ fun hpre => hq ((prefix_append_right_inj dst).mp hpre)

theorem of_grafts (hapart : Apart src dst) (h : Grafts src dst t t') : Overlays src dst t t' := by
  refine ⟨h.proper, fun l n _ hl => h.kept l n hl, fun l n hl => ?_, fun l hl => h.outside hl,
    fun p hp _ => ?_⟩
  · exact (h.copies l n hl).imp_right And.left
  · cases hnode : t.find? (dst ++ p) with
    | some n => exact h.kept _ _ hnode
    | none =>
      by_contra hnew
      obtain ⟨n, hn⟩ := Option.ne_none_iff_exists'.mp hnew
      rcases h.copies _ n hn with hold | ⟨-, p', heq, hcopied⟩
      · rw [hnode] at hold
        cases hold
      · rw [← append_cancel_left heq, h.apart hapart (append_nil dst).symm, hp] at hcopied
        cases hcopied

theorem write (hfile : t.find? src = some (.file content readOnly))
    (hdir : t.find? dir = some .directory) (hy : IsName y) (hbelow : dst <+: dir ++ [y])
    (hopen : t.Overwritable (dir ++ [y])) :
    Overlays src dst t (t.insert (dir ++ [y]) (.file content readOnly)) := by
  have hfind : ∀ l, (t.insert (dir ++ [y]) (.file content readOnly)).find? l =
      if l = dir ++ [y] then some (.file content readOnly) else t.find? l :=
    find?_insert (by simp) t _
  refine ⟨fun ht => ht.insert hdir hy (fun hl => ?_) _, fun l n hn hl => ?_, fun l n hl => ?_,
    fun l hl => ?_, fun p hp hq => ?_⟩
  · obtain ⟨old, hn⟩ := hopen _ hl
    cases hn
  · rw [hfind, if_neg, hl]
    rintro rfl
    obtain ⟨old, rfl⟩ := hopen _ hl
    cases hn
  · rw [hfind] at hl
    split at hl
    · cases hl
      exact .inr rfl
    · exact .inl hl
  · rw [hfind, if_neg]
    rintro rfl
    exact hl hbelow
  · exact absurd (by rwa [append_nil]) (hq [] content readOnly nil_prefix)

theorem erase (ht : t.Proper) (hsrc : t.find? src = some .directory)
    (hfile : t.find? dst = some (.file content readOnly)) : Overlays src dst t (t.erase dst) := by
  have hpruned : Pruned dst t (t.erase dst) := pruned_erase ht hfile (by simp)
  refine ⟨fun _ => hpruned.proper, (extends_erase ht hfile rfl).ways,
    fun l n hl => .inl (hpruned.less l n hl), hpruned.apart, fun p hp _ => ?_⟩
  have hmore : p ≠ [] := by
    rintro rfl
    rw [append_nil, hsrc] at hp
    cases hp
  have hnone : t.find? (dst ++ p) = none := by
    by_contra hsome
    obtain ⟨n, hn⟩ := Option.ne_none_iff_exists'.mp hsome
    rw [ht.directory_above hmore hn] at hfile
    cases hfile
  rw [hnone]
  by_contra hsome
  obtain ⟨n, hn⟩ := Option.ne_none_iff_exists'.mp hsome
  rw [hpruned.less _ n hn] at hnone
  cases hnone

theorem toExtends (h : Overlays src dst t t') : Extends t t' :=
  ⟨h.ways, fun l _ hl => (h.fresh l _ hl).resolve_right Bool.false_ne_true⟩

end Overlays

theorem Plain.overlay {loc : Location} (h : t.Plain loc) (hover : Overlays src dst t t') :
    t'.Plain loc := by
  intro p n hn
  rcases hover.fresh _ n hn with hn | hn
  · exact h p n hn
  · exact hn

theorem Plain.linkFree {loc : Location} (h : t.Plain loc) : t.LinkFree loc :=
  fun x target => h.no_link [x] target

end FileTree

namespace Run

open FileTree

variable {src dst dir : Location} {s s' s'' : Session} {overwrite : Bool} {top x : String}

structure Merged (overwrite : Bool) (src dst : Location) (s s' : Session) : Prop where
  place : s'.workDir = s.workDir
  overlay : Overlays src dst s.tree s'.tree
  additive : overwrite = false → Grafts src dst s.tree s'.tree

namespace Merged

theorem refl (overwrite : Bool) (src dst : Location) (s : Session) : Merged overwrite src dst s s :=
  ⟨rfl, .refl _ _ _, fun _ => .refl _ _ _⟩

theorem trans (hapart : Apart src dst) (h : Merged overwrite src dst s s')
    (h' : Merged overwrite src dst s' s'') : Merged overwrite src dst s s'' :=
  ⟨h'.place.trans h.place, h.overlay.trans hapart h'.overlay,
    fun hkeep => (h.additive hkeep).trans (h'.additive hkeep)⟩

theorem lift (h : Merged overwrite (src ++ q) (dst ++ q) s s') : Merged overwrite src dst s s' :=
  ⟨h.place, h.overlay.lift, fun hkeep => (h.additive hkeep).lift⟩

theorem say (h : Merged overwrite src dst s s') (line : String) :
    Merged overwrite src dst s (eval (say line) s').2 :=
  ⟨h.place, h.overlay, h.additive⟩

end Merged

theorem nodeAt_join_cases (h : s.tree.Leads s.workDir top dir) (hx : IsName x)
    (hlink : s.tree.LinkFree dir) :
    (∃ stop, eval (nodeAt? (join top x)) s = (.error stop, s)) ∨
      Fits top x ∧ eval (nodeAt? (join top x)) s = (.ok (s.tree.find? (dir ++ [x])), s) := by
  cases hshort : isOverlong (join top x) with
  | false => exact .inr ⟨⟨hx, hshort⟩, eval_nodeAt h ⟨hx, hshort⟩ hlink⟩
  | true =>
    refine .inl ⟨.fault (.file .nameTooLong (join top x) none), ?_⟩
    rw [nodeAt?, eval_bind, eval_query]
    rw [stat_overlong hshort]
    rfl

end Run

namespace Workspace

open Run FileTree

variable {s s' : Session} {source destination x : String} {src dst : Location} {overwrite : Bool}
  {depth : Nat}

/-- Two texts that name directories apart from each other, in which there is nothing but files and
directories. -/
structure Merging (s : Session) (source destination : String) (src dst : Location) : Prop where
  proper : s.tree.Proper
  here : s.tree.Leads s.workDir (tidy source) src
  there : s.tree.Leads s.workDir (tidy destination) dst
  shortHere : isOverlong (Clean.ofText source).toText = false
  shortThere : isOverlong (Clean.ofText destination).toText = false
  plainHere : s.tree.Plain src
  plainThere : s.tree.Plain dst
  apart : Apart src dst

theorem forM_congr {f g : String → Run Unit} (names : List String) (h : ∀ x ∈ names, f x = g x) :
    names.forM f = names.forM g := by
  induction names with
  | nil => rfl
  | cons x names ih =>
    change (f x >>= fun _ => names.forM f) = (g x >>= fun _ => names.forM g)
    rw [h x (by simp), ih fun y hy => h y (by simp [hy])]

/-- The step of a merge for the entry `x`. -/
def mergeNamed (overwrite : Bool) (depth : Nat) (source destination x : String) : Run Unit :=
  mergeEntry (mergeWithin overwrite depth) overwrite (join (tidy source) x)
    (join (tidy destination) x)

namespace Merging

variable (h : Merging s source destination src dst)
include h

theorem after {a b : Location} (hmerged : Merged overwrite a b s s') :
    Merging s' source destination src dst where
  proper := hmerged.overlay.proper h.proper
  here := hmerged.place ▸ h.here.extend hmerged.overlay.toExtends
  there := hmerged.place ▸ h.there.extend hmerged.overlay.toExtends
  shortHere := h.shortHere
  shortThere := h.shortThere
  plainHere := h.plainHere.overlay hmerged.overlay
  plainThere := h.plainThere.overlay hmerged.overlay
  apart := h.apart

theorem step (hfits : Fits (tidy source) x ∧ Fits (tidy destination) x)
    (hhere : s.tree.find? (src ++ [x]) = some .directory)
    (hthere : s.tree.find? (dst ++ [x]) = some .directory) :
    Merging s (join (tidy source) x) (join (tidy destination) x) (src ++ [x]) (dst ++ [x]) := by
  have hshort : ∀ path, Fits (tidy path) x →
      isOverlong (Clean.ofText (join (tidy path) x)).toText = false := by
    intro path hx
    have htidy : tidy (join (tidy path) x) = join (tidy path) x := tidy_join hx.name
    rw [Clean.toText_eq (Clean.isClean_ofText _)]
    rw [tidy] at htidy
    rw [htidy, if_neg (join_ne_empty hx.name)]
    exact hx.short
  refine ⟨h.proper, ?_, ?_, hshort source hfits.1, hshort destination hfits.2,
    h.plainHere.below [x], h.plainThere.below [x], h.apart.append [x] [x]⟩
  · rw [tidy_join hfits.1.name]
    exact h.here.step hfits.1.name hhere
  · rw [tidy_join hfits.2.name]
    exact h.there.step hfits.2.name hthere

theorem copying (hx : IsName x) (hdir : s.tree.find? (src ++ [x]) = some .directory) :
    Copying s (join (tidy source) x) (tidy destination) (src ++ [x]) dst :=
  ⟨h.proper, h.here.step hx hdir, h.there, h.plainHere.below [x]⟩

theorem eval_mergeWithin (overwrite : Bool) (depth : Nat) :
    ∃ line, eval (mergeWithin overwrite (depth + 1) source destination) s =
      eval ((s.tree.names src).forM (mergeNamed overwrite depth source destination) >>=
        fun _ => Run.say line) s := by
  have hclean := Clean.isClean_ofText source
  have hclean' := Clean.isClean_ofText destination
  have hhere : s.tree.stat s.workDir (Clean.ofText source).toText = .ok (src, .directory) :=
    h.here.stat_toText hclean h.shortHere
  have hthere : s.tree.stat s.workDir (Clean.ofText destination).toText =
      .ok (dst, .directory) := h.there.stat_toText hclean' h.shortThere
  have hlookHere := eval_nodeAt_ok hhere
  have hlookThere := eval_nodeAt_ok hthere
  have hentries : (s.tree.names src).forM (fun x => mergeEntry (mergeWithin overwrite depth)
        overwrite ((Clean.ofText source).append x).toText
        ((Clean.ofText destination).append x).toText) =
      (s.tree.names src).forM (mergeNamed overwrite depth source destination) := by
    refine forM_congr _ fun x hx => ?_
    have hname := h.proper.isName_of_mem hx
    rw [mergeNamed, Clean.toText_append hclean hname, Clean.toText_append hclean' hname]
    rfl
  apply Exists.intro
  rw [mergeWithin, eval_bind_ok (eval_occupied_of hlookHere)]
  refine (eval_bind_ok (eval_holdsDirectory_of hlookHere) _).trans ?_
  refine (eval_bind_ok (eval_makeClean_parent h.there hclean' h.shortThere) _).trans ?_
  refine (eval_bind_ok (eval_occupied_of hlookThere) _).trans ?_
  refine (eval_bind_ok (eval_holdsDirectory_of hlookThere) _).trans ?_
  refine (eval_bind_ok (eval_listNames ((plain_spelled hclean).mp h.here.plain) hhere) _).trans ?_
  exact congrArg (fun entries => eval (entries >>= fun _ => Run.say _) s) hentries

section

variable (hfits : Fits (tidy source) x ∧ Fits (tidy destination) x)
include hfits

theorem eval_mergeNamed_file {bytes : List UInt8} {readOnly : Bool}
    (hfile : s.tree.find? (src ++ [x]) = some (.file bytes readOnly)) :
    eval (mergeNamed overwrite depth source destination x) s =
      eval (mergeFile (join (tidy source) x) (join (tidy destination) x) overwrite) s := by
  obtain ⟨isFile, hrun, hiff⟩ :=
    eval_holdsFile_of (eval_nodeAt h.here hfits.1 h.plainHere.linkFree)
  rw [mergeNamed, mergeEntry, eval_bind_ok hrun, if_pos (hiff.mpr ⟨_, _, hfile⟩)]

theorem eval_mergeNamed_directory (hdir : s.tree.find? (src ++ [x]) = some .directory) :
    eval (mergeNamed overwrite depth source destination x) s =
      if s.tree.find? (dst ++ [x]) = some .directory then
        eval (mergeWithin overwrite depth (join (tidy source) x) (join (tidy destination) x)) s
      else
        eval (placeDirectory (join (tidy source) x) (join (tidy destination) x) overwrite) s := by
  have hhere := eval_nodeAt h.here hfits.1 h.plainHere.linkFree
  have hthere := eval_nodeAt h.there hfits.2 h.plainThere.linkFree
  obtain ⟨isFile, hrun, hiff⟩ := eval_holdsFile_of hhere
  rw [mergeNamed, mergeEntry, eval_bind_ok hrun, if_neg (by simp [hiff, hdir]),
    eval_bind_ok (eval_holdsDirectory_of hhere), if_pos (by simpa using hdir),
    eval_bind_ok (eval_holdsDirectory_of hthere)]
  split <;> simp_all

end

theorem merged_copyFile (hx : IsName x)
    (hwhen : overwrite = true ∨ s.tree.find? (dst ++ [x]) = none) :
    Merged overwrite (src ++ [x]) (dst ++ [x]) s (eval (copyFile (join (tidy source) x)
        (join (tidy destination) x)) s).2 := by
  have hfree : overwrite = false → s.tree.find? (dst ++ [x]) = none :=
    fun hkeep => hwhen.resolve_left (by simp [hkeep])
  by_cases hdir : s.tree.isDirectory s.workDir (join (tidy destination) x) = true
  · -- The file goes into the directory that is in its way.
    obtain ⟨loc, hstat⟩ := isDirectory_iff.mp hdir
    obtain ⟨-, -, hnode⟩ := h.there.of_stat_join hx (h.plainThere.no_link [x]) hstat
    rcases copyFile_join_cases h.here hx (h.plainHere [x]) (copyTarget_into hstat hx _)
        (h.there.step hx hnode) hx (h.plainThere.below [x] [x]) with
      ⟨stop, hstop⟩ | ⟨bytes, readOnly, hdone, hfile, hopen⟩
    · rw [hstop]
      exact .refl _ _ _ _
    · rw [hdone]
      refine ⟨rfl, .write hfile hnode hx (prefix_append _ _) hopen, fun hkeep => ?_⟩
      rw [hfree hkeep] at hnode
      cases hnode
  · rcases copyFile_join_cases h.here hx (h.plainHere [x]) (if_neg hdir) h.there hx
        (h.plainThere [x]) with
      ⟨stop, hstop⟩ | ⟨bytes, readOnly, hdone, hfile, hopen⟩
    · rw [hstop]
      exact .refl _ _ _ _
    · rw [hdone]
      exact ⟨rfl, .write hfile h.there.directory hx (prefix_refl _) hopen,
        fun hkeep => .insert h.there.directory hx (hfree hkeep) hfile rfl⟩

theorem merged_mergeFile (hx : IsName x) :
    Merged overwrite (src ++ [x]) (dst ++ [x]) s
      (eval (mergeFile (join (tidy source) x) (join (tidy destination) x) overwrite) s).2 := by
  rw [mergeFile]
  rcases nodeAt_join_cases h.there hx h.plainThere.linkFree with ⟨stop, hstop⟩ | ⟨-, hnode⟩
  · rw [occupied, eval_bind, eval_bind, hstop]
    exact .refl _ _ _ _
  rw [eval_bind_ok (eval_occupied_of hnode)]
  cases hfound : s.tree.find? (dst ++ [x]) with
  | none => exact after_bind (h.merged_copyFile hx (.inr hfound)) fun _ _ _ hs => hs.say _
  | some n =>
    cases overwrite with
    | true => exact after_bind (h.merged_copyFile hx (.inl rfl)) fun _ _ _ hs => hs.say _
    | false => exact (Merged.refl _ _ _ s).say _

theorem merged_erase (hhere : s.tree.find? (src ++ [x]) = some .directory) {bytes : List UInt8}
    (hthere : s.tree.find? (dst ++ [x]) = some (.file bytes readOnly)) :
    Merged true (src ++ [x]) (dst ++ [x]) s { s with tree := s.tree.erase (dst ++ [x]) } :=
  ⟨rfl, .erase h.proper hhere hthere, fun hkeep => by cases hkeep⟩

theorem merged_copyTree (hx : IsName x) (hhere : s.tree.find? (src ++ [x]) = some .directory)
    (hthere : s.tree.find? (dst ++ [x]) = none) :
    Merged overwrite (src ++ [x]) (dst ++ [x]) s
      (eval (copyTree (join (tidy source) x) (join (tidy destination) x)) s).2 := by
  have hgraft := graftsTrees pathLimit s _ _ x _ _ (h.copying hx hhere) hx hthere
  rw [copyTree]
  exact ⟨hgraft.place, .of_grafts (h.apart.append [x] [x]) hgraft.tree, fun _ => hgraft.tree⟩

theorem merged_placeDirectory (hx : IsName x) (hhere : s.tree.find? (src ++ [x]) = some .directory)
    (hthere : s.tree.find? (dst ++ [x]) ≠ some .directory) :
    Merged overwrite (src ++ [x]) (dst ++ [x]) s
      (eval (placeDirectory (join (tidy source) x) (join (tidy destination) x) overwrite) s).2 := by
  rw [placeDirectory]
  rcases nodeAt_join_cases h.there hx h.plainThere.linkFree with ⟨stop, hstop⟩ | ⟨hfits, hnode⟩
  · rw [occupied, eval_bind, eval_bind, hstop]
    exact .refl _ _ _ _
  rw [eval_bind_ok (eval_occupied_of hnode)]
  cases hfound : s.tree.find? (dst ++ [x]) with
  | none => exact after_bind (h.merged_copyTree hx hhere hfound) fun _ _ _ hs => hs.say _
  | some n =>
    cases overwrite with
    | false => exact (Merged.refl _ _ _ s).say _
    | true =>
      obtain ⟨bytes, readOnly, rfl⟩ := h.plainThere.file hfound hthere
      have herased := h.merged_erase hhere hfound
      have hfree : (s.tree.erase (dst ++ [x])).find? (dst ++ [x]) = none := find?_erase (by simp)
      have hstill := herased.overlay.source (h.apart.append [x] [x]) (append_nil _).symm []
      rw [append_nil, hhere] at hstill
      change Merged true _ _ s (eval (clear (join (tidy destination) x) >>= fun _ =>
        copyTree (join (tidy source) x) (join (tidy destination) x) >>= fun _ => Run.say _) s).2
      rw [eval_bind_ok (eval_clear_join h.there hfits h.plainThere.linkFree hfound)]
      exact herased.trans (h.apart.append [x] [x]) (after_bind
        ((h.after herased).merged_copyTree hx hstill hfree) fun _ _ _ hs => hs.say _)

end Merging

def MergesTrees (overwrite : Bool) (depth : Nat) : Prop :=
  ∀ (s : Session) (source destination : String) (src dst : Location),
    Merging s source destination src dst →
    Merged overwrite src dst s (eval (mergeWithin overwrite depth source destination) s).2

namespace Merging

theorem merged_entry (h : Merging s source destination src dst)
    (hdepth : MergesTrees overwrite depth) (hx : IsName x) :
    Merged overwrite (src ++ [x]) (dst ++ [x]) s
      (eval (mergeNamed overwrite depth source destination x) s).2 := by
  rw [mergeNamed, mergeEntry]
  rcases nodeAt_join_cases h.here hx h.plainHere.linkFree with ⟨stop, hstop⟩ | ⟨hfits, hnode⟩
  · rw [holdsFile, eval_bind, eval_bind, hstop]
    exact .refl _ _ _ _
  obtain ⟨isFile, hfile, hisFile⟩ := eval_holdsFile_of hnode
  rw [eval_bind_ok hfile]
  cases isFile with
  | true => exact h.merged_mergeFile hx
  | false =>
    change Merged overwrite _ _ s (eval (Run.holdsDirectory _ >>= _) s).2
    rw [eval_bind_ok (eval_holdsDirectory_of hnode)]
    by_cases hhere : s.tree.find? (src ++ [x]) = some .directory
    · rw [if_pos (by simpa using hhere)]
      rcases nodeAt_join_cases h.there hx h.plainThere.linkFree with
        ⟨stop, hstop⟩ | ⟨hfits', hnode'⟩
      · rw [Run.holdsDirectory, eval_bind, eval_bind, hstop]
        exact .refl _ _ _ _
      rw [eval_bind_ok (eval_holdsDirectory_of hnode')]
      by_cases hthere : s.tree.find? (dst ++ [x]) = some .directory
      · rw [if_pos (by simpa using hthere)]
        exact hdepth s _ _ _ _ (h.step ⟨hfits, hfits'⟩ hhere hthere)
      · rw [if_neg (by simpa using hthere)]
        exact h.merged_placeDirectory hx hhere hthere
    · rw [if_neg (by simpa using hhere)]
      exact .refl _ _ _ _

theorem merged_each (h : Merging s source destination src dst)
    (hdepth : MergesTrees overwrite depth) (names : List String) (hnames : ∀ x ∈ names, IsName x) :
    Merged overwrite src dst s
      (eval (names.forM (mergeNamed overwrite depth source destination)) s).2 := by
  induction names generalizing s with
  | nil => exact .refl _ _ _ _
  | cons x names ih =>
    have hstep := h.merged_entry hdepth (hnames x (by simp))
    refine after_bind hstep.lift fun _ s₁ hs₁ hlifted => ?_
    exact hlifted.trans h.apart (ih (h.after hlifted) fun y hy => hnames y (by simp [hy]))

end Merging

theorem mergesTrees (overwrite : Bool) (depth : Nat) : MergesTrees overwrite depth := by
  induction depth with
  | zero => exact fun s source destination src dst _ => .refl _ _ _ _
  | succ depth ih =>
    intro s source destination src dst h
    obtain ⟨line, hrun⟩ := h.eval_mergeWithin overwrite depth
    rw [hrun]
    exact after_bind (h.merged_each ih _ fun x hx => h.proper.isName_of_mem hx)
      fun _ _ _ hs => hs.say _

end Workspace
end SceneText
