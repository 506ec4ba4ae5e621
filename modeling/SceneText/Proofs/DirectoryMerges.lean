import Mathlib.Data.List.Infix
import SceneText.Proofs.Overlays

/-!
# What a merge of directories delivers

A merge that does not overwrite adds what is in the first directory wherever the second has nothing
and no file in the way. A merge that overwrites puts every file of the first in its place, except
where the second has a directory: the file goes into that.
-/

namespace SceneText

open List SceneText.Path

namespace FileTree

variable {t t' t'' : FileTree} {src dst : Location} {x : String} {p : List String} {m : Node}
  {bytes : List UInt8} {readOnly overwrite : Bool} {destination : String}

def Unblocked (t : FileTree) (dst : Location) (p : List String) : Prop :=
  t.find? (dst ++ p) = none ∧
    ∀ q bytes readOnly, q <+: p → t.find? (dst ++ q) ≠ some (.file bytes readOnly)

theorem Unblocked.below (h : t.Unblocked dst (x :: p)) : t.Unblocked (dst ++ [x]) p := by
  refine ⟨by simpa using h.1, fun q bytes readOnly hpre => ?_⟩
  simpa using h.2 (x :: q) bytes readOnly ((prefix_cons_inj x).mpr hpre)

/-- Where a merge puts a node: a file goes into a directory that stands in its place. -/
def landing (t : FileTree) (dst : Location) (m : Node) (p : List String) : List String :=
  if m ≠ .directory ∧ t.find? (dst ++ p) = some .directory then p ++ p.getLast?.toList else p

theorem landing_self (h : m = .directory ∨ t.find? (dst ++ p) ≠ some .directory) :
    landing t dst m p = p :=
  if_neg fun hboth => h.elim hboth.1 fun hno => hno hboth.2

theorem landing_head (t : FileTree) (dst : Location) (m : Node) (x : String) (p : List String) :
    ∃ q, landing t dst m (x :: p) = x :: q := by
  unfold landing
  split
  · exact ⟨_, rfl⟩
  · exact ⟨p, rfl⟩

theorem landing_cons (h : p ≠ [] ∨ m = .directory) :
    landing t dst m (x :: p) = x :: landing t (dst ++ [x]) m p := by
  rcases h with hp | hm
  · obtain ⟨y, rest, rfl⟩ := exists_cons_of_ne_nil hp
    have hloc : dst ++ [x] ++ y :: rest = dst ++ x :: y :: rest := by simp
    unfold landing
    rw [getLast?_cons_cons, hloc]
    split
    · rfl
    · rfl
  · rw [landing_self (.inl hm), landing_self (.inl hm)]

def RoomAt (t : FileTree) (src dst : Location) (destination x : String) : Prop :=
  ∀ p bytes readOnly, t.find? (src ++ x :: p) = some (.file bytes readOnly) →
    t.Overwritable (dst ++ landing t dst (.file bytes readOnly) (x :: p)) ∧
    isOverlong (below destination (landing t dst (.file bytes readOnly) (x :: p))) = false

def DeliversAt (overwrite : Bool) (src dst : Location) (x : String) (t t' : FileTree) : Prop :=
  ∀ p m, t.find? (src ++ x :: p) = some m → overwrite = true ∨ t.Unblocked dst (x :: p) →
    t'.find? (dst ++ landing t dst m (x :: p)) = some m

section Clear

-- No directory and no locked file stands in the place of a file.
variable (hclear : ∀ p bytes readOnly n, t.find? (src ++ p) = some (.file bytes readOnly) →
  t.find? (dst ++ p) = some n → ∃ content, n = .file content false)
include hclear

theorem landing_of_clear (hfile : t.find? (src ++ p) = some (.file bytes readOnly)) :
    landing t dst (.file bytes readOnly) p = p := by
  refine landing_self (.inr fun hdir => ?_)
  obtain ⟨content, hn⟩ := hclear p bytes readOnly _ hfile hdir
  cases hn

theorem roomAt_of_clear {source : String} (hshort : t.Spellable src source destination)
    (x : String) : t.RoomAt src dst destination x := by
  intro p bytes readOnly hfile
  rw [landing_of_clear hclear hfile]
  exact ⟨fun n => hclear (x :: p) bytes readOnly n hfile, (hshort (x :: p) _ (by simp) hfile).2⟩

end Clear

theorem RoomAt.step (h : t.RoomAt src dst destination x) (y : String) :
    t.RoomAt (src ++ [x]) (dst ++ [x]) (join destination x) y := by
  intro p bytes readOnly hfile
  rw [append_assoc] at hfile
  have hroom := h (y :: p) bytes readOnly hfile
  rw [landing_cons (.inl (by simp))] at hroom
  rw [append_assoc]
  exact hroom

section Elsewhere

-- A change under another name.
variable (hsrc : ∀ p, t'.find? (src ++ p) = t.find? (src ++ p))
  (hdst : ∀ q p, q <+: x :: p → t'.find? (dst ++ q) = t.find? (dst ++ q))
include hsrc hdst

theorem RoomAt.congr (h : t.RoomAt src dst destination x) : t'.RoomAt src dst destination x := by
  intro p bytes readOnly hfile
  rw [hsrc] at hfile
  have hsame : landing t' dst (.file bytes readOnly) (x :: p) =
      landing t dst (.file bytes readOnly) (x :: p) := by
    rw [landing, hdst _ p (prefix_refl _), landing]
  obtain ⟨q, hq⟩ := landing_head t dst (.file bytes readOnly) x p
  have hroom := h p bytes readOnly hfile
  rw [hq] at hroom
  rwa [hsame, hq, Overwritable, hdst _ q (prefix_refl _)]

theorem DeliversAt.congr (h : DeliversAt overwrite src dst x t' t'') :
    DeliversAt overwrite src dst x t t'' := by
  intro p m hm hwhen
  have hsame : landing t' dst m (x :: p) = landing t dst m (x :: p) := by
    rw [landing, hdst _ p (prefix_refl _), landing]
  rw [← hsame]
  refine h p m (by rwa [hsrc]) (hwhen.imp_right fun hfree' => ⟨?_, fun q bytes readOnly hpre => ?_⟩)
  · rw [hdst _ p (prefix_refl _)]
    exact hfree'.1
  · rw [hdst q p hpre]
    exact hfree'.2 q bytes readOnly hpre

end Elsewhere

theorem DeliversAt.keep (h : DeliversAt overwrite src dst x t t')
    (hdst : ∀ q, t''.find? (dst ++ x :: q) = t'.find? (dst ++ x :: q)) :
    DeliversAt overwrite src dst x t t'' := by
  intro p m hm hwhen
  have hdelivered := h p m hm hwhen
  obtain ⟨q, hq⟩ := landing_head t dst m x p
  rw [hq] at hdelivered ⊢
  exact (hdst q).trans hdelivered

theorem deliversAt_file (ht : t.Sound) (hfile : t.find? (src ++ [x]) = some (.file bytes readOnly))
    (h : overwrite = true ∨ t.Unblocked dst [x] →
      t'.find? (dst ++ landing t dst (.file bytes readOnly) [x]) = some (.file bytes readOnly)) :
    DeliversAt overwrite src dst x t t' := by
  intro p m hm hwhen
  have hp : p = [] := by
    by_contra hp
    rw [ht.directory_above hp (by rwa [append_assoc])] at hfile
    cases hfile
  subst hp
  rw [hfile] at hm
  cases hm
  exact h hwhen

theorem deliversAt_directory (hdir : t.find? (src ++ [x]) = some .directory)
    (hthere : t'.find? (dst ++ [x]) = some .directory)
    (h : ∀ y, DeliversAt overwrite (src ++ [x]) (dst ++ [x]) y t t') :
    DeliversAt overwrite src dst x t t' := by
  intro p m hm hwhen
  cases p with
  | nil =>
    rw [hdir] at hm
    cases hm
    rwa [landing_self (.inl rfl)]
  | cons y p =>
    have hdelivered := h y p m (by rwa [append_assoc]) (hwhen.imp_right Unblocked.below)
    rw [landing_cons (.inl (by simp))]
    rwa [append_assoc] at hdelivered

theorem deliversAt_complete (h : Complete (src ++ [x]) (dst ++ [x]) t t')
    (hdst : ∀ p, p ≠ [] → t.find? (dst ++ x :: p) = none)
    (hthere : t.find? (dst ++ [x]) ≠ some .directory) : DeliversAt overwrite src dst x t t' := by
  intro p m hm _
  have hcopied := h p m (by rwa [append_assoc])
  rw [landing_self (.inr ?_)]
  · rwa [append_assoc] at hcopied
  · by_cases hp : p = []
    · rwa [hp]
    · rw [hdst p hp]
      simp

end FileTree

namespace Workspace

open Run FileTree

variable {s : Session} {source destination x : String} {src dst : Location} {overwrite : Bool}
  {depth : Nat} {bytes : List UInt8} {readOnly : Bool}

theorem eval_then_say {x : Run Unit} {s₁ : Session} (h : eval x s = (.ok (), s₁)) (line : String) :
    eval (x >>= fun _ => say line) s = (.ok (), { s₁ with out := s₁.out ++ line ++ "\n" }) :=
  eval_bind_ok h _

namespace Merging

variable (h : Merging s source destination src dst)
include h

section

variable (hfits : Fits (tidy source) x ∧ Fits (tidy destination) x)
include hfits

theorem delivers_file (hfile : s.tree.find? (src ++ [x]) = some (.file bytes readOnly))
    (hroom : overwrite = true → s.tree.RoomAt src dst (tidy destination) x) :
    ∃ s', eval (mergeFile (join (tidy source) x) (join (tidy destination) x)
        overwrite) s = (.ok (), s') ∧ DeliversAt overwrite src dst x s.tree s'.tree := by
  have hx := hfits.1.name
  have hnode := eval_nodeAt h.there hfits.2 h.plainThere.linkFree
  have hnew : ∀ (loc : Location) (node : Node), loc ≠ [] →
      (s.tree.insert loc node).find? loc = some node := by
    intro loc node hloc
    rw [find?_insert hloc, if_pos rfl]
  rw [mergeFile, eval_bind_ok (eval_occupied_of hnode)]
  cases hfound : s.tree.find? (dst ++ [x]) with
  | none =>
    have hopen := overwritable_of_free hfound
    have hcopy := eval_copyFile_join h.here hfits.1 hfile (copyTarget_open h.there hx hopen _)
      h.there hfits.2 hopen (h.apart.ne [x] [x])
    refine ⟨_, eval_then_say hcopy _, deliversAt_file h.proper.toSound hfile fun _ => ?_⟩
    rw [landing_self (.inr (by simp [hfound]))]
    exact hnew _ _ (by simp)
  | some n =>
    cases overwrite with
    | false =>
      refine ⟨_, rfl, deliversAt_file h.proper.toSound hfile fun hwhen => ?_⟩
      rcases hwhen with hover | hfree'
      · cases hover
      · rw [hfree'.1] at hfound
        cases hfound
    | true =>
      obtain ⟨hopen, hshort⟩ := hroom rfl [] bytes readOnly hfile
      by_cases hdir : s.tree.find? (dst ++ [x]) = some .directory
      · have hstat : s.tree.stat s.workDir (join (tidy destination) x) =
            .ok (dst ++ [x], .directory) := by
          rw [h.there.stat_join hfits.2 (h.plainThere.no_link [x]), lookAt, hdir]
        rw [landing, if_pos ⟨by simp, hdir⟩] at hopen hshort
        have hopen' : s.tree.Overwritable (dst ++ [x] ++ [x]) := by simpa using hopen
        have hcopy := eval_copyFile_join h.here hfits.1 hfile (copyTarget_into hstat hx _)
          (h.there.step hx hdir) ⟨hx, hshort⟩ hopen' (by
            rw [append_assoc]
            exact h.apart.ne [x] [x, x])
        refine ⟨_, eval_then_say hcopy _, deliversAt_file h.proper.toSound hfile fun _ => ?_⟩
        rw [landing, if_pos ⟨by simp, hdir⟩]
        simpa using hnew (dst ++ [x] ++ [x]) _ (by simp)
      · rw [landing_self (.inr hdir)] at hopen
        have hcopy := eval_copyFile_join h.here hfits.1 hfile (copyTarget_open h.there hx hopen _)
          h.there hfits.2 hopen (h.apart.ne [x] [x])
        refine ⟨_, eval_then_say hcopy _, deliversAt_file h.proper.toSound hfile fun _ => ?_⟩
        rw [landing_self (.inr hdir)]
        exact hnew _ _ (by simp)

theorem completes (hhere : s.tree.find? (src ++ [x]) = some .directory)
    (hthere : s.tree.find? (dst ++ [x]) = none)
    (hshort : s.tree.Spellable (src ++ [x]) (join (tidy source) x) (join (tidy destination) x)) :
    ∃ s', eval (copyTree (join (tidy source) x) (join (tidy destination) x)) s =
        (.ok (), s') ∧ Complete (src ++ [x]) (dst ++ [x]) s.tree s'.tree := by
  refine completesTrees pathLimit s _ _ x _ _ (h.copying hfits.1.name hhere) ?_ hfits.2 hthere
    (h.apart.append [x] [x]) (.of_short h.proper.toSound hshort)
  rw [h.here.stat_join hfits.1 (h.plainHere.no_link [x]), lookAt, hhere]

theorem delivers_placed (hhere : s.tree.find? (src ++ [x]) = some .directory)
    (hthere : s.tree.find? (dst ++ [x]) ≠ some .directory)
    (hshort : s.tree.Spellable (src ++ [x]) (join (tidy source) x) (join (tidy destination) x)) :
    ∃ s', eval (placeDirectory (join (tidy source) x)
        (join (tidy destination) x) overwrite) s = (.ok (), s') ∧
      DeliversAt overwrite src dst x s.tree s'.tree := by
  have hnode := eval_nodeAt h.there hfits.2 h.plainThere.linkFree
  have hbelow : ∀ p, p ≠ [] → s.tree.find? (dst ++ x :: p) = none := by
    intro p hp
    by_contra hsome
    obtain ⟨n, hn⟩ := Option.ne_none_iff_exists'.mp hsome
    exact hthere (h.proper.directory_above hp (by rwa [append_assoc]))
  rw [placeDirectory, eval_bind_ok (eval_occupied_of hnode)]
  cases hfound : s.tree.find? (dst ++ [x]) with
  | none =>
    obtain ⟨s₁, hcopy, hcomplete⟩ := h.completes hfits hhere hfound hshort
    exact ⟨_, eval_then_say hcopy _, deliversAt_complete hcomplete hbelow hthere⟩
  | some n =>
    obtain ⟨bytes, readOnly, rfl⟩ := h.plainThere.file hfound hthere
    cases overwrite with
    | false =>
      refine ⟨_, rfl, fun p m _ hwhen => ?_⟩
      rcases hwhen with hover | hfree'
      · cases hover
      · exact absurd hfound (hfree'.2 [x] bytes readOnly ⟨p, rfl⟩)
    | true =>
      have herased := h.merged_erase hhere hfound
      have hfree : (s.tree.erase (dst ++ [x])).find? (dst ++ [x]) = none := find?_erase (by simp)
      have hsame : ∀ p, (s.tree.erase (dst ++ [x])).find? (src ++ [x] ++ p) =
          s.tree.find? (src ++ [x] ++ p) :=
        herased.overlay.source (h.apart.append [x] [x]) (append_nil _).symm
      have hstill := hsame []
      rw [append_nil, hhere] at hstill
      obtain ⟨s₁, hcopy, hcomplete⟩ := (h.after herased).completes hfits hstill hfree
        fun p n hp hn => hshort p n hp ((hsame p).symm.trans hn)
      have hclear := eval_clear_join h.there hfits.2 h.plainThere.linkFree hfound
      refine ⟨_, (eval_bind_ok hclear _).trans (eval_then_say hcopy _),
        deliversAt_complete (fun p m hm => ?_) hbelow hthere⟩
      exact hcomplete p m ((hsame p).trans hm)

end

end Merging

def DeliversTrees (overwrite : Bool) (depth : Nat) : Prop :=
  ∀ (s : Session) (source destination : String) (src dst : Location),
    Merging s source destination src dst →
    s.tree.InReach src (tidy source) (tidy destination) depth →
    (overwrite = true → ∀ x, s.tree.RoomAt src dst (tidy destination) x) →
    ∃ s', eval (mergeWithin overwrite depth source destination) s = (.ok (), s') ∧
      ∀ x, DeliversAt overwrite src dst x s.tree s'.tree

namespace Merging

section

variable (h : Merging s source destination src dst) (hdepth : DeliversTrees overwrite depth)
  (hreach : s.tree.InReach src (tidy source) (tidy destination) (depth + 1))
include h hdepth hreach

theorem delivers_entry (hroom : overwrite = true → s.tree.RoomAt src dst (tidy destination) x)
    (hthere : s.tree.find? (src ++ [x]) ≠ none) :
    ∃ s', eval (mergeNamed overwrite depth source destination x) s = (.ok (), s') ∧
      DeliversAt overwrite src dst x s.tree s'.tree := by
  obtain ⟨node, hnode⟩ := Option.ne_none_iff_exists'.mp hthere
  have hx := h.proper.named src x node hnode
  have hfits := hreach.fits hx hnode
  cases node with
  | file bytes readOnly =>
    rw [h.eval_mergeNamed_file hfits hnode]
    exact h.delivers_file hfits hnode hroom
  | directory =>
    rw [h.eval_mergeNamed_directory hfits hnode]
    split
    · next hdir =>
      have hstep := h.step hfits hnode hdir
      obtain ⟨s', hs', hdelivers⟩ := hdepth s _ _ _ _ hstep (by
        rw [tidy_join hx, tidy_join hx]
        exact hreach.step x) fun hover y => by
        rw [tidy_join hx]
        exact (hroom hover).step y
      refine ⟨s', hs', deliversAt_directory hnode ?_ hdelivers⟩
      have hmerged := mergesTrees overwrite depth s _ _ _ _ hstep
      rw [hs'] at hmerged
      exact hmerged.overlay.ways _ _ rfl hdir
    · next hdir => exact h.delivers_placed hfits hnode hdir (hreach.step x).short
  | link | device => cases h.plainHere [x] _ hnode

theorem delivers_each (names : List String) (hnodup : names.Nodup)
    (hroom : overwrite = true → ∀ x ∈ names, s.tree.RoomAt src dst (tidy destination) x)
    (hthere : ∀ x ∈ names, s.tree.find? (src ++ [x]) ≠ none) :
    ∃ s', eval (names.forM (mergeNamed overwrite depth source destination)) s = (.ok (), s') ∧
      (∀ x ∈ names, DeliversAt overwrite src dst x s.tree s'.tree) ∧
      ∀ l, (∀ x ∈ names, ¬ dst ++ [x] <+: l) → s'.tree.find? l = s.tree.find? l := by
  induction names generalizing s with
  | nil => exact ⟨s, rfl, by simp, fun _ _ => rfl⟩
  | cons x names ih =>
    rw [nodup_cons] at hnodup
    obtain ⟨s₁, hs₁, hfirst⟩ := h.delivers_entry hdepth hreach
      (fun hover => hroom hover x (by simp)) (hthere x (by simp))
    obtain ⟨n, hn⟩ := Option.ne_none_iff_exists'.mp (hthere x (by simp))
    have hmerged := h.merged_entry (mergesTrees overwrite depth) (h.proper.named src x n hn)
    rw [hs₁] at hmerged
    have hsrc : ∀ p, s₁.tree.find? (src ++ p) = s.tree.find? (src ++ p) :=
      hmerged.overlay.source h.apart rfl
    -- What stands under the other names is still as it was.
    have hdst : ∀ y ∈ names, ∀ q p, q <+: y :: p →
        s₁.tree.find? (dst ++ q) = s.tree.find? (dst ++ q) := by
      intro y hy q p hpre
      refine hmerged.overlay.outside _ fun hbelow => hnodup.1 ?_
      have hfront : [x] <+: y :: p := ((prefix_append_right_inj dst).mp hbelow).trans hpre
      obtain rfl : x = y := (cons_prefix_cons.mp hfront).1
      exact hy
    obtain ⟨s', hs', hothers, hrest⟩ := ih (h.after hmerged) (hreach.congr hsrc) hnodup.2
      (fun hover y hy => (hroom hover y (by simp [hy])).congr hsrc (hdst y hy))
      fun y hy => by
        rw [hsrc]
        exact hthere y (by simp [hy])
    refine ⟨s', (eval_bind_ok hs₁ _).trans hs', fun y hy => ?_, fun l hl => ?_⟩
    · rcases mem_cons.mp hy with rfl | hy
      · refine hfirst.keep fun q => hrest _ fun z hz hpre => hnodup.1 ?_
        obtain rfl : z = y := (cons_prefix_cons.mp ((prefix_append_right_inj dst).mp hpre)).1
        exact hz
      · exact (hothers y hy).congr hsrc (hdst y hy)
    · rw [hrest l fun y hy => hl y (by simp [hy]), hmerged.overlay.outside l (hl x (by simp))]

end

end Merging

theorem deliversTrees (overwrite : Bool) (depth : Nat) : DeliversTrees overwrite depth := by
  induction depth with
  | zero =>
    intro s source destination src dst h hreach _
    exact absurd (hreach.shallow [] .directory (by simpa using h.here.directory)) (by simp)
  | succ depth ih =>
    intro s source destination src dst h hreach hroom
    obtain ⟨line, hrun⟩ := h.eval_mergeWithin overwrite depth
    obtain ⟨s', hs', hall, -⟩ := h.delivers_each ih hreach _ (nodup_names h.proper src)
      (fun hover x _ => hroom hover x) fun x hx => mem_names.mp hx
    rw [hrun]
    refine ⟨_, eval_then_say hs' line, fun x p m hm => hall x (mem_names.mpr ?_) p m hm⟩
    by_cases hp : p = []
    · rw [hp] at hm
      simp [hm]
    · rw [h.proper.directory_above hp (by rwa [append_assoc])]
      simp

theorem Merging.unblocked_of_new (h : Merging s source destination src dst) {t' : FileTree}
    (hgraft : Grafts src dst s.tree t') {p : List String} {n : Node}
    (hnew : t'.find? (dst ++ p) = some n) (hfree : s.tree.find? (dst ++ p) = none) :
    s.tree.Unblocked dst p := by
  refine ⟨hfree, fun q bytes readOnly hpre hfile => ?_⟩
  obtain ⟨r, rfl⟩ := hpre
  have hkept := hgraft.kept _ _ hfile
  by_cases hr : r = []
  · rw [hr, append_nil, hfile] at hfree
    cases hfree
  · rw [← append_assoc] at hnew
    rw [(hgraft.proper h.proper).directory_above hr hnew] at hkept
    cases hkept

/-- A merge that does not overwrite keeps everything and changes nothing outside the destination,
however it ends. It ends well where no path is too long. Then the destination has gained copies of
exactly those nodes of the source for which it had nothing, and no file above. -/
theorem mergeDirectories_additive (h : Merging s source destination src dst) :
    ∃ r s', eval (mergeDirectories source destination false) s = (r, s') ∧
      (∀ l n, s.tree.find? l = some n → s'.tree.find? l = some n) ∧
      (∀ l, ¬ dst <+: l → s'.tree.find? l = s.tree.find? l) ∧
      (∀ p n, s'.tree.find? (dst ++ p) = some n → s.tree.find? (dst ++ p) = some n ∨
        s.tree.Unblocked dst p ∧ s.tree.find? (src ++ p) = some n) ∧
      (s.tree.Spellable src (Path.tidy source) (Path.tidy destination) → r = .ok () ∧
        ∀ p n, s'.tree.find? (dst ++ p) = some n ↔ s.tree.find? (dst ++ p) = some n ∨
          s.tree.Unblocked dst p ∧ s.tree.find? (src ++ p) = some n) := by
  rcases hrun : eval (mergeDirectories source destination false) s with ⟨r, s'⟩
  have hgraft := (mergesTrees false pathLimit s _ _ _ _ h).additive rfl
  rw [← mergeDirectories, hrun] at hgraft
  have hnew : ∀ p n, s'.tree.find? (dst ++ p) = some n → s.tree.find? (dst ++ p) = some n ∨
      s.tree.Unblocked dst p ∧ s.tree.find? (src ++ p) = some n := by
    intro p n hn
    cases hold : s.tree.find? (dst ++ p) with
    | some n' => exact .inl ((hgraft.kept _ _ hold).symm.trans hn)
    | none =>
      refine .inr ⟨h.unblocked_of_new hgraft hn hold, ?_⟩
      rcases hgraft.copies _ n hn with hn | ⟨-, p', heq, hcopied⟩
      · rw [hold] at hn
        cases hn
      · rw [← List.append_cancel_left heq] at hcopied
        rwa [hgraft.apart h.apart (List.append_nil dst).symm] at hcopied
  refine ⟨r, s', rfl, hgraft.kept, fun l hl => hgraft.outside hl, hnew, fun hshort => ?_⟩
  obtain ⟨s'', hs'', hall⟩ := deliversTrees false pathLimit s _ _ _ _ h
    (.of_short h.proper.toSound hshort) (fun hover => by cases hover)
  obtain ⟨rfl, rfl⟩ := Prod.mk.inj (hrun.symm.trans hs'')
  refine ⟨rfl, fun p n => ⟨hnew p n, ?_⟩⟩
  rintro (hold | ⟨hopen, hn⟩)
  · exact hgraft.kept _ _ hold
  · cases p with
    | nil =>
      rw [Unblocked, List.append_nil, h.there.directory] at hopen
      cases hopen.1
    | cons x p =>
      have hdelivered := hall x p n hn (.inr hopen)
      rwa [landing_self (.inr (by simp [hopen.1]))] at hdelivered

def twoShelves : Session where
  tree := ⟨[(["w"], .directory), (["w", "s"], .directory), (["w", "s", "a"], .file [1] false),
    (["w", "s", "b"], .directory), (["w", "s", "b", "c"], .file [2] true),
    (["w", "s", "e"], .directory), (["w", "s", "e", "f"], .file [3] false),
    (["w", "d"], .directory), (["w", "d", "a"], .file [4] false), (["w", "d", "b"], .directory),
    (["w", "d", "e"], .file [5] false), (["w", "d", "k"], .file [6] true)]⟩
  workDir := ["w"]

theorem merging_twoShelves : Merging twoShelves "s" "d" ["w", "s"] ["w", "d"] where
  proper := ⟨sound_of_entries (by decide +kernel), by decide +kernel⟩
  here := ⟨by decide +kernel, by decide +kernel, by decide +kernel⟩
  there := ⟨by decide +kernel, by decide +kernel, by decide +kernel⟩
  shortHere := by decide +kernel
  shortThere := by decide +kernel
  plainHere := plain_of_entries (by decide +kernel) _
  plainThere := plain_of_entries (by decide +kernel) _
  apart := ⟨by decide, by decide⟩

theorem spellable_twoShelves : twoShelves.tree.Spellable ["w", "s"] (tidy "s") (tidy "d") :=
  spellable_of_entries (by decide +kernel)

/-- The first file is there already, the second is new and stays locked, and a file is in the way of
the third. -/
theorem mergeDirectories_additive_shelves :
    ∃ s', eval (mergeDirectories "s" "d" false) twoShelves = (.ok (), s') ∧
      s'.tree.find? ["w", "d", "a"] = some (.file [4] false) ∧
      s'.tree.find? ["w", "d", "b", "c"] = some (.file [2] true) ∧
      s'.tree.find? ["w", "d", "e", "f"] = none := by
  obtain ⟨r, s', hrun, hkept, -, -, hends⟩ := mergeDirectories_additive merging_twoShelves
  obtain ⟨rfl, hadds⟩ := hends spellable_twoShelves
  refine ⟨s', hrun, hkept _ _ (by decide +kernel), ?_, ?_⟩
  · have hways : ∀ q ∈ ["b", "c"].inits,
        (twoShelves.tree.find? (["w", "d"] ++ q)).all (· = .directory) = true := by decide +kernel
    refine (hadds ["b", "c"] _).mpr (.inr ⟨⟨by decide +kernel, ?_⟩, by decide +kernel⟩)
    intro q bytes readOnly hpre hfile
    have hway := hways q ((List.mem_inits q _).mpr hpre)
    rw [hfile] at hway
    cases hway
  · by_contra hsome
    obtain ⟨n, hn⟩ := Option.ne_none_iff_exists'.mp hsome
    rcases (hadds ["e", "f"] n).mp hn with hold | ⟨hopen, -⟩
    · have hnone : twoShelves.tree.find? ["w", "d", "e", "f"] = none := by decide +kernel
      cases hnone.symm.trans hold
    · exact hopen.2 ["e"] [5] false ⟨["f"], rfl⟩ (by decide +kernel)

/-- A merge that ends well has met no locked file in the place of a file. -/
def MeetsUnlocked (depth : Nat) : Prop :=
  ∀ (s s' : Session) (source destination : String) (src dst : Location),
    Merging s source destination src dst →
    s.tree.InReach src (tidy source) (tidy destination) depth →
    eval (mergeWithin true depth source destination) s = (.ok (), s') →
    ∀ p bytes readOnly content, s.tree.find? (src ++ p) = some (.file bytes readOnly) →
      s.tree.find? (dst ++ p) ≠ some (.file content true)

namespace Merging

variable {s' : Session} {p : List String} {content : List UInt8}

theorem copyFile_unlocked (h : Merging s source destination src dst) (hx : IsName x)
    (hfits : Fits (tidy destination) x)
    (hrun : eval (copyFile (join (tidy source) x) (join (tidy destination) x)) s = (.ok (), s')) :
    s.tree.find? (dst ++ [x]) ≠ some (.file content true) := by
  intro hlocked
  have htarget : copyTarget s (join (tidy source) x) (join (tidy destination) x) =
      join (tidy destination) x := by
    refine if_neg fun hdir => ?_
    obtain ⟨loc, hstat⟩ := isDirectory_iff.mp hdir
    rw [h.there.stat_file hfits hlocked] at hstat
    cases hstat
  rcases copyFile_join_cases h.here hx (h.plainHere [x]) htarget h.there hx (h.plainThere [x]) with
    ⟨stop, hstop⟩ | ⟨-, -, -, -, hopen⟩
  · cases hstop.symm.trans hrun
  · obtain ⟨old, hold⟩ := hopen _ hlocked
    cases hold

section

variable (h : Merging s source destination src dst) (hdepth : MeetsUnlocked depth)
  (hreach : s.tree.InReach src (tidy source) (tidy destination) (depth + 1))
include h hdepth hreach

theorem entry_unlocked
    (hrun : eval (mergeNamed true depth source destination x) s = (.ok (), s'))
    (hfile : s.tree.find? (src ++ x :: p) = some (.file bytes readOnly)) :
    s.tree.find? (dst ++ x :: p) ≠ some (.file content true) := by
  intro hlocked
  have hx : IsName x := h.proper.names_of hfile x (by simp)
  cases p with
  | nil =>
    have hfits := hreach.fits hx hfile
    have hthere := eval_nodeAt h.there hfits.2 h.plainThere.linkFree
    rw [h.eval_mergeNamed_file hfits hfile, mergeFile, eval_bind_ok (eval_occupied_of hthere),
      hlocked] at hrun
    obtain ⟨_, s₁, hcopy, -⟩ := of_eval_bind hrun
    exact h.copyFile_unlocked hx hfits.2 hcopy hlocked
  | cons y p =>
    rw [← singleton_append, ← append_assoc] at hfile hlocked
    have hdir := h.proper.directory_above (cons_ne_nil y p) hfile
    have hdir' := h.proper.directory_above (cons_ne_nil y p) hlocked
    have hfits := hreach.fits hx hdir
    rw [h.eval_mergeNamed_directory hfits hdir, if_pos hdir'] at hrun
    refine hdepth s s' _ _ _ _ (h.step hfits hdir hdir') ?_ hrun _ _ _ _ hfile hlocked
    rw [tidy_join hx, tidy_join hx]
    exact hreach.step x

theorem each_unlocked (names : List String) (hnodup : names.Nodup)
    (hthere : ∀ y ∈ names, s.tree.find? (src ++ [y]) ≠ none)
    (hrun : eval (names.forM (mergeNamed true depth source destination)) s = (.ok (), s'))
    (hx : x ∈ names)
    (hfile : s.tree.find? (src ++ x :: p) = some (.file bytes readOnly)) :
    s.tree.find? (dst ++ x :: p) ≠ some (.file content true) := by
  induction names generalizing s with
  | nil => cases hx
  | cons y names ih =>
    rw [nodup_cons] at hnodup
    obtain ⟨_, s₁, hfirst, hrest⟩ := of_eval_bind hrun
    rcases mem_cons.mp hx with rfl | hmem
    · exact h.entry_unlocked hdepth hreach hfirst hfile
    obtain ⟨n, hn⟩ := Option.ne_none_iff_exists'.mp (hthere y (by simp))
    have hmerged := h.merged_entry (mergesTrees true depth) (h.proper.named src y n hn)
    rw [hfirst] at hmerged
    have hsrc : ∀ q, s₁.tree.find? (src ++ q) = s.tree.find? (src ++ q) :=
      hmerged.overlay.source h.apart rfl
    -- The step for another name leaves both places as they are.
    have hdst : s₁.tree.find? (dst ++ x :: p) = s.tree.find? (dst ++ x :: p) := by
      refine hmerged.overlay.outside _ fun hbelow => hnodup.1 ?_
      obtain rfl : y = x := (cons_prefix_cons.mp ((prefix_append_right_inj dst).mp hbelow)).1
      exact hmem
    rw [← hdst]
    refine ih (h.after hmerged) (hreach.congr hsrc) hnodup.2 (fun z hz => ?_) hrest hmem ?_
    · rw [hsrc]
      exact hthere z (by simp [hz])
    · rwa [hsrc]

end

end Merging

theorem meetsUnlocked (depth : Nat) : MeetsUnlocked depth := by
  induction depth with
  | zero =>
    intro s s' source destination src dst h hreach _
    exact absurd (hreach.shallow [] .directory (by simpa using h.here.directory)) (by simp)
  | succ depth ih =>
    intro s s' source destination src dst h hreach hrun p bytes readOnly content hfile
    obtain ⟨line, hmerge⟩ := h.eval_mergeWithin true depth
    rw [hmerge] at hrun
    obtain ⟨_, s₁, heach, -⟩ := of_eval_bind hrun
    cases p with
    | nil =>
      rw [append_nil, h.here.directory] at hfile
      cases hfile
    | cons x p =>
      refine h.each_unlocked ih hreach _ (nodup_names h.proper src) (fun y hy => mem_names.mp hy)
        heach (mem_names.mpr ?_) hfile
      by_cases hp : p = []
      · rw [hp] at hfile
        simp [hfile]
      · rw [h.proper.directory_above hp (by rwa [append_assoc])]
        simp

/-- A merge that overwrites changes nothing outside the destination, and in it nothing that stands
where the source has nothing and that is not below a file of the source. Where no path is too long,
it ends well with every file of the source in its place if and only if the destination had at most
files there that can be written to. A file that met a directory is in that directory under its
name. -/
theorem mergeDirectories_delivers_iff (h : Merging s source destination src dst) :
    ∃ r s', eval (mergeDirectories source destination true) s = (r, s') ∧
      (∀ l, ¬ dst <+: l → s'.tree.find? l = s.tree.find? l) ∧
      (∀ p, s.tree.find? (src ++ p) = none →
        (∀ q bytes readOnly, q <+: p → s.tree.find? (src ++ q) ≠ some (.file bytes readOnly)) →
        s'.tree.find? (dst ++ p) = s.tree.find? (dst ++ p)) ∧
      (s.tree.Spellable src (Path.tidy source) (Path.tidy destination) →
        ((r = .ok () ∧ ∀ p bytes readOnly, s.tree.find? (src ++ p) = some (.file bytes readOnly) →
            s'.tree.find? (dst ++ p) = some (.file bytes readOnly)) ↔
          ∀ p bytes readOnly n, s.tree.find? (src ++ p) = some (.file bytes readOnly) →
            s.tree.find? (dst ++ p) = some n → ∃ content, n = .file content false) ∧
        ((∀ x, s.tree.RoomAt src dst (Path.tidy destination) x) → r = .ok () ∧
          ∀ p bytes readOnly, s.tree.find? (src ++ p) = some (.file bytes readOnly) →
            s'.tree.find? (dst ++ landing s.tree dst (.file bytes readOnly) p) =
              some (.file bytes readOnly))) := by
  rcases hrun : eval (mergeDirectories source destination true) s with ⟨r, s'⟩
  have hover := (mergesTrees true pathLimit s _ _ _ _ h).overlay
  rw [← mergeDirectories, hrun] at hover
  refine ⟨r, s', rfl, hover.outside, hover.untouched, fun hshort => ?_⟩
  have hlands : (∀ x, s.tree.RoomAt src dst (Path.tidy destination) x) → r = .ok () ∧
      ∀ p bytes readOnly, s.tree.find? (src ++ p) = some (.file bytes readOnly) →
        s'.tree.find? (dst ++ landing s.tree dst (.file bytes readOnly) p) =
          some (.file bytes readOnly) := by
    intro hroom
    obtain ⟨s'', hs'', hall⟩ := deliversTrees true pathLimit s _ _ _ _ h
      (.of_short h.proper.toSound hshort) fun _ => hroom
    obtain ⟨rfl, rfl⟩ := Prod.mk.inj (hrun.symm.trans hs'')
    refine ⟨rfl, fun p bytes readOnly hfile => ?_⟩
    cases p with
    | nil =>
      rw [List.append_nil, h.here.directory] at hfile
      cases hfile
    | cons x p => exact hall x p _ hfile (.inl rfl)
  refine ⟨⟨?_, fun hclear => ?_⟩, hlands⟩
  · rintro ⟨rfl, hdelivered⟩ p bytes readOnly n hfile hn
    cases n with
    | file content locked =>
      cases locked with
      | false => exact ⟨content, rfl⟩
      | true =>
        exact absurd hn (meetsUnlocked pathLimit s s' _ _ _ _ h (.of_short h.proper.toSound hshort)
          hrun p bytes readOnly content hfile)
    | directory =>
      have hthere := hdelivered p bytes readOnly hfile
      exact absurd ((hover.ways _ _ rfl hn).symm.trans hthere) (by simp)
    | link | device => cases h.plainThere p _ hn
  · obtain ⟨hends, hplaced⟩ := hlands (roomAt_of_clear hclear hshort)
    refine ⟨hends, fun p bytes readOnly hfile => ?_⟩
    have hthere := hplaced p bytes readOnly hfile
    rwa [landing_of_clear hclear hfile] at hthere

/-- A file replaces a file, and a directory replaces another. -/
theorem mergeDirectories_delivers_iff_shelves :
    ∃ s', eval (mergeDirectories "s" "d" true) twoShelves = (.ok (), s') ∧
      s'.tree.find? ["w", "d", "a"] = some (.file [1] false) ∧
      s'.tree.find? ["w", "d", "e", "f"] = some (.file [3] false) ∧
      s'.tree.find? ["w", "d", "k"] = some (.file [6] true) := by
  obtain ⟨r, s', hrun, -, huntouched, hends⟩ := mergeDirectories_delivers_iff merging_twoShelves
  obtain ⟨hdelivers, -⟩ := hends spellable_twoShelves
  have hfiles : ∀ e ∈ twoShelves.tree.entries, ["w", "s"] <+: e.1 → e.2 ≠ .directory →
      (twoShelves.tree.find? (["w", "d"] ++ e.1.drop 2)).all (· = .file [4] false) = true := by
    decide +kernel
  have hclear : ∀ p bytes readOnly n,
      twoShelves.tree.find? (["w", "s"] ++ p) = some (.file bytes readOnly) →
        twoShelves.tree.find? (["w", "d"] ++ p) = some n → ∃ content, n = .file content false := by
    intro p bytes readOnly n hfile hn
    have hopen : (twoShelves.tree.find? (["w", "d"] ++ p)).all (· = .file [4] false) = true :=
      hfiles _ (mem_entries (by simp) hfile) (List.prefix_append _ _) (by simp)
    rw [hn] at hopen
    exact ⟨[4], by simpa using hopen⟩
  have hroots : ∀ q ∈ ["k"].inits,
      (twoShelves.tree.find? (["w", "s"] ++ q)).all (· = .directory) = true := by decide +kernel
  obtain ⟨rfl, hplaced⟩ := hdelivers.mpr hclear
  refine ⟨s', hrun, hplaced ["a"] [1] false (by decide +kernel),
    hplaced ["e", "f"] [3] false (by decide +kernel), ?_⟩
  refine (huntouched ["k"] (by decide +kernel) fun q bytes readOnly hpre hfile => ?_).trans
    (by decide +kernel)
  have hroot := hroots q ((List.mem_inits q _).mpr hpre)
  rw [hfile] at hroot
  cases hroot

def fileAgainstDirectory : Session where
  tree := ⟨[(["w"], .directory), (["w", "s"], .directory), (["w", "s", "a"], .file [1] false),
    (["w", "d"], .directory), (["w", "d", "a"], .directory),
    (["w", "d", "a", "b"], .file [2] false)]⟩
  workDir := ["w"]

/-- The file is not in its place afterwards, though the merge ends well. -/
theorem mergeDirectories_into_directory :
    (eval (mergeDirectories "s" "d" true) fileAgainstDirectory).1.toOption = some () ∧
      (eval (mergeDirectories "s" "d" true) fileAgainstDirectory).2.tree.find? ["w", "d", "a"] =
        some .directory ∧
      (eval (mergeDirectories "s" "d" true) fileAgainstDirectory).2.tree.find?
        ["w", "d", "a", "a"] = some (.file [1] false) := by
  refine ⟨?_, ?_, ?_⟩ <;> decide +kernel

end Workspace
end SceneText
