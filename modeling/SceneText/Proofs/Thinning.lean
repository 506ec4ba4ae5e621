import SceneText.Proofs.RegularTrees
import SceneText.Proofs.Rewriting

/-!
# Taking away and making directories

In a tree of files and directories, what is in the way of a copy goes with everything below it, and
directories that are missing are made. Every other file stays as it was, whether all of this can be
carried out or not.
-/

namespace SceneText

namespace Run

open FileTree

variable {s s' s'' : Session} {lost : Location → Prop} {path : String} {existing : Bool}
  {loc : Location}

structure Furnished (s s' : Session) : Prop where
  place : s'.workDir = s.workDir
  regular : s'.tree.Regular
  kept : ∀ l n, s.tree.find? l = some n → s'.tree.find? l = some n
  files : ∀ l bytes readOnly, s'.tree.find? l = some (.file bytes readOnly) →
    s.tree.find? l = some (.file bytes readOnly)

namespace Furnished

theorem refl (h : s.tree.Regular) : Furnished s s :=
  ⟨rfl, h, fun _ _ hl => hl, fun _ _ _ hl => hl⟩

theorem trans (h : Furnished s s') (h' : Furnished s' s'') : Furnished s s'' :=
  ⟨h'.place.trans h.place, h'.regular, fun l n hl => h'.kept l n (h.kept l n hl),
    fun l bytes readOnly hl => h.files l bytes readOnly (h'.files l bytes readOnly hl)⟩

theorem toExtends (h : Furnished s s') : Extends s.tree s'.tree :=
  ⟨fun l n _ hl => h.kept l n hl, fun l target hl => absurd hl (h.regular.not_link l target)⟩

theorem insert {dir : Location} {x : String} (h : s.tree.Regular)
    (hdir : s.tree.find? dir = some .directory) (hx : IsName x)
    (hnone : s.tree.find? (dir ++ [x]) = none) :
    Furnished s { s with tree := s.tree.insert (dir ++ [x]) .directory } := by
  refine ⟨rfl, h.insert hdir hx (by simp [hnone]) rfl, fun l n hl => ?_,
    fun l bytes readOnly hl => ?_⟩
  · rw [find?_insert (by simp), if_neg, hl]
    rintro rfl
    rw [hnone] at hl
    cases hl
  · rw [find?_insert (by simp)] at hl
    split at hl
    · cases hl
    · exact hl

end Furnished

section

variable (h : s.tree.Regular)
include h

theorem furnished_change (path : String) :
    Furnished s (eval (change path fun tree dir => tree.makeDirectory dir path) s).2 := by
  rcases change_cases path (fun tree dir => tree.makeDirectory dir path) s with
    ⟨stop, hstop⟩ | ⟨tree, hplain, hmade, hdone⟩
  · rw [hstop]
    exact .refl h
  · obtain ⟨top, x, dir, -, hleads, hx, hnone, rfl⟩ := h.makeDirectory_ok hplain hmade
    rw [hdone]
    exact .insert h hleads.directory hx.name hnone

theorem furnished_makeDirectory (path : String) :
    Furnished s (eval (makeDirectory existing path) s).2 := by
  refine after_bind ?_ fun made s₁ _ hs₁ => ?_
  · rw [eval_attempt_snd]
    exact furnished_change h path
  · cases made with
    | ok _ => exact hs₁
    | error fault =>
      refine after_bind hs₁ fun there s₂ _ hs₂ => ?_
      cases existing <;> cases there <;> exact hs₂

theorem furnished_makeDirectoriesWithin (depth : Nat) (path : String) :
    Furnished s (eval (makeDirectoriesWithin existing depth path) s).2 := by
  induction depth generalizing path s with
  | zero => exact furnished_makeDirectory h path
  | succ depth ih =>
    rw [makeDirectoriesWithin]
    rcases splitForMaking path with ⟨head, tail⟩
    dsimp only
    refine after_bind (.refl h) fun there s₁ _ hs₁ => ?_
    split
    · refine after_bind ?_ fun above s₂ _ hs₂ => ?_
      · rw [eval_attempt_snd]
        exact hs₁.trans (ih hs₁.regular head)
      · have hrest : Furnished s
            (eval (if tail = "." then pure () else makeDirectory existing path) s₂).2 := by
          split
          · exact hs₂
          · exact hs₂.trans (furnished_makeDirectory hs₂.regular path)
        split
        · exact hrest
        · exact hrest
        · exact hs₂
    · exact hs₁.trans (furnished_makeDirectory hs₁.regular path)

theorem furnished_makeCleanWithin (depth : Nat) (p : Path.Clean) :
    Furnished s (eval (makeCleanWithin depth p) s).2 := by
  induction depth generalizing p s with
  | zero => exact furnished_makeDirectory h p.toText
  | succ depth ih =>
    refine after_bind ?_ fun made s₁ _ hs₁ => ?_
    · rw [eval_attempt_snd]
      exact furnished_makeDirectory h p.toText
    · split
      · exact hs₁
      · split
        · exact hs₁
        · exact after_bind (hs₁.trans (ih hs₁.regular p.parent)) fun _ _ _ hs₂ =>
            hs₂.trans (furnished_makeDirectory hs₂.regular p.toText)
      · exact hs₁

theorem furnished_makeClean (p : Path.Clean) : Furnished s (eval (makeClean p) s).2 :=
  furnished_makeCleanWithin h p.parts.length p

end

theorem makeDirectory_new (h : eval (makeDirectory false path) s = (.ok (), s')) :
    ∃ tree, '\x00' ∉ path.toList ∧ s.tree.makeDirectory s.workDir path = .ok tree ∧
      s' = { s with tree := tree } := by
  obtain ⟨made, s₁, hmade, hrest⟩ := of_eval_bind h
  rcases change_cases path (fun tree dir => tree.makeDirectory dir path) s with
    ⟨stop, hstop⟩ | ⟨tree, hplain, htree, hdone⟩
  · cases made with
    | ok _ =>
      rw [eval_attempt, hstop] at hmade
      split at hmade <;> cases hmade
      next heq => cases heq
    | error fault =>
      obtain ⟨there, s₂, -, hfail⟩ := of_eval_bind hrest
      cases hfail
  · rw [eval_attempt, hdone] at hmade
    cases hmade
    exact ⟨tree, hplain, htree, (Prod.mk.inj hrest).2.symm⟩

theorem makeDirectoriesWithin_new (h : s.tree.Regular) {depth : Nat}
    (hdot : ∀ head, splitForMaking path = (head, ".") → head = "")
    (hrun : eval (makeDirectoriesWithin false depth path) s = (.ok (), s')) :
    ∃ s₀, Furnished s s₀ ∧ eval (makeDirectory false path) s₀ = (.ok (), s') := by
  cases depth with
  | zero => exact ⟨s, .refl h, hrun⟩
  | succ depth =>
    rw [makeDirectoriesWithin] at hrun
    rcases hsplit : splitForMaking path with ⟨head, tail⟩
    rw [hsplit] at hrun
    obtain ⟨there, s₁, hthere, hrun⟩ := of_eval_bind hrun
    obtain rfl : s = s₁ := (Prod.mk.inj hthere).2
    split at hrun
    · next hcond =>
      obtain ⟨above, s₂, habove, hrun⟩ := of_eval_bind hrun
      have hfurnished : Furnished s s₂ := by
        have hsteps := @furnished_makeDirectoriesWithin s false h depth head
        rwa [← eval_attempt_snd, habove] at hsteps
      -- Only a path that ends in a dot could be taken for made without being made.
      have htail : tail ≠ "." := by
        rintro rfl
        simp [hdot head hsplit] at hcond
      refine ⟨s₂, hfurnished, ?_⟩
      simp only [if_neg htail] at hrun
      split at hrun
      · exact hrun
      · exact hrun
      · cases hrun
    · exact ⟨s, .refl h, hrun⟩

theorem makeDirectories_new (h : s.tree.Regular) {p : Path.Clean} (hp : p.IsClean)
    (hrun : eval (makeDirectories false p.toText) s = (.ok (), s')) :
    ∃ loc, Furnished s s' ∧ s'.tree.Leads s'.workDir p.toText loc ∧
      ∀ y, s'.tree.find? (loc ++ [y]) = none := by
  have hdot : ∀ head, splitForMaking p.toText = (head, ".") → head = "" := by
    intro head hsplit
    rw [Path.Clean.toText_eq hp] at hsplit
    split at hsplit
    · exact (Prod.mk.inj (show ("", ".") = (head, ".") from hsplit)).1.symm
    · obtain ⟨hparts, -⟩ := splitForMaking_parts hsplit (by decide)
      rw [Path.Clean.filledParts_spelled hp] at hparts
      exact absurd rfl (hp.parts "." (by simp [hparts])).notDot
  obtain ⟨s₀, hs₀, hmade⟩ := makeDirectoriesWithin_new h hdot hrun
  obtain ⟨tree, hplain, htree, rfl⟩ := makeDirectory_new hmade
  obtain ⟨top, x, dir, hpath, hleads, hx, hnone, rfl⟩ := hs₀.regular.makeDirectory_ok hplain htree
  have hlast : Furnished s₀ { s₀ with tree := s₀.tree.insert (dir ++ [x]) .directory } :=
    .insert hs₀.regular hleads.directory hx.name hnone
  refine ⟨dir ++ [x], hs₀.trans hlast, ?_, fun y => ?_⟩
  · rw [← withoutTrailingSlash_toText hp, hpath]
    exact (hleads.extend hlast.toExtends).step hx.name (by rw [find?_insert (by simp), if_pos rfl])
  · rw [find?_insert (by simp), if_neg (by simp)]
    exact hs₀.regular.none_below hnone [y]

structure Thinned (lost : Location → Prop) (s s' : Session) : Prop where
  place : s'.workDir = s.workDir
  regular : s'.tree.Regular
  kept : ∀ l n, s.tree.find? l = some n → ¬ lost l → s'.tree.find? l = some n
  files : ∀ l bytes readOnly, s'.tree.find? l = some (.file bytes readOnly) →
    s.tree.find? l = some (.file bytes readOnly) ∧ ¬ lost l

namespace Thinned

theorem refl (h : s.tree.Regular) (hlost : ∀ l, ¬ lost l) : Thinned lost s s :=
  ⟨rfl, h, fun _ _ hl _ => hl, fun l _ _ hl => ⟨hl, hlost l⟩⟩

theorem furnish (h : Thinned lost s s') (h' : Furnished s' s'') : Thinned lost s s'' :=
  ⟨h'.place.trans h.place, h'.regular, fun l n hl hno => h'.kept l n (h.kept l n hl hno),
    fun l bytes readOnly hl => h.files l bytes readOnly (h'.files l bytes readOnly hl)⟩

theorem say (h : Thinned lost s s') (line : String) : Thinned lost s (eval (say line) s').2 :=
  ⟨h.place, h.regular, h.kept, h.files⟩

theorem of_pruned (h : s.tree.Regular) (hpruned : Pruned loc s.tree s'.tree)
    (hplace : s'.workDir = s.workDir) (hlost : ∀ l, lost l ↔ loc <+: l) : Thinned lost s s' := by
  refine ⟨hplace, ⟨hpruned.proper, fun p n hn => h.plain p n (hpruned.less _ n hn)⟩,
    fun l n hl hno => ?_, fun l bytes readOnly hl => ⟨hpruned.less l _ hl, fun hin => ?_⟩⟩
  · rw [hpruned.apart l (mt (hlost l).mpr hno), hl]
  · cases hpruned.bare l _ ((hlost l).mp hin) hl

end Thinned

theorem pruned_clear (h : s.tree.Regular) {node : Node}
    (hstat : s.tree.stat s.workDir path = .ok (loc, node)) :
    Pruned loc s.tree (eval (Workspace.clear path) s).2.tree ∧
      (eval (Workspace.clear path) s).2.workDir = s.workDir := by
  obtain ⟨hlocate, hnode⟩ := stat_ok.mp hstat
  cases node with
  | file bytes readOnly =>
    obtain ⟨top, x, dir, rfl, hleads, hx, rfl, hfile⟩ := h.file_join hstat
    rw [eval_clear_join hleads hx (fun y => h.not_link (dir ++ [y])) hfile]
    exact ⟨pruned_erase h.toProper hfile (by simp), rfl⟩
  | directory =>
    have hlook : s.tree.linkStat s.workDir path = .ok (loc, .directory) := by
      rw [linkStat, h.locate_any hlocate false]
      dsimp only
      rw [hnode]
    have hholds : eval (holdsFile path) s = (.ok false, s) := by
      rw [holdsFile, eval_bind_ok (eval_nodeAt_ok hstat)]
      rfl
    rw [Workspace.clear, eval_bind_ok hholds]
    change Pruned loc s.tree (eval (removeTree path) s).2.tree ∧
      (eval (removeTree path) s).2.workDir = s.workDir
    have hemptied := pruned_eraseBelow h.toProper hnode
    rw [removeTree, eval_bind_ok (eval_checkPath (h.stat_plain hstat) s),
      eval_bind_ok (show eval (get : Run Session) s = (.ok s, s) from rfl), hlook]
    dsimp only
    split
    · exact ⟨hemptied, rfl⟩
    · split
      · refine after_bind (P := fun s' => Pruned loc s.tree s'.tree ∧ s'.workDir = s.workDir)
          ⟨hemptied, rfl⟩ fun _ s₁ _ hs₁ => ?_
        split <;> exact hs₁
      · exact ⟨pruned_eraseAll h.toProper loc, rfl⟩
  | link target => exact absurd hnode (h.not_link loc target)
  | device => cases h.plain loc _ hnode

end Run
end SceneText
