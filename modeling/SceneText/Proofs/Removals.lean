import SceneText.Proofs.Copying

/-!
# What is taken away

Taking a file or a directory away leaves everything else as it is, and the tree proper.
-/

namespace SceneText

open List SceneText.Path

variable {node : Node}

namespace FileTree

variable {t : FileTree} {loc l : Location} {keep : Location → Bool}

theorem lookup_filter (entries : List (Location × Node)) (l : Location) :
    (entries.filter fun e => keep e.1).lookup l = if keep l then entries.lookup l else none := by
  induction entries with
  | nil => simp
  | cons e entries ih =>
    obtain ⟨k, n⟩ := e
    rw [filter_cons]
    by_cases hkl : l = k
    · subst hkl
      cases hkeep : keep l with
      | true => simp
      | false => simpa [hkeep] using ih
    · have hskip : ∀ rest, ((k, n) :: rest).lookup l = rest.lookup l := by
        intro rest
        rw [lookup_cons, beq_false_of_ne hkl]
      rw [hskip, ← ih]
      split
      · exact hskip _
      · rfl

theorem find?_filter (t : FileTree) (l : Location) :
    FileTree.find? ⟨t.entries.filter fun e => keep e.1⟩ l =
      if l = [] ∨ keep l then t.find? l else none := by
  by_cases hl : l = []
  · simp [find?, hl]
  · have hroot : ¬ l.isEmpty = true := by simpa using hl
    rw [find?, if_neg hroot, lookup_filter, find?, if_neg hroot]
    simp [hl]

theorem Proper.filter (h : t.Proper)
    (hkeep : ∀ l x n, t.find? (l ++ [x]) = some n → keep (l ++ [x]) → keep l) :
    Proper ⟨t.entries.filter fun e => keep e.1⟩ := by
  have hfind : ∀ l x n, FileTree.find? ⟨t.entries.filter fun e => keep e.1⟩ (l ++ [x]) = some n →
      t.find? (l ++ [x]) = some n ∧ keep (l ++ [x]) := by
    intro l x n hn
    rw [find?_filter] at hn
    split at hn
    · next hkept => exact ⟨hn, by simpa using hkept⟩
    · cases hn
  refine ⟨⟨fun l x n hn => h.named l x n (hfind l x n hn).1, fun l x n hn => ?_⟩,
    h.once.sublist (filter_sublist.map _)⟩
  obtain ⟨hn, hkept⟩ := hfind l x n hn
  rw [find?_filter, if_pos (.inr (hkeep l x n hn hkept))]
  exact h.above l x n hn

structure Pruned (loc : Location) (t t' : FileTree) : Prop where
  proper : t'.Proper
  apart : ∀ l, ¬ loc <+: l → t'.find? l = t.find? l
  less : ∀ l n, t'.find? l = some n → t.find? l = some n
  bare : ∀ l n, loc <+: l → t'.find? l = some n → n = .directory

theorem pruned_filter (h : t.Proper) (hkeep : ∀ l, ¬ loc <+: l → keep l)
    (habove : ∀ l x n, t.find? (l ++ [x]) = some n → keep (l ++ [x]) → keep l)
    (hbare : ∀ l n, loc <+: l → keep l → t.find? l = some n → n = .directory) :
    Pruned loc t ⟨t.entries.filter fun e => keep e.1⟩ := by
  refine ⟨h.filter habove, fun l hl => ?_, fun l n hn => ?_, fun l n hpre hn => ?_⟩
  · rw [find?_filter, if_pos (.inr (hkeep l hl))]
  · rw [find?_filter] at hn
    split at hn
    · exact hn
    · cases hn
  · rw [find?_filter] at hn
    split at hn
    · next hkept =>
      rcases hkept with rfl | hkept
      · exact (Option.some.inj hn).symm
      · exact hbare l n hpre hkept hn
    · cases hn

theorem pruned_eraseAll (h : t.Proper) (loc : Location) : Pruned loc t (t.eraseAll loc) := by
  refine @pruned_filter t loc (fun l => !loc.isPrefixOf l) h ?_ ?_ ?_
  · intro l hl
    rwa [Bool.not_eq_true', Bool.eq_false_iff, Ne, isPrefixOf_iff_prefix]
  · intro l x n _ hkept
    rw [Bool.not_eq_true', Bool.eq_false_iff, Ne, isPrefixOf_iff_prefix] at hkept ⊢
    exact fun hpre => hkept (hpre.trans (prefix_append _ _))
  · intro l n hpre hkept
    rw [ isPrefixOf_iff_prefix.mpr hpre] at hkept
    cases hkept

theorem pruned_eraseBelow (h : t.Proper) (hdir : t.find? loc = some .directory) :
    Pruned loc t (t.eraseBelow loc) := by
  have hkept : ∀ l, (decide (l = loc) || !loc.isPrefixOf l) = true ↔ l = loc ∨ ¬ loc <+: l := by
    intro l
    rw [Bool.or_eq_true, decide_eq_true_eq, Bool.not_eq_true', Bool.eq_false_iff, Ne,
      isPrefixOf_iff_prefix]
  refine @pruned_filter t loc (fun l => l = loc || !loc.isPrefixOf l) h ?_ ?_ ?_
  · exact fun l hl => (hkept l).mpr (.inr hl)
  · intro l x n _ hbelow
    refine (hkept l).mpr (.inr fun hpre => ?_)
    rcases (hkept _).mp hbelow with heq | hno
    · have hlength := hpre.length_le
      rw [← heq, length_append, length_singleton] at hlength
      omega
    · exact hno (hpre.trans (prefix_append _ _))
  · intro l n hpre hl hn
    obtain rfl := ((hkept l).mp hl).resolve_right fun hno => hno hpre
    exact Option.some.inj (hn.symm.trans hdir)

theorem pruned_erase (h : t.Proper) (hfile : t.find? loc = some node) (hnode : node ≠ .directory) :
    Pruned loc t (t.erase loc) := by
  refine @pruned_filter t loc (fun l => l ≠ loc) h ?_ ?_ ?_
  · intro l hl
    rw [decide_eq_true_eq]
    rintro rfl
    exact hl (prefix_refl _)
  · intro l x n hn _
    rw [decide_eq_true_eq]
    rintro rfl
    exact hnode (Option.some.inj (hfile.symm.trans (h.above l x n hn)))
  · rintro l n ⟨more, rfl⟩ hkept hn
    by_cases hmore : more = []
    · simp [hmore] at hkept
    · exact absurd (Option.some.inj (hfile.symm.trans (h.directory_above hmore hn))) hnode

theorem find?_erase (hloc : loc ≠ []) : (t.erase loc).find? loc = none := by
  refine (@find?_filter (fun l => l ≠ loc) t loc).trans (if_neg ?_)
  simpa using hloc

theorem find?_erase_ne (hl : l ≠ loc) : (t.erase loc).find? l = t.find? l :=
  (@find?_filter (fun l => l ≠ loc) t l).trans (if_pos (.inr (by simpa using hl)))

theorem extends_erase (h : t.Proper) (hnode : t.find? loc = some node)
    (hleads : node.leads = false) :
    Extends t (t.erase loc) := by
  have hdir : node ≠ .directory := by
    rintro rfl
    cases hleads
  refine ⟨fun l n hn hl => ?_, fun l _ => (pruned_erase h hnode hdir).less l _⟩
  rw [find?_erase_ne, hl]
  rintro rfl
  rw [hnode] at hl
  cases hl
  rw [hn] at hleads
  cases hleads

theorem Leads.remove_join {workDir dir : Location} {top x : String} (h : t.Leads workDir top dir)
    (hx : Fits top x) (hfile : t.find? (dir ++ [x]) = some node) (hnode : node ≠ .directory) :
    t.remove workDir (join top x) = .ok (t.erase (dir ++ [x])) := by
  rw [remove, h.entrance_join hx]
  simp only [bind, Except.bind, pure, Except.pure, not_isDotName hx.name,
    Nat.not_lt.mpr hx.name.short, hfile, Bool.false_eq_true, if_false]

end FileTree

namespace Run

open FileTree

variable {s : Session} {top x : String} {dir : Location}

theorem eval_removeFile_join (h : s.tree.Leads s.workDir top dir) (hx : Fits top x)
    (hfile : s.tree.find? (dir ++ [x]) = some node) (hnode : node ≠ .directory) :
    eval (removeFile (join top x)) s =
      (.ok (), { s with tree := s.tree.erase (dir ++ [x]) }) := by
  rw [removeFile, eval_change (plain_join hx.name h.plain), h.remove_join hx hfile hnode]

theorem eval_clear_join (h : s.tree.Leads s.workDir top dir) (hx : Fits top x)
    (hlink : s.tree.LinkFree dir) {bytes : List UInt8} {readOnly : Bool}
    (hfile : s.tree.find? (dir ++ [x]) = some (.file bytes readOnly)) :
    eval (Workspace.clear (join top x)) s =
      (.ok (), { s with tree := s.tree.erase (dir ++ [x]) }) := by
  have hholds : eval (holdsFile (join top x)) s = (.ok true, s) := by
    rw [holdsFile, eval_bind_ok (eval_nodeAt h hx hlink), hfile]
    rfl
  rw [Workspace.clear, eval_bind_ok hholds]
  exact eval_removeFile_join h hx hfile (by simp)

end Run
end SceneText
