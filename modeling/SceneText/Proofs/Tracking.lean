import SceneText.Proofs.Places

/-!
# Files on the move

The files of a directory are moved one at a time, each to a name that is free at that moment. It is
known all the while where each of them is; no file is lost, the places that the files have left are
empty, and everything else in the tree is as it was.
-/

namespace SceneText.FileTree

structure Shelf (tree : FileTree) (dir : Location) (files : List String) : Prop where
  sound : tree.Sound
  directory : tree.find? dir = some .directory
  linkFree : tree.LinkFree dir
  held : ∀ a ∈ files, ∃ bytes readOnly, tree.find? (dir ++ [a]) = some (.file bytes readOnly)

structure Tracks (old tree : FileTree) (dir : Location) (files : List String)
    (pos : String → String) : Prop where
  held : ∀ a ∈ files, tree.find? (dir ++ [pos a]) = old.find? (dir ++ [a])
  left : ∀ a ∈ files, (∀ b ∈ files, pos b ≠ a) → tree.find? (dir ++ [a]) = none
  others : ∀ l, (∀ a ∈ files, l ≠ dir ++ [a] ∧ l ≠ dir ++ [pos a]) → tree.find? l = old.find? l
  fresh : ∀ a ∈ files, pos a ∈ files ∨ old.find? (dir ++ [pos a]) = none
  apart : ∀ a ∈ files, ∀ b ∈ files, pos a = pos b → a = b
  named : ∀ a ∈ files, IsName (pos a)
  size : tree.entries.length = old.entries.length

section

variable {old tree : FileTree} {dir : Location} {files : List String} {pos : String → String}

theorem Shelf.tracks_refl (h : tree.Shelf dir files) : Tracks tree tree dir files fun a => a where
  held _ _ := rfl
  left a ha hleft := absurd rfl (hleft a ha)
  others _ _ := rfl
  fresh _ ha := .inl ha
  apart _ _ _ _ h := h
  named a ha := by
    obtain ⟨bytes, readOnly, hfile⟩ := h.held a ha
    exact h.sound.named dir a _ hfile
  size := rfl

namespace Tracks

variable {a y : String} {l : Location} {n : Node}

variable (h : Tracks old tree dir files pos)
include h

theorem file (hold : old.Shelf dir files) (ha : a ∈ files) :
    ∃ bytes readOnly, tree.find? (dir ++ [pos a]) = some (.file bytes readOnly) := by
  rw [h.held a ha]
  exact hold.held a ha

theorem kept (hold : old.Shelf dir files) (hn : n.leads = true) (hl : old.find? l = some n) :
    tree.find? l = some n := by
  have hsource : ∀ a ∈ files, l ≠ dir ++ [a] := by
    rintro a ha rfl
    obtain ⟨bytes, readOnly, hfile⟩ := hold.held a ha
    rw [hfile] at hl
    cases hl
    cases hn
  rw [h.others l fun a ha => ⟨hsource a ha, ?_⟩, hl]
  rintro rfl
  rcases h.fresh a ha with hpos | hpos
  · exact hsource (pos a) hpos rfl
  · rw [hpos] at hl
    cases hl

theorem origin (hl : tree.find? l = some n) :
    (∃ a ∈ files, l = dir ++ [pos a]) ∨ old.find? l = some n := by
  by_cases hhere : ∃ a ∈ files, l = dir ++ [pos a]
  · exact .inl hhere
  · right
    rw [← h.others l fun a ha => ⟨?_, fun heq => hhere ⟨a, ha, heq⟩⟩, hl]
    rintro rfl
    have hgone := h.left a ha fun b hb heq => hhere ⟨b, hb, by rw [heq]⟩
    rw [hgone] at hl
    cases hl

theorem toExtends (hold : old.Shelf dir files) : Extends old tree := by
  refine ⟨fun l n hn hl => h.kept hold hn hl, fun l x hl => ?_⟩
  rcases h.origin hl with ⟨a, ha, rfl⟩ | hl
  · obtain ⟨bytes, readOnly, hfile⟩ := h.file hold ha
    rw [hfile] at hl
    cases hl
  · exact hl

theorem linkFree (hold : old.Shelf dir files) : tree.LinkFree dir :=
  fun x target hl => hold.linkFree x target ((h.toExtends hold).links _ _ hl)

theorem sound (hold : old.Shelf dir files) : tree.Sound := by
  constructor
  · intro loc name node hnode
    rcases h.origin hnode with ⟨a, ha, heq⟩ | hnode
    · obtain rfl : name = pos a := List.singleton_inj.mp (List.append_inj_right' heq rfl)
      exact h.named a ha
    · exact hold.sound.named loc name node hnode
  · intro loc name node hnode
    rcases h.origin hnode with ⟨a, ha, heq⟩ | hnode
    · rw [List.append_inj_left' heq rfl]
      exact h.kept hold rfl hold.directory
    · exact h.kept hold rfl (hold.sound.above loc name node hnode)

theorem free (hapart : ∀ a ∈ files, pos a ≠ y) (hy : y ∉ files → old.find? (dir ++ [y]) = none) :
    tree.find? (dir ++ [y]) = none := by
  by_cases hmem : y ∈ files
  · exact h.left y hmem hapart
  · rw [h.others _ fun a ha => ⟨?_, ?_⟩, hy hmem]
    · simpa using fun heq : y = a => hmem (heq ▸ ha)
    · simpa using Ne.symm (hapart a ha)

section move

variable (hold : old.Shelf dir files) (ha : a ∈ files) (hy : tree.find? (dir ++ [y]) = none)
include hold

theorem pos_ne (hy : tree.find? (dir ++ [y]) = none) : ∀ b ∈ files, pos b ≠ y := by
  rintro b hb rfl
  obtain ⟨bytes, readOnly, hb⟩ := h.file hold hb
  rw [hb] at hy
  cases hy

include ha hy

theorem find?_move (l : Location) : (tree.move (dir ++ [pos a]) (dir ++ [y])).find? l =
    if l = dir ++ [y] then old.find? (dir ++ [a])
    else if l = dir ++ [pos a] then none else tree.find? l := by
  obtain ⟨bytes, readOnly, hfile⟩ := h.file hold ha
  rw [(h.sound hold).find?_move hfile (by simp) hy, ← h.held a ha, hfile]

theorem moved_held : ∀ b ∈ files, (tree.move (dir ++ [pos a]) (dir ++ [y])).find?
    (dir ++ [if b = a then y else pos b]) = old.find? (dir ++ [b]) := by
  intro b hb
  rw [h.find?_move hold ha hy]
  by_cases hba : b = a
  · rw [if_pos hba, if_pos rfl, hba]
  · have hmoved : pos b ≠ pos a := fun heq => hba (h.apart b hb a ha heq)
    rw [if_neg hba, if_neg (by simpa using h.pos_ne hold hy b hb), if_neg (by simpa using hmoved),
      h.held b hb]

theorem moved_left {c : String} (hc : c ∈ files)
    (hleft : ∀ b ∈ files, (if b = a then y else pos b) ≠ c) :
    (tree.move (dir ++ [pos a]) (dir ++ [y])).find? (dir ++ [c]) = none := by
  have hcy : c ≠ y := by simpa using Ne.symm (hleft a ha)
  rw [h.find?_move hold ha hy, if_neg (by simpa using hcy)]
  split
  · rfl
  · next hca =>
    refine h.left c hc fun b hb => ?_
    by_cases hba : b = a
    · simpa [hba] using Ne.symm hca
    · simpa [hba] using hleft b hb

theorem moved_others (hl : ∀ b ∈ files, l ≠ dir ++ [b] ∧ l ≠ dir ++ [if b = a then y else pos b]) :
    (tree.move (dir ++ [pos a]) (dir ++ [y])).find? l = old.find? l := by
  have hly : l ≠ dir ++ [y] := by simpa using (hl a ha).2
  rw [h.find?_move hold ha hy, if_neg hly]
  split
  · next hla =>
    rcases h.fresh a ha with hpos | hpos
    · exact absurd hla (hl (pos a) hpos).1
    · rw [hla, hpos]
  · next hla =>
    refine h.others l fun b hb => ⟨(hl b hb).1, ?_⟩
    by_cases hba : b = a
    · rwa [hba]
    · simpa [hba] using (hl b hb).2

omit ha in
theorem fresh_target : y ∈ files ∨ old.find? (dir ++ [y]) = none := by
  by_cases hmem : y ∈ files
  · exact .inl hmem
  · right
    rw [← h.others _ fun c hc => ⟨?_, ?_⟩, hy]
    · simpa using fun heq : y = c => hmem (heq ▸ hc)
    · simpa using Ne.symm (h.pos_ne hold hy c hc)

theorem move (hname : IsName y) : Tracks old (tree.move (dir ++ [pos a]) (dir ++ [y])) dir files
    fun b => if b = a then y else pos b where
  held := h.moved_held hold ha hy
  left _ hc hleft := h.moved_left hold ha hy hc hleft
  others _ hl := h.moved_others hold ha hy hl
  fresh b hb := by
    split
    · exact h.fresh_target hold hy
    · exact h.fresh b hb
  apart b hb c hc heq := by
    have hfree := h.pos_ne hold hy
    by_cases hba : b = a <;> by_cases hca : c = a
    · rw [hba, hca]
    · rw [if_pos hba, if_neg hca] at heq
      exact absurd heq.symm (hfree c hc)
    · rw [if_neg hba, if_pos hca] at heq
      exact absurd heq (hfree b hb)
    · rw [if_neg hba, if_neg hca] at heq
      exact h.apart b hb c hc heq
  named b hb := by
    split
    · exact hname
    · exact h.named b hb
  size := by rw [← h.size, FileTree.move, List.length_map]

end move

end Tracks

end

end SceneText.FileTree
