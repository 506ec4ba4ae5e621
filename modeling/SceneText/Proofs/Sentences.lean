import SceneText.Dialogue.Replacement

/-!
# Sentences of one text

Where every sentence has one text, a sentence ends between any two texts. `Ahead` says this of what
remains of a listing, inside or outside a sentence.
-/

namespace SceneText.Dialogue

open List

variable {xs : List Instruction}

def SingleTexts (xs : List Instruction) : Prop :=
  ∀ first between second, first :: (between ++ [second]) <:+: xs →
    first.opcode = Role.text.signature → second.opcode = Role.text.signature →
    ∃ i ∈ between, i.opcode = Role.sentenceEnd.signature

theorem SingleTexts.of_count (h : xs.countP (fun i => i.opcode = Role.text.signature) ≤ 1) :
    SingleTexts xs := by
  intro first between second hin hfirst hsecond
  have hle := hin.sublist.countP_le (p := fun i => i.opcode = Role.text.signature)
  simp [hfirst, hsecond] at hle
  omega

structure Ahead (inside : Bool) (xs : List Instruction) : Prop where
  single : SingleTexts xs
  ends : inside = true → ∀ between second, between ++ [second] <+: xs →
    second.opcode = Role.text.signature → ∃ i ∈ between, i.opcode = Role.sentenceEnd.signature

namespace Ahead

variable {inside : Bool} {i : Instruction} {xs : List Instruction}

section

variable (h : Ahead inside (i :: xs))
include h

theorem tail_single : SingleTexts xs :=
  fun first between second hin =>
    h.single first between second (hin.trans (infix_cons (infix_refl xs)))

theorem text (hop : i.opcode = Role.text.signature) : inside = false ∧ Ahead true xs := by
  constructor
  · cases inside with
    | false => rfl
    | true =>
      obtain ⟨j, hj, -⟩ := h.ends rfl [] i (by simp) hop
      simp at hj
  · refine ⟨h.tail_single, fun _ between second hin hsecond => ?_⟩
    apply h.single i between second _ hop hsecond
    exact ((prefix_cons_inj i).mpr hin).isInfix

theorem sentenceEnd : Ahead false xs :=
  ⟨h.tail_single, nofun⟩

theorem other (hop : i.opcode ≠ Role.sentenceEnd.signature) : Ahead inside xs := by
  refine ⟨h.tail_single, fun hinside between second hin hsecond => ?_⟩
  obtain ⟨j, hj, hend⟩ := h.ends hinside (i :: between) second ((prefix_cons_inj i).mpr hin) hsecond
  rcases mem_cons.mp hj with rfl | hj
  · exact absurd hend hop
  · exact ⟨j, hj, hend⟩

end

end Ahead

end SceneText.Dialogue
