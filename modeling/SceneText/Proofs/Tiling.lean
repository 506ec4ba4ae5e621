import SceneText.Proofs.Fields
import SceneText.Proofs.Lists
import SceneText.Script.Opcodes

/-!
# Instructions tile the image

Disassembly cuts the image into instructions without gaps. Each instruction begins with its
signature, its operands come from the bytes behind it, and the next one begins where they end. Since
every signature has a byte, offsets grow along the listing and the steps provided are enough.
-/

namespace SceneText

open SignatureTable (byLength)
open Instruction

variable {a c : Nat} {xs : List Instruction}

structure RegularTable (table : FlatTable) : Prop where
  keys : (table.map Prod.fst).Nodup
  signatures : ∀ entry ∈ table, entry.1 ≠ .default ∧ entry.1 ≠ .bytes []
  plain : ∀ entry ∈ table, ∀ spec ∈ entry.2, spec.isPlain = true

theorem Opcodes.table_regular : RegularTable Opcodes.table where
  keys := by decide
  signatures := by decide
  plain := by decide

def Instruction.origins (page : CodePage) (table : FlatTable) (image : Image) (i : Instruction) :
    List Origin :=
  fieldOrigins page image [] (i.offset + i.signature.length)
    ((table.lookup (.bytes i.signature)).getD [])

structure Located (page : CodePage) (table : FlatTable) (image : Image) (start stop : Nat)
    (i : Instruction) : Prop where
  offset_eq : i.offset = start
  advance : start < stop
  signature_eq : image.span start (start + i.signature.length) = i.signature
  within : start + i.signature.length ≤ stop
  traced : Traced page image (start + i.signature.length) stop i.operands
    (i.origins page table image)
  fields : ∃ specs, (.bytes i.signature, specs) ∈ table ∧
    FieldSpec.Fits [] specs (i.origins page table image)

inductive Tiled (page : CodePage) (table : FlatTable) (image : Image) :
    Nat → List Instruction → Nat → Prop
  | nil (n : Nat) : Tiled page table image n [] n
  | cons {a b c : Nat} {i : Instruction} {rest : List Instruction}
      (here : Located page table image a b i) (there : Tiled page table image b rest c) :
      Tiled page table image a (i :: rest) c

namespace Tiled

variable {page : CodePage} {table : FlatTable} {image : Image} {b : Nat}

theorem append {ys : List Instruction} (hx : Tiled page table image a xs b)
    (hy : Tiled page table image b ys c) : Tiled page table image a (xs ++ ys) c := by
  induction hx with
  | nil n => exact hy
  | cons here _ ih => exact .cons here (ih hy)

theorem le (h : Tiled page table image a xs b) : a ≤ b := by
  induction h with
  | nil n => exact Nat.le_refl n
  | cons here _ ih => have := here.advance; omega

theorem located (h : Tiled page table image a xs c) :
    ∀ i ∈ xs, ∃ start stop, a ≤ start ∧ Located page table image start stop i := by
  induction h with
  | nil n => simp
  | @cons a b c i rest here _ ih =>
    intro j hj
    rcases List.mem_cons.mp hj with rfl | hj
    · exact ⟨a, b, Nat.le_refl a, here⟩
    · obtain ⟨start, stop, hle, hloc⟩ := ih j hj
      have := here.advance
      exact ⟨start, stop, by omega, hloc⟩

theorem offsets_increasing (h : Tiled page table image a xs c) :
    (xs.map offset).Pairwise (· < ·) := by
  induction h with
  | nil n => simp
  | @cons a b c i rest here there ih =>
    rw [List.map_cons, List.pairwise_cons]
    refine ⟨?_, ih⟩
    intro offset hmem
    obtain ⟨j, hj, rfl⟩ := List.mem_map.mp hmem
    obtain ⟨start, stop, hle, hloc⟩ := there.located j hj
    have := here.advance
    rw [here.offset_eq, hloc.offset_eq]
    omega

end Tiled

namespace Disassembly

variable {page : CodePage} {table : FlatTable} {image : Image}

theorem firstMatch_spec {entries : FlatTable} {n : Nat} {signature : List UInt8}
    {specs : List FieldSpec} (h : firstMatch image n entries = .ok (some (signature, specs))) :
    (.bytes signature, specs) ∈ entries ∧ image.startsAt signature n = true := by
  induction entries with
  | nil => simp [firstMatch] at h
  | cons entry rest ih =>
    obtain ⟨key, fields⟩ := entry
    cases key with
    | default => simp [firstMatch] at h
    | bytes sig =>
      rw [firstMatch, if_neg (show ¬ (n : Int) < 0 by omega), Int.toNat_natCast] at h
      by_cases hs : image.startsAt sig n = true
      · rw [if_pos hs, Except.ok.injEq, Option.some.injEq, Prod.mk.injEq] at h
        obtain ⟨rfl, rfl⟩ := h
        exact ⟨by simp, hs⟩
      · rw [if_neg hs] at h
        have := ih h
        exact ⟨by simp [this.1], this.2⟩

section

variable (hr : RegularTable table)
include hr

theorem located_of_match {n index : Nat} {signature : List UInt8} {specs : List FieldSpec}
    (hm : firstMatch image n (byLength table) = .ok (some (signature, specs)))
    (hh : (readFields page image [] (n + signature.length) specs).halt = none) :
    ∃ m : Nat, (readFields page image [] (n + signature.length) specs).offset = m ∧
      Located page table image n m ⟨signature, n, index,
        (readFields page image [] (n + signature.length) specs).operands⟩ := by
  obtain ⟨hmem, hstart⟩ := firstMatch_spec hm
  have hentry : (.bytes signature, specs) ∈ table := by
    simpa [byLength] using hmem
  have hpos : 0 < signature.length := by
    rw [List.length_pos_iff]
    intro h
    exact (hr.signatures _ hentry).2 (by rw [h])
  obtain ⟨more, hmore, ⟨⟨m, hoff, hle, htraced⟩, -⟩, hfits⟩ :=
    readFields_spec specs (hr.plain _ hentry) [] (n + signature.length) hh
  refine ⟨m, hoff, rfl, by omega, Image.span_of_startsAt image signature n hstart, hle, ?_, ?_⟩
  · simp only [origins, lookup_of_mem hr.keys hentry, Option.getD_some]
    rw [show (readFields page image [] (n + signature.length) specs).operands = more from hmore]
    exact htraced
  · refine ⟨specs, hentry, ?_⟩
    simp only [origins, lookup_of_mem hr.keys hentry, Option.getD_some]
    exact hfits

/-- One turn of a run: it ends where it is, or takes one more instruction. -/
theorem runFrom_cases (page : CodePage) (image : Image) (fuel : Nat) (done : List Instruction)
    (n : Nat) :
    (∃ halt, halt ≠ .endless ∧
      runFrom page (byLength table) image (fuel + 1) done n =
        ⟨done.reverse, n, halt⟩) ∨
    ∃ (i : Instruction) (specs : List FieldSpec) (m : Nat),
      n < image.size ∧ i.offset = n ∧ i.index = done.length ∧
      firstMatch image n (byLength table) = .ok (some (i.signature, specs)) ∧
      readFields page image [] (n + i.signature.length) specs = ⟨i.operands, m, none⟩ ∧
      Located page table image n m i ∧
      runFrom page (byLength table) image (fuel + 1) done n =
        runFrom page (byLength table) image fuel (i :: done) m := by
  have halted : ∀ (halt : UInt8 → Halt), (∀ b, halt b ≠ .endless) →
      ((image.byteAt? n).map halt).getD .outside ≠ .endless := by
    intro halt hne
    cases image.byteAt? n with
    | none => simp
    | some b => simpa using hne b
  rw [runFrom]
  split
  · exact .inl ⟨_, by simp, rfl⟩
  · next hsize =>
    split
    · exact .inl ⟨_, halted _ (by simp), rfl⟩
    · exact .inl ⟨_, halted _ (by simp), rfl⟩
    · next signature specs hm =>
      dsimp only
      split
      · -- The fields were read to their end: one more tile.
        next hh =>
        obtain ⟨m, hoff, hloc⟩ := @located_of_match page _ _ hr n done.length _ _ hm hh
        refine .inr ⟨_, specs, m, by omega, rfl, rfl, hm, ?_, hloc, by rw [hoff]⟩
        rw [← hoff, ← hh]
      · next hh =>
        have hmem := (firstMatch_spec hm).1
        rw [byLength, List.mem_mergeSort] at hmem
        exact absurd hh (readFields_ne_stopped _ (hr.plain _ hmem) _ _)
      · exact .inl ⟨_, halted _ (by simp), rfl⟩

theorem runFrom_tiled (fuel : Nat) (done : List Instruction) (n : Nat)
    (hd : Tiled page table image 0 done.reverse n) :
    ∃ m : Nat, (runFrom page (byLength table) image fuel done n).offset = m ∧
      Tiled page table image 0
        (runFrom page (byLength table) image fuel done n).instructions m := by
  induction fuel generalizing done n with
  | zero => exact ⟨n, rfl, hd⟩
  | succ fuel ih =>
    rcases runFrom_cases hr page image fuel done n with
      ⟨halt, -, hrun⟩ | ⟨i, -, m, -, -, -, -, -, hloc, hrun⟩
    · rw [hrun]
      exact ⟨n, rfl, hd⟩
    · rw [hrun]
      apply ih
      rw [List.reverse_cons]
      exact hd.append (.cons hloc (.nil m))

theorem runFrom_not_endless (fuel : Nat) (done : List Instruction)
    (n : Nat) (hpos : 0 < fuel) (hfuel : image.size < n + fuel) :
    (runFrom page (byLength table) image fuel done n).halt ≠ .endless := by
  induction fuel generalizing done n with
  | zero => omega
  | succ fuel ih =>
    rcases runFrom_cases hr page image fuel done n with
      ⟨halt, hne, hrun⟩ | ⟨i, -, m, hlt, -, -, -, -, hloc, hrun⟩
    · rw [hrun]
      exact hne
    · have := hloc.advance
      rw [hrun]
      exact ih _ m (by omega) (by omega)

theorem run_tiled (page : CodePage) (image : Image) :
    ∃ m : Nat, (run page table image).offset = m ∧
      Tiled page table image 0 (run page table image).instructions m :=
  runFrom_tiled hr _ [] 0 (.nil 0)

theorem run_not_endless (page : CodePage) (image : Image) :
    (run page table image).halt ≠ .endless := by
  have hfuel : image.size + 1 ≤ fuelFor table image := Nat.le_mul_of_pos_right _ (Nat.succ_pos _)
  exact runFrom_not_endless hr _ [] 0 (by omega) (by omega)

end

end Disassembly
end SceneText
