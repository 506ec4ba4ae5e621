import SceneText.Proofs.Tiling

/-!
# The longest signature

At every offset the disassembly takes the longest signature that stands there. A run that reaches
the end of its image is therefore a chain of such steps, and a chain of such steps that ends there
is the whole run: what is known of the signatures that fit decides how an image is read.
-/

namespace SceneText

open List
open SignatureTable (byLength)

variable {n index : Nat} {signature : List UInt8} {specs : List FieldSpec} {xs : List Instruction}

theorem Image.startsAt_iff (image : Image) (signature : List UInt8) (start : Nat)
    (h : start ≤ image.size) :
    image.startsAt signature start = true ↔ signature <+: image.toList.drop start := by
  induction signature generalizing start with
  | nil => simp [startsAt, h]
  | cons b rest ih =>
    by_cases hlt : start < image.size
    · rw [startsAt, Bool.and_eq_true, beq_iff_eq, ih (start + 1) hlt,
        drop_eq_getElem_cons (show start < image.toList.length from hlt),
        cons_prefix_cons, Array.getElem?_eq_getElem hlt, Option.some.injEq,
        Array.getElem_toList, eq_comm]
    · have hend : image.toList.drop start = [] := drop_eq_nil_of_le (by simp; omega)
      simp [startsAt, hend, Array.getElem?_eq_none (show image.size ≤ start by omega)]

namespace Disassembly

variable {page : CodePage} {table : FlatTable} {image : Image}

theorem firstMatch_cons (signature : List UInt8) (specs : List FieldSpec) (rest : FlatTable)
    (n : Nat) :
    firstMatch image n ((.bytes signature, specs) :: rest) =
      if image.startsAt signature n then .ok (some (signature, specs))
      else firstMatch image n rest := by
  rw [firstMatch, if_neg (show ¬ (n : Int) < 0 by omega), Int.toNat_natCast]

theorem firstMatch_ge {entries : FlatTable}
    (hsorted : entries.Pairwise fun a b => b.1.length ≤ a.1.length)
    (h : firstMatch image n entries = .ok (some (signature, specs))) :
    ∀ other fields, (.bytes other, fields) ∈ entries → image.startsAt other n = true →
      other.length ≤ signature.length := by
  intro other fields hmem hother
  induction entries with
  | nil => simp at hmem
  | cons entry rest ih =>
    obtain ⟨key, head⟩ := entry
    rw [pairwise_cons] at hsorted
    cases key with
    | default => simp [firstMatch] at h
    | bytes sig =>
      rw [firstMatch_cons] at h
      by_cases hsig : image.startsAt sig n = true
      · rw [if_pos hsig, Except.ok.injEq, Option.some.injEq, Prod.mk.injEq] at h
        rw [← h.1]
        rcases mem_cons.mp hmem with heq | hrest
        · rw [Prod.mk.injEq, SignatureKey.bytes.injEq] at heq
          exact Nat.le_of_eq (congrArg List.length heq.1)
        · exact hsorted.1 _ hrest
      · rw [if_neg hsig] at h
        rcases mem_cons.mp hmem with heq | hrest
        · rw [Prod.mk.injEq, SignatureKey.bytes.injEq] at heq
          rw [heq.1] at hother
          exact absurd hother hsig
        · exact ih hsorted.2 h hrest

theorem firstMatch_found {entries : FlatTable} {n : Nat} {signature : List UInt8}
    {specs : List FieldSpec} (hkeys : ∀ entry ∈ entries, entry.1 ≠ .default)
    (hmem : (.bytes signature, specs) ∈ entries) (hstart : image.startsAt signature n = true) :
    ∃ found, firstMatch image n entries = .ok (some found) := by
  induction entries with
  | nil => simp at hmem
  | cons entry rest ih =>
    obtain ⟨key, head⟩ := entry
    cases key with
    | default => exact absurd rfl (hkeys _ mem_cons_self)
    | bytes sig =>
      rw [firstMatch_cons]
      by_cases hsig : image.startsAt sig n = true
      · exact ⟨_, if_pos hsig⟩
      · rw [if_neg hsig]
        apply ih (fun e he => hkeys e (mem_cons_of_mem _ he))
        rcases mem_cons.mp hmem with heq | hrest
        · rw [Prod.mk.injEq, SignatureKey.bytes.injEq] at heq
          rw [heq.1] at hstart
          exact absurd hstart hsig
        · exact hrest

theorem byLength_pairwise (table : FlatTable) :
    (byLength table).Pairwise fun a b => b.1.length ≤ a.1.length := by
  have h := @pairwise_mergeSort (SignatureKey × List FieldSpec)
    (fun a b => decide (b.1.length ≤ a.1.length)) (by simp; omega) (by simp; omega) table
  simpa [byLength] using h

theorem mem_byLength {entry : SignatureKey × List FieldSpec} :
    entry ∈ byLength table ↔ entry ∈ table := by
  rw [byLength, mem_mergeSort]

theorem firstMatch_longest (hn : n ≤ image.size)
    (h : firstMatch image n (byLength table) = .ok (some (signature, specs))) :
    (.bytes signature, specs) ∈ table ∧ signature <+: image.toList.drop n ∧
      ∀ other fields, (.bytes other, fields) ∈ table → other <+: image.toList.drop n →
        other.length ≤ signature.length := by
  obtain ⟨hmem, hstart⟩ := firstMatch_spec h
  refine ⟨mem_byLength.mp hmem, (image.startsAt_iff _ n hn).mp hstart, ?_⟩
  intro other fields hother hprefix
  exact firstMatch_ge (byLength_pairwise table) h other fields (mem_byLength.mpr hother)
    ((image.startsAt_iff _ n hn).mpr hprefix)

theorem firstMatch_iff (hr : RegularTable table) (hn : n ≤ image.size) :
    firstMatch image n (byLength table) = .ok (some (signature, specs)) ↔
      (.bytes signature, specs) ∈ table ∧ signature <+: image.toList.drop n ∧
        ∀ other fields, (.bytes other, fields) ∈ table → other <+: image.toList.drop n →
          other.length ≤ signature.length := by
  constructor
  · exact firstMatch_longest hn
  · rintro ⟨hmem, hprefix, hlongest⟩
    obtain ⟨⟨found, fields⟩, hfound⟩ := @firstMatch_found image _ n _ _
      (fun e he => (hr.signatures e (mem_byLength.mp he)).1) (mem_byLength.mpr hmem)
      ((image.startsAt_iff _ n hn).mpr hprefix)
    obtain ⟨hmem', hprefix', hlongest'⟩ := firstMatch_longest hn hfound
    -- Two signatures of one length that stand at one place are the same.
    have hle := hlongest' signature specs hmem hprefix
    have hge := hlongest found fields hmem' hprefix'
    obtain rfl : found = signature := by
      apply List.IsPrefix.eq_of_length _ (by omega)
      exact prefix_of_prefix_length_le hprefix' hprefix hge
    have hspecs := (lookup_of_mem hr.keys hmem').symm.trans (lookup_of_mem hr.keys hmem)
    rw [hfound, Option.some.inj hspecs]

end Disassembly

inductive Parsed (page : CodePage) (table : FlatTable) (image : Image) :
    Nat → Nat → List Instruction → Prop
  | nil (index : Nat) : Parsed page table image index image.size []
  | cons {index a b : Nat} {i : Instruction} {specs : List FieldSpec} {rest : List Instruction}
      (before : a < image.size) (offset_eq : i.offset = a) (index_eq : i.index = index)
      (chosen : Disassembly.firstMatch image a (byLength table) =
        .ok (some (i.signature, specs)))
      (read : readFields page image [] (a + i.signature.length) specs = ⟨i.operands, b, none⟩)
      (there : Parsed page table image (index + 1) b rest) :
      Parsed page table image index a (i :: rest)

namespace Parsed

variable {page : CodePage} {table : FlatTable} {image : Image} {a : Nat} {i : Instruction}

theorem le_size (h : Parsed page table image index n xs) : n ≤ image.size := by
  cases h with
  | nil index => exact Nat.le_refl _
  | cons before => omega

theorem uncons {rest : List Instruction} (h : Parsed page table image index a (i :: rest)) :
    i.offset = a ∧ ∃ (specs : List FieldSpec) (b : Nat),
      Disassembly.firstMatch image a (byLength table) =
        .ok (some (i.signature, specs)) ∧
      readFields page image [] (a + i.signature.length) specs = ⟨i.operands, b, none⟩ ∧
      Parsed page table image (index + 1) b rest := by
  cases h with
  | cons before offset_eq index_eq chosen read there => exact ⟨offset_eq, _, _, chosen, read, there⟩

theorem located (hr : RegularTable table) {b : Nat} (hoffset : i.offset = a)
    (hm : Disassembly.firstMatch image a (byLength table) =
      .ok (some (i.signature, specs)))
    (hread : readFields page image [] (a + i.signature.length) specs = ⟨i.operands, b, none⟩) :
    Located page table image a b i := by
  obtain ⟨m, hm, hloc⟩ := @Disassembly.located_of_match page _ _ hr a i.index _ _ hm (by rw [hread])
  rw [hread, Int.natCast_inj] at hm
  rw [hread, hm, ← hoffset] at *
  exact hloc

end Parsed

namespace Disassembly

variable {page : CodePage} {table : FlatTable} {image : Image}

theorem runFrom_parsed (hr : RegularTable table) (fuel : Nat) (done : List Instruction) (n : Nat)
    (h : (runFrom page (byLength table) image fuel done n).offset = image.size) :
    ∃ rest, (runFrom page (byLength table) image fuel done n).instructions =
      done.reverse ++ rest ∧ Parsed page table image done.length n rest := by
  have ended : ∀ index n : Nat, (n : Int) = image.size → Parsed page table image index n [] := by
    intro index n hn
    rw [Int.natCast_inj.mp hn]
    exact .nil index
  induction fuel generalizing done n with
  | zero => exact ⟨[], by rw [append_nil]; rfl, ended _ n h⟩
  | succ fuel ih =>
    rcases runFrom_cases hr page image fuel done n with
      ⟨halt, -, hrun⟩ | ⟨i, specs, m, hlt, hoffset, hindex, hm, hread, -, hrun⟩
    · rw [hrun] at h ⊢
      exact ⟨[], by rw [append_nil], ended _ n h⟩
    · rw [hrun] at h ⊢
      obtain ⟨rest, hrest, hparsed⟩ := ih _ m h
      refine ⟨i :: rest, by rw [hrest, reverse_cons, append_assoc]; rfl, ?_⟩
      exact .cons hlt hoffset hindex hm hread hparsed

end Disassembly

theorem Parsed.runFrom_eq {page : CodePage} {table : FlatTable} {image : Image}
    (hr : RegularTable table) (h : Parsed page table image index n xs) (fuel : Nat)
    (done : List Instruction) (hdone : done.length = index) (hfuel : image.size < n + fuel) :
    Disassembly.runFrom page (byLength table) image fuel done n =
      ⟨done.reverse ++ xs, image.size, .atEnd⟩ := by
  induction h generalizing fuel done with
  | nil index =>
    obtain ⟨fuel, rfl⟩ := Nat.exists_eq_succ_of_ne_zero (show fuel ≠ 0 by omega)
    rw [Disassembly.runFrom, if_pos (Int.le_refl _), append_nil]
  | @cons index a b i specs rest before hoffset hindex hm hread there ih =>
    have hloc := Parsed.located hr hoffset hm hread
    have := hloc.advance
    obtain ⟨fuel, rfl⟩ := Nat.exists_eq_succ_of_ne_zero (show fuel ≠ 0 by omega)
    have hhere : (⟨i.signature, a, done.length, i.operands⟩ : Instruction) = i := by
      rw [← hoffset, hdone, ← hindex]
    rw [Disassembly.runFrom, if_neg (by omega), hm]
    simp only [hread, hhere]
    rw [ih fuel (i :: done) (by simp [hdone]) (by omega), reverse_cons, append_assoc]
    rfl

namespace Disassembly

variable {page : CodePage} {table : FlatTable} {image : Image}

theorem run_parsed (hr : RegularTable table) (h : (run page table image).offset = image.size) :
    Parsed page table image 0 0 (run page table image).instructions := by
  obtain ⟨rest, hrest, hparsed⟩ := runFrom_parsed hr _ [] 0 h
  have hrun : (run page table image).instructions = rest := hrest
  rwa [hrun]

theorem run_of_parsed (hr : RegularTable table) (h : Parsed page table image 0 0 xs) :
    run page table image = ⟨xs, image.size, .atEnd⟩ := by
  have hfuel : image.size + 1 ≤ fuelFor table image := Nat.le_mul_of_pos_right _ (Nat.succ_pos _)
  exact h.runFrom_eq hr _ [] rfl (by omega)

end Disassembly
end SceneText
