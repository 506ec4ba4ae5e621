import SceneText.Layout.Truncation
import SceneText.Proofs.Lengths

/-!
# Truncation is exact

A character is protected if it makes a mark together with a neighbour. Truncation takes away the
last unprotected characters, as few as make the text fit, and is refused exactly if the protected
ones alone do not fit. Each step takes the character before the marks at the end. It tears no mark
apart and makes no new one, since a character that begins a mark never ends one. The marks are
looked for in a copy in lower case, which may be longer than the text, but not where it has marks.
-/

namespace SceneText.Layout

open List Text
open Char (ofNat)

variable {c x : Char} {lower front rest text : List Char} {run : List Char}

def isMark (a b : Char) : Bool :=
  (protectedMarks.map String.toList).contains (lowerChars [a, b])

def flagsFrom (before : Option Char) : List Char → List (Char × Bool)
  | [] => []
  | c :: rest =>
    (c, before.any (isMark · c) || rest.head?.any (isMark c ·)) :: flagsFrom (some c) rest

def flagged (text : List Char) : List (Char × Bool) :=
  flagsFrom none text

def shielded (flags : List (Char × Bool)) : List Char :=
  (flags.filter (·.2)).map (·.1)

def freeCount (flags : List (Char × Bool)) : Nat :=
  flags.countP (!·.2)

def withoutLast (m : Nat) : List (Char × Bool) → List Char
  | [] => []
  | (c, flag) :: rest =>
    if flag || m ≤ freeCount rest then c :: withoutLast m rest else withoutLast m rest

def marksIn (text : List Char) : List (Char × Char) :=
  (text.zip text.tail).filter fun p => isMark p.1 p.2

def Lowered (c : Char) (piece : List Char) : Prop :=
  piece = lowerChars [c] ∨
    c.toNat = 0x3a3 ∧ (piece = [ofNat 0x3c2] ∨ piece = [ofNat 0x3c3])

theorem lowerFrom_cons (before rest : List Char) (c : Char) :
    ∃ piece, Lowered c piece ∧
      lowerFrom before (c :: rest) = piece ++ lowerFrom (c :: before) rest := by
  refine ⟨_, ?_, rfl⟩
  by_cases hsigma : c.toNat = 0x3a3
  · refine .inr ⟨hsigma, ?_⟩
    rw [if_neg (by omega), if_pos hsigma]
    by_cases hfinal : (nextIsCased before && !nextIsCased rest) = true
    · exact .inl (by rw [if_pos hfinal])
    · exact .inr (by rw [if_neg hfinal])
  · refine .inl ?_
    simp only [lowerChars, lowerFrom, append_nil]
    rw [if_neg hsigma, if_neg hsigma]

/-- A text and a copy of it in lower case. -/
inductive Lowers : List Char → List Char → Prop
  | nil : Lowers [] []
  | cons {c : Char} {piece text lower : List Char} (here : Lowered c piece)
      (there : Lowers text lower) : Lowers (c :: text) (piece ++ lower)

theorem lowers_lowerFrom (before text : List Char) : Lowers text (lowerFrom before text) := by
  induction text generalizing before with
  | nil => exact .nil
  | cons c rest ih =>
    obtain ⟨piece, hpiece, hcons⟩ := lowerFrom_cons before rest c
    rw [hcons]
    exact .cons hpiece (ih (c :: before))

theorem Lowers.split {front rest lower : List Char} (h : Lowers (front ++ rest) lower) :
    ∃ xs ys, lower = xs ++ ys ∧ Lowers front xs ∧ Lowers rest ys := by
  induction front generalizing lower with
  | nil => exact ⟨[], lower, rfl, .nil, h⟩
  | cons c front ih =>
    cases h with
    | cons here there =>
      obtain ⟨xs, ys, rfl, hxs, hys⟩ := ih there
      exact ⟨_, ys, (append_assoc ..).symm, .cons here hxs, hys⟩

theorem Lowers.single (h : Lowers [c] lower) : Lowered c lower := by
  cases h with
  | cons here there =>
    cases there
    rwa [append_nil]

theorem lowerChars_singleton (c : Char) :
    lowerChars [c] = ['i', ofNat 0x307] ∨ ∃ d, lowerChars [c] = [d] := by
  simp only [lowerChars, lowerFrom, append_nil]
  by_cases hi : c.toNat = 0x130
  · exact .inl (by rw [if_pos hi])
  · refine .inr ?_
    split_ifs <;> exact ⟨_, rfl⟩

theorem lowerChars_sigma (h : c.toNat = 0x3a3) : lowerChars [c] = [ofNat 0x3c3] := by
  simp only [lowerChars, lowerFrom, append_nil]
  rw [if_neg (by omega), if_pos h]
  rfl

def markLetters : List Char := ['@', 'p', 'k', 'r']

namespace Lowered

variable {c x : Char} {piece : List Char}

theorem shape (h : Lowered c piece) : piece = ['i', ofNat 0x307] ∨ ∃ d, piece = [d] := by
  rcases h with rfl | ⟨-, rfl | rfl⟩
  · exact lowerChars_singleton c
  · exact .inr ⟨_, rfl⟩
  · exact .inr ⟨_, rfl⟩

theorem eq_letter_iff (h : Lowered c piece) (hx : x ∈ markLetters) :
    piece = [x] ↔ lowerChars [c] = [x] := by
  have hother : ofNat 0x3c2 ∉ markLetters ∧ ofNat 0x3c3 ∉ markLetters := by decide
  rcases h with rfl | ⟨hsigma, hpiece⟩
  · rfl
  · rw [lowerChars_sigma hsigma]
    rcases hpiece with rfl | rfl
    · constructor
      · intro heq
        exact absurd (singleton_inj.mp heq ▸ hx) hother.1
      · intro heq
        exact absurd (singleton_inj.mp heq ▸ hx) hother.2
    · rfl

theorem eq_of_last (h : Lowered c piece) (hx : x ∈ markLetters)
    (hlast : piece.getLast? = some x) : piece = [x] := by
  have hdot : ofNat 0x307 ∉ markLetters := by decide
  rcases h.shape with rfl | ⟨d, rfl⟩
  · rw [getLast?_cons_cons, getLast?_singleton, Option.some.injEq] at hlast
    exact absurd (hlast ▸ hx) hdot
  · rw [getLast?_singleton, Option.some.injEq] at hlast
    rw [hlast]

end Lowered

def isLetter (x c : Char) : Bool :=
  lowerChars [c] = [x]

def opensMark (c : Char) : Bool :=
  isLetter '@' c

def closesMark (c : Char) : Bool :=
  ['p', 'k', 'r'].any (isLetter · c)

theorem not_closesMark_of_opensMark (h : opensMark c = true) : closesMark c = false := by
  rw [opensMark, isLetter, decide_eq_true_iff] at h
  simp [closesMark, isLetter, h]

theorem lowerChars_pair (a b x : Char) (hx : x ∈ ['p', 'k', 'r']) :
    lowerChars [a, b] = ['@', x] ↔ opensMark a = true ∧ isLetter x b = true := by
  have hletters : '@' ∈ markLetters ∧ x ∈ markLetters := ⟨by decide, mem_cons_of_mem _ hx⟩
  obtain ⟨xs, ys, heq, hxs, hys⟩ := Lowers.split (lowers_lowerFrom [] ([a] ++ [b]))
  rw [singleton_append] at heq
  rw [lowerChars, heq, opensMark, isLetter, isLetter, decide_eq_true_iff, decide_eq_true_iff,
    ← hxs.single.eq_letter_iff hletters.1, ← hys.single.eq_letter_iff hletters.2]
  constructor
  · intro h
    rcases hxs.single.shape with rfl | ⟨d, rfl⟩
    · simp at h
    · simpa using h
  · rintro ⟨rfl, rfl⟩
    rfl

theorem isMark_eq (a b : Char) : isMark a b = (opensMark a && closesMark b) := by
  have hmarks : protectedMarks.map String.toList = ['p', 'k', 'r'].map (['@', ·]) := rfl
  rw [Bool.eq_iff_iff, isMark, hmarks, contains_iff_mem, mem_map, Bool.and_eq_true,
    closesMark, any_eq_true]
  constructor
  · rintro ⟨x, hx, heq⟩
    obtain ⟨ha, hb⟩ := (lowerChars_pair a b x hx).mp heq.symm
    exact ⟨ha, x, hx, hb⟩
  · rintro ⟨ha, x, hx, hb⟩
    exact ⟨x, hx, ((lowerChars_pair a b x hx).mpr ⟨ha, hb⟩).symm⟩

inductive MarkRun : List Char → Prop
  | nil : MarkRun []
  | cons {a b : Char} {rest : List Char} (mark : isMark a b = true) (more : MarkRun rest) :
      MarkRun (a :: b :: rest)

def Apart (front rest : List Char) : Prop :=
  ∀ a ∈ front.getLast?, ∀ b ∈ rest.head?, isMark a b = false

def EndsInMark (text : List Char) : Prop :=
  ∃ front a b, text = front ++ [a, b] ∧ isMark a b = true

namespace MarkRun

theorem append {xs ys : List Char} (hx : MarkRun xs) (hy : MarkRun ys) : MarkRun (xs ++ ys) := by
  induction hx with
  | nil => exact hy
  | cons mark _ ih => exact .cons mark ih

theorem apart (h : MarkRun run) (front : List Char) : Apart front run := by
  -- A run begins with a character that opens a mark, and such a character closes none.
  intro a _ b hb
  cases h with
  | nil => simp at hb
  | @cons c d rest mark _ =>
    rw [head?_cons, Option.mem_some_iff] at hb
    rw [isMark_eq, Bool.and_eq_true] at mark
    rw [isMark_eq, ← hb, not_closesMark_of_opensMark mark.1, Bool.and_false]

end MarkRun

theorem apart_of_not_endsInMark (h : ¬ EndsInMark (front ++ [c])) : Apart front (c :: rest) := by
  intro a ha b hb
  rw [head?_cons, Option.mem_some_iff] at hb
  subst hb
  obtain ⟨front, rfl⟩ := getLast?_eq_some_iff.mp ha
  rw [Bool.eq_false_iff]
  intro hmark
  exact h ⟨front, a, c, by simp, hmark⟩

theorem exists_run (text : List Char) :
    ∃ front run, text = front ++ run ∧ ¬ EndsInMark front ∧ MarkRun run := by
  by_cases h : EndsInMark text
  · obtain ⟨front, a, b, rfl, hmark⟩ := id h
    obtain ⟨front', run, rfl, hfront, hrun⟩ := exists_run front
    exact ⟨front', run ++ [a, b], by simp, hfront, hrun.append (.cons hmark .nil)⟩
  · exact ⟨text, [], by simp, h, .nil⟩
termination_by text.length

def foldedMarks : List (List Char) :=
  protectedMarks.map fun m => folded true m.toList

theorem foldedMarks_eq : foldedMarks = ['p', 'k', 'r'].map (['@', ·]) := rfl

theorem markRun_mark (hx : x ∈ ['p', 'k', 'r']) (fuel : Nat) (rest : List Char) :
    markRun foldedMarks (fuel + 1) (x :: '@' :: rest) = 2 + markRun foldedMarks fuel rest := by
  have hfind : (foldedMarks.find? fun m => !m.isEmpty && m.reverse.isPrefixOf (x :: '@' :: rest)) =
      some ['@', x] := by
    simp only [mem_cons, not_mem_nil, or_false] at hx
    rcases hx with rfl | rfl | rfl <;> rfl
  rw [markRun, hfind]
  rfl

theorem markRun_eq_zero (h : ∀ x ∈ ['p', 'k', 'r'], ¬ [x, '@'] <+: text) (fuel : Nat) :
    markRun foldedMarks fuel text = 0 := by
  cases fuel with
  | zero => rfl
  | succ fuel =>
    have hfind : (foldedMarks.find? fun m => !m.isEmpty && m.reverse.isPrefixOf text) = none := by
      rw [find?_eq_none, foldedMarks_eq]
      intro m hm
      obtain ⟨x, hx, rfl⟩ := mem_map.mp hm
      simpa using h x hx
    rw [markRun, hfind]

theorem MarkRun.found (h : MarkRun run) (hl : Lowers run lower) :
    ∃ k, run.length = 2 * k ∧ lower.length = 2 * k ∧ ∀ fuel rest,
      markRun foldedMarks (fuel + k) (lower.reverse ++ rest) =
        2 * k + markRun foldedMarks fuel rest := by
  induction h generalizing lower with
  | nil =>
    cases hl
    exact ⟨0, rfl, rfl, by simp⟩
  | @cons a b more mark _ ih =>
    obtain ⟨xs, ys, rfl, hxs, hys⟩ := @Lowers.split [a] _ _ hl
    obtain ⟨zs, lower, rfl, hzs, hmore⟩ := @Lowers.split [b] _ _ hys
    obtain ⟨k, hlen, hlower, hrun⟩ := ih hmore
    rw [isMark_eq, Bool.and_eq_true, opensMark, closesMark, any_eq_true] at mark
    obtain ⟨hopen, x, hx, hclose⟩ := mark
    rw [isLetter, decide_eq_true_iff, ← hxs.single.eq_letter_iff (by decide)] at hopen
    rw [isLetter, decide_eq_true_iff, ← hzs.single.eq_letter_iff (mem_cons_of_mem _ hx)] at hclose
    subst hopen hclose
    refine ⟨k + 1, by simp [hlen]; omega, by simp [hlower]; omega, ?_⟩
    intro fuel rest
    calc markRun foldedMarks (fuel + (k + 1)) ((['@'] ++ ([x] ++ lower)).reverse ++ rest)
        = markRun foldedMarks (fuel + 1 + k) (lower.reverse ++ x :: '@' :: rest) := by
          congr 1
          · omega
          · simp
      _ = 2 * k + markRun foldedMarks (fuel + 1) (x :: '@' :: rest) := hrun _ _
      _ = 2 * (k + 1) + markRun foldedMarks fuel rest := by
          rw [markRun_mark hx]
          omega

theorem Lowers.last_letter (hx : x ∈ markLetters) (h : Lowers text (lower ++ [x])) :
    ∃ front c, text = front ++ [c] ∧ isLetter x c = true ∧ Lowers front lower := by
  rcases eq_nil_or_concat text with rfl | ⟨front, c, rfl⟩
  · generalize hl : lower ++ [x] = l at h
    cases h
    simp at hl
  · rw [concat_eq_append] at h ⊢
    obtain ⟨xs, ys, heq, hxs, hys⟩ := h.split
    have hne : ys ≠ [] := by
      rcases hys.single.shape with rfl | ⟨d, rfl⟩ <;> simp
    have hlast : ys.getLast? = some x := by
      rw [← getLast?_append_of_ne_nil xs hne, ← heq, getLast?_concat]
    -- What ends in a letter of a mark is that letter alone.
    have hpiece := hys.single.eq_of_last hx hlast
    subst hpiece
    refine ⟨front, c, rfl, ?_, ?_⟩
    · rw [isLetter, decide_eq_true_iff]
      exact (hys.single.eq_letter_iff hx).mp rfl
    · rwa [append_cancel_right heq]

theorem Lowers.endsInMark (hx : x ∈ ['p', 'k', 'r']) (hl : Lowers text lower)
    (h : ['@', x] <:+ lower) : EndsInMark text := by
  obtain ⟨lower, rfl⟩ := h
  rw [show lower ++ ['@', x] = (lower ++ ['@']) ++ [x] by simp] at hl
  obtain ⟨front, b, rfl, hb, hfront⟩ := hl.last_letter (mem_cons_of_mem _ hx)
  obtain ⟨front, a, rfl, ha, -⟩ := hfront.last_letter (by decide)
  refine ⟨front, a, b, by simp, ?_⟩
  rw [isMark_eq, Bool.and_eq_true, closesMark, any_eq_true]
  exact ⟨ha, x, hx, hb⟩

theorem trailingRun_eq (hfront : ¬ EndsInMark front) (hrun : MarkRun run) :
    trailingRun protectedMarks true (front ++ run) = run.length := by
  obtain ⟨xs, ys, hlower, hxs, hys⟩ := Lowers.split (lowers_lowerFrom [] (front ++ run))
  obtain ⟨k, hlen, hfound, hmarks⟩ := hrun.found hys
  have hfolded : folded true (front ++ run) = xs ++ ys := hlower
  have hfuel : (xs ++ ys).length = (xs.length + k) + k := by
    rw [length_append, hfound]
    omega
  have hrest : markRun foldedMarks (xs.length + k) xs.reverse = 0 := by
    apply markRun_eq_zero
    intro x hx hprefix
    exact hfront (hxs.endsInMark hx ( reverse_prefix.mp hprefix))
  calc trailingRun protectedMarks true (front ++ run)
      = markRun foldedMarks (xs ++ ys).length (xs ++ ys).reverse := by
        rw [trailingRun, hfolded]
        rfl
    _ = 2 * k + markRun foldedMarks (xs.length + k) xs.reverse := by
        rw [hfuel, reverse_append, hmarks]
    _ = run.length := by rw [hrest, hlen, Nat.add_zero]

theorem cutOne?_run (hrun : MarkRun run) (hne : run ≠ []) :
    cutOne? protectedMarks true run = none := by
  have hempty : ¬ EndsInMark [] := by
    rintro ⟨front, a, b, heq, -⟩
    simp at heq
  have hlen := trailingRun_eq hempty hrun
  rw [nil_append] at hlen
  rw [cutOne?, hlen, cutBefore.eq_def]
  split
  · next hzero => exact absurd (length_eq_zero_iff.mp hzero) hne
  · rw [if_pos (Nat.le_refl _)]

theorem cutOne?_before (hfront : ¬ EndsInMark (front ++ [c])) (hrun : MarkRun run) :
    cutOne? protectedMarks true (front ++ c :: run) = some (front ++ run) := by
  have hlen := trailingRun_eq hfront hrun
  rw [append_assoc, singleton_append] at hlen
  rw [cutOne?, hlen, cutBefore.eq_def]
  split
  · next hzero =>
    rw [length_eq_zero_iff.mp hzero, append_nil, dropLast_concat]
  · have hplace : (front ++ c :: run).length - run.length - 1 = front.length := by
      rw [length_append, length_cons]
      omega
    rw [if_neg (by rw [length_append, length_cons]; omega), hplace,
      eraseIdx_append_of_length_le (Nat.le_refl _), Nat.sub_self, eraseIdx_zero,
      tail_cons]

namespace Apart

variable {front rest : List Char} {c : Char}

theorem tail (h : Apart (c :: front) rest) : Apart front rest := by
  intro a ha b hb
  refine h a ?_ b hb
  rw [getLast?_cons, ha]
  rfl

theorem next (h : Apart (c :: front) rest) :
    (front ++ rest).head?.filter (isMark c ·) = front.head?.filter (isMark c ·) := by
  cases front with
  | cons d front => rfl
  | nil =>
    rw [nil_append, head?_nil, Option.filter_none, Option.filter_eq_none_iff]
    intro d hd
    rw [h c rfl d hd]
    exact Bool.false_ne_true

end Apart

theorem flagsFrom_append (h : Apart front rest) (before : Option Char) :
    flagsFrom before (front ++ rest) =
      flagsFrom before front ++ flagsFrom (front.getLast?.or before) rest := by
  induction front generalizing before with
  | nil => rfl
  | cons c front ih =>
    have hlast : (c :: front).getLast?.or before = front.getLast?.or (some c) := by
      rw [getLast?_cons]
      cases front.getLast? <;> rfl
    have hnext : (front ++ rest).head?.any (isMark c ·) = front.head?.any (isMark c ·) := by
      rw [← Option.isSome_filter, h.next, Option.isSome_filter]
    rw [cons_append, flagsFrom, flagsFrom, hnext, ih h.tail, hlast, cons_append]

theorem MarkRun.flags (h : MarkRun run) (before : Option Char) :
    flagsFrom before run = run.map (·, true) := by
  induction h generalizing before with
  | nil => rfl
  | cons mark _ ih => simp [flagsFrom, mark, ih]

theorem flagged_append_run (hrun : MarkRun run) :
    flagged (front ++ run) = flagged front ++ run.map (·, true) := by
  rw [flagged, flagsFrom_append (hrun.apart front), hrun.flags]
  rfl

theorem flagged_before (hfront : ¬ EndsInMark (front ++ [c])) (hrun : MarkRun run) :
    flagged (front ++ c :: run) = flagged front ++ (c, false) :: run.map (·, true) := by
  have hapart : Apart front (c :: run) := apart_of_not_endsInMark hfront
  have hbefore : (front.getLast?.or none).any (isMark · c) = false := by
    cases hl : front.getLast? with
    | none => rfl
    | some a => exact hapart a hl c rfl
  have hbehind : run.head?.any (isMark c ·) = false := by
    cases hr : run.head? with
    | none => rfl
    | some b => exact hrun.apart [c] c rfl b hr
  rw [flagged, flagsFrom_append hapart, flagsFrom, hbefore, hbehind, hrun.flags]
  rfl

theorem marksIn_cons (c : Char) (text : List Char) :
    marksIn (c :: text) = ((text.head?.filter (isMark c ·)).map (c, ·)).toList ++ marksIn text := by
  cases text with
  | nil => rfl
  | cons d text =>
    by_cases h : isMark c d = true
    · simp [marksIn, Option.filter, h]
    · simp [marksIn, Option.filter, h]

theorem marksIn_append (h : Apart front rest) :
    marksIn (front ++ rest) = marksIn front ++ marksIn rest := by
  induction front with
  | nil => rfl
  | cons c front ih =>
    rw [cons_append, marksIn_cons, marksIn_cons, h.next, ih h.tail, append_assoc]

theorem marksIn_before (hfront : ¬ EndsInMark (front ++ [c])) (hrun : MarkRun run) :
    marksIn (front ++ c :: run) = marksIn (front ++ run) := by
  calc marksIn (front ++ c :: run) = marksIn front ++ marksIn ([c] ++ run) :=
        marksIn_append (apart_of_not_endsInMark hfront)
    _ = marksIn front ++ marksIn run := by
        rw [marksIn_append (hrun.apart [c])]
        rfl
    _ = marksIn (front ++ run) := (marksIn_append (hrun.apart front)).symm

theorem map_fst_flagged (text : List Char) : (flagged text).map (·.1) = text := by
  have hfrom : ∀ before, (flagsFrom before text).map (·.1) = text := by
    induction text with
    | nil => intro before; rfl
    | cons c rest ih => intro before; rw [flagsFrom, map_cons, ih]
  exact hfrom none

theorem withoutLast_zero (flags : List (Char × Bool)) : withoutLast 0 flags = flags.map (·.1) := by
  induction flags with
  | nil => rfl
  | cons entry rest ih => simp [withoutLast, ih]

theorem freeCount_run (run : List Char) : freeCount (run.map (·, true)) = 0 := by
  simp [freeCount]

theorem withoutLast_run (m : Nat) (run : List Char) : withoutLast m (run.map (·, true)) = run := by
  induction run with
  | nil => rfl
  | cons c run ih => simp [withoutLast, ih]

theorem freeCount_before (flags : List (Char × Bool)) (c : Char) (run : List Char) :
    freeCount (flags ++ (c, false) :: run.map (·, true)) =
      freeCount (flags ++ run.map (·, true)) + 1 := by
  simp [freeCount, Nat.add_assoc]

theorem withoutLast_before (m : Nat) (flags : List (Char × Bool)) (c : Char) (run : List Char) :
    withoutLast (m + 1) (flags ++ (c, false) :: run.map (·, true)) =
      withoutLast m (flags ++ run.map (·, true)) := by
  induction flags with
  | nil =>
    rw [nil_append, nil_append, withoutLast, freeCount_run, withoutLast_run, withoutLast_run]
    simp
  | cons entry flags ih =>
    simp only [cons_append, withoutLast, ih, freeCount_before, Nat.add_le_add_iff_right]

theorem shielded_before (flags : List (Char × Bool)) (c : Char) (run : List Char) :
    shielded (flags ++ (c, false) :: run.map (·, true)) =
      shielded (flags ++ run.map (·, true)) := by
  simp [shielded]

theorem MarkRun.shielded_eq (h : MarkRun run) : shielded (flagged run) = run := by
  rw [flagged, h.flags]
  simp [shielded, filter_map, Function.comp_def]

theorem span_shielded_le (flags : List (Char × Bool)) :
    span (shielded flags) ≤ span (flags.map (·.1)) := by
  induction flags with
  | nil => exact Nat.le_refl 0
  | cons entry rest ih =>
    obtain ⟨c, flag⟩ := entry
    rw [shielded] at ih ⊢
    cases flag with
    | true =>
      rw [filter_cons_of_pos rfl, map_cons, map_cons, span, span]
      omega
    | false =>
      rw [filter_cons_of_neg Bool.false_ne_true, map_cons, span]
      omega

/-- A text cut to a limit: its last `m` unprotected characters are gone, and no fewer would do. -/
structure CutTo (limit : Nat) (text result : List Char) (m : Nat) : Prop where
  result_eq : result = withoutLast m (flagged text)
  removed : m ≤ freeCount (flagged text)
  fits : span result ≤ limit
  least : ∀ k < m, limit < span (withoutLast k (flagged text))
  marks : marksIn result = marksIn text

namespace CutTo

variable {limit : Nat}

theorem refl (h : span text ≤ limit) : CutTo limit text text 0 where
  result_eq := by rw [withoutLast_zero, map_fst_flagged]
  removed := Nat.zero_le _
  fits := h
  least := by simp
  marks := rfl

theorem before {result : List Char} {m : Nat} (hfront : ¬ EndsInMark (front ++ [c]))
    (hrun : MarkRun run) (hwide : limit < span (front ++ c :: run))
    (h : CutTo limit (front ++ run) result m) : CutTo limit (front ++ c :: run) result (m + 1) where
  result_eq := by
    rw [flagged_before hfront hrun, withoutLast_before, ← flagged_append_run hrun]
    exact h.result_eq
  removed := by
    have := h.removed
    rw [flagged_append_run hrun] at this
    rw [flagged_before hfront hrun, freeCount_before]
    omega
  fits := h.fits
  least := by
    intro k hk
    cases k with
    | zero => rwa [withoutLast_zero, map_fst_flagged]
    | succ k =>
      rw [flagged_before hfront hrun, withoutLast_before, ← flagged_append_run hrun]
      exact h.least k (by omega)
  marks := h.marks.trans (marksIn_before hfront hrun).symm

end CutTo

/-- How the truncation of a text to a limit ends. -/
inductive Truncates (limit : Nat) (text : List Char) : Except Fault (List Char) → Prop
  | refused (wide : limit < span (shielded (flagged text))) :
      Truncates limit text (.error (.refused .onlyTokensLeft))
  | cut {result : List Char} {m : Nat} (room : span (shielded (flagged text)) ≤ limit)
      (here : CutTo limit text result m) : Truncates limit text (.ok result)

namespace Truncates

variable {limit : Nat}

theorem fits (h : span text ≤ limit) : Truncates limit text (.ok text) := by
  have hle := span_shielded_le (flagged text)
  rw [map_fst_flagged] at hle
  exact .cut (by omega) (.refl h)

theorem before {result : Except Fault (List Char)} (hfront : ¬ EndsInMark (front ++ [c]))
    (hrun : MarkRun run) (hwide : limit < span (front ++ c :: run))
    (h : Truncates limit (front ++ run) result) : Truncates limit (front ++ c :: run) result := by
  have hshielded : shielded (flagged (front ++ c :: run)) = shielded (flagged (front ++ run)) := by
    rw [flagged_before hfront hrun, flagged_append_run hrun, shielded_before]
  cases h with
  | refused wide => exact .refused (by rwa [hshielded])
  | cut room here => exact .cut (by rwa [hshielded]) (here.before hfront hrun hwide)

end Truncates

section
variable {limit : Limit} {text : List Char} {shorter : List Char}

theorem cutDown_fits (h : limit.isExceededBy (span text) = false) (fuel : Nat) :
    cutDown limit protectedMarks true fuel text = .ok text := by
  rw [cutDown.eq_def]
  dsimp only
  rw [h]
  rfl

variable (h : limit.isExceededBy (span text) = true)
include h

theorem cutDown_stuck (hcut : cutOne? protectedMarks true text = none) (fuel : Nat) :
    cutDown limit protectedMarks true fuel text = .error (.refused .onlyTokensLeft) := by
  rw [cutDown.eq_def]
  dsimp only
  rw [h, hcut]
  rfl

theorem cutDown_spent (hcut : cutOne? protectedMarks true text = some shorter) :
    cutDown limit protectedMarks true 0 text = .error .endless := by
  rw [cutDown.eq_def]
  dsimp only
  rw [h, hcut]
  rfl

theorem cutDown_step (hcut : cutOne? protectedMarks true text = some shorter) (fuel : Nat) :
    cutDown limit protectedMarks true (fuel + 1) text =
      cutDown limit protectedMarks true fuel shorter := by
  rw [cutDown.eq_def]
  dsimp only
  rw [h, hcut]
  rfl

end

theorem cutDown_truncates (limit fuel : Nat) (text : List Char) (hfuel : text.length ≤ fuel) :
    Truncates limit text (cutDown (.whole limit) protectedMarks true fuel text) := by
  have hexceeded : ∀ text, (Limit.whole limit).isExceededBy (span text) =
      decide (limit < span text) := by
    intro text
    rw [Limit.isExceededBy_whole, decide_eq_decide, Int.ofNat_lt]
  have hshort : ∀ (fuel : Nat) {text : List Char}, span text ≤ limit →
      Truncates limit text (cutDown (.whole limit) protectedMarks true fuel text) := by
    intro fuel text hfits
    rw [cutDown_fits (by rw [hexceeded, decide_eq_false (by omega)])]
    exact .fits hfits
  -- Each cut takes one character, so as many cuts as there are characters are enough.
  induction fuel generalizing text with
  | zero =>
    apply hshort
    rw [length_eq_zero_iff.mp (Nat.le_zero.mp hfuel)]
    exact Nat.zero_le limit
  | succ fuel ih =>
    by_cases hfits : span text ≤ limit
    · exact hshort _ hfits
    · have hwide : limit < span text := Nat.lt_of_not_le hfits
      have hbeyond : (Limit.whole limit).isExceededBy (span text) = true := by
        rw [hexceeded, decide_eq_true hwide]
      obtain ⟨front, run, rfl, hfront, hrun⟩ := exists_run text
      rcases eq_nil_or_concat front with rfl | ⟨front, c, rfl⟩
      · -- Only marks are left.
        have hne : run ≠ [] := by
          rintro rfl
          exact absurd hwide (Nat.not_lt_zero limit)
        rw [cutDown_stuck hbeyond (cutOne?_run hrun hne)]
        exact .refused (by rwa [nil_append, hrun.shielded_eq])
      · rw [concat_eq_append] at hfront
        rw [concat_eq_append, append_assoc, singleton_append] at hfuel hwide hbeyond ⊢
        -- The character in front of the marks goes, and what is left has the same protected ones.
        rw [cutDown_step hbeyond (cutOne?_before hfront hrun)]
        refine .before hfront hrun hwide (ih (front ++ run) ?_)
        rw [length_append, length_cons] at hfuel
        rw [length_append]
        omega

theorem truncateValue_str (s : String) (limit : Limit) :
    truncateValue limit (.ofTexts protectedMarks) true (.str s) =
      (cutDown limit protectedMarks true s.toList.length s.toList).map
        fun short => .str (String.ofList short) := by
  have htexts : (GivenMarks.ofTexts protectedMarks).texts = protectedMarks := rfl
  have hrun : (GivenMarks.ofTexts protectedMarks).runAt true (.plain (.str s)) =
      .ok (trailingRun protectedMarks true s.toList) := rfl
  rw [truncateValue, hrun, htexts, truncate]
  cases cutDown limit protectedMarks true s.toList.length s.toList <;> split <;> rfl

/-- Truncation with protected marks is refused exactly if the protected characters alone are beyond
the limit. Otherwise it takes away the fewest unprotected characters from the end that make the text
fit, and the marks are the same as before. -/
theorem truncateValue_exact (s : String) (limit : Nat) :
    if limit < span (shielded (flagged s.toList)) then
      truncateValue (.whole limit) (.ofTexts protectedMarks) true (.str s) =
        .error (.refused .onlyTokensLeft)
    else ∃ r m, truncateValue (.whole limit) (.ofTexts protectedMarks) true (.str s) =
        .ok (.str r) ∧ CutTo limit s.toList r.toList m := by
  have h := cutDown_truncates limit s.toList.length s.toList (Nat.le_refl _)
  rw [truncateValue_str]
  generalize cutDown (.whole limit) protectedMarks true s.toList.length s.toList = result at h
  cases h with
  | refused wide => rw [if_pos wide]; rfl
  | @cut short m room here =>
    rw [if_neg (Nat.not_lt.mpr room)]
    exact ⟨String.ofList short, m, rfl, by rwa [String.toList_ofList]⟩

example : withoutLast 3 (flagged "ab@Rcd@k".toList) = "a@R@k".toList := by
  decide

end SceneText.Layout
