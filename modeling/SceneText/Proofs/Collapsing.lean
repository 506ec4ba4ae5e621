import Mathlib.Data.List.SplitBy
import SceneText.Proofs.Shortening

/-!
# Doubled signs are merged

A doubled sign is replaced by the single one for as long as it occurs. Occurrences do not overlap,
so a round leaves about half of a run of the sign, and one more sign where the run is of odd length.
Every round with an occurrence makes the text shorter, which ends the rounds. None of them joins or
separates runs, and where the doubled sign occurs no more every run is a single sign.
-/

namespace SceneText.Layout

open List Text

variable {double single text result : List Char} {c d : Char}

/-- Replacing for as long as there is something to replace ends with a result. -/
inductive Collapses (double single : List Char) : List Char → List Char → Prop
  | done {text : List Char} (absent : occurs double text = false) :
      Collapses double single text text
  | again {text result : List Char} (present : occurs double text = true)
      (rest : Collapses double single (replaceAll double single text) result) :
      Collapses double single text result

theorem length_replaceFrom_lt (h : single.length < double.length)
    (hoccurs : occurs double text = true) :
    (replaceFrom double single 0 text).length < text.length := by
  have hdouble : double ≠ [] := ne_nil_of_length_pos (by omega)
  induction text with
  | nil => exact absurd (List.isEmpty_iff.mp hoccurs) hdouble
  | cons c rest ih =>
    rw [replaceFrom]
    by_cases hfront : double.isPrefixOf (c :: rest) = true
    · rw [if_pos hfront, length_append, length_cons]
      have hrest := @length_replaceFrom double single .chars hdouble (Nat.le_of_lt h)
        (double.length - 1) rest
      have hlen := ( List.isPrefixOf_iff_prefix.mp hfront).length_le
      have htake : (rest.take (double.length - 1)).length = double.length - 1 := by
        rw [length_take]
        rw [length_cons] at hlen
        omega
      simp only [Measure.length, htake] at hrest
      omega
    · rw [if_neg hfront, length_cons, length_cons]
      have hrest := ih (by simpa [occurs, hfront] using hoccurs)
      omega

theorem length_replaceAll_lt (h : single.length < double.length)
    (hoccurs : occurs double text = true) :
    (replaceAll double single text).length < text.length := by
  have hdouble : ¬ double.isEmpty = true := by
    rw [List.isEmpty_iff, ← length_eq_zero_iff]
    omega
  rw [replaceAll, if_neg hdouble]
  exact length_replaceFrom_lt h hoccurs

theorem collapses_collapseWith (h : single.length < double.length) (fuel : Nat) (text : List Char)
    (hfuel : text.length ≤ fuel) :
    Collapses double single text (collapseWith double single fuel text) := by
  induction fuel generalizing text with
  | zero =>
    obtain rfl : text = [] := length_eq_zero_iff.mp (by omega)
    have hdouble : double ≠ [] := ne_nil_of_length_pos (by omega)
    exact .done (by simpa [occurs] using hdouble)
  | succ fuel ih =>
    rw [collapseWith]
    by_cases hoccurs : occurs double text = true
    · rw [if_pos hoccurs]
      have hlt := length_replaceAll_lt h hoccurs
      exact .again hoccurs (ih _ (by omega))
    · rw [if_neg hoccurs]
      exact .done (Bool.eq_false_iff.mpr hoccurs)

theorem collapses_collapse (h : single.length < double.length) (text : List Char) :
    Collapses double single text (collapse double single text) :=
  collapses_collapseWith h text.length text (Nat.le_refl _)

/-- The text in which every run of `c` is a single `c`, and all else is as it was. -/
def merged (c : Char) (text : List Char) : List Char :=
  (text.splitBy (· == ·)).flatMap fun run => if c ∈ run then [c] else run

theorem splitBy_repeated (d : Char) (rest : List Char) :
    ∃ run runs, (d :: rest).splitBy (· == ·) = (d :: run) :: runs ∧ (∀ e ∈ run, e = d) ∧
      (d :: d :: rest).splitBy (· == ·) = (d :: d :: run) :: runs := by
  obtain ⟨first, runs, hsplit⟩ := exists_cons_of_ne_nil
    (splitBy_ne_nil (r := (· == ·)).mpr (cons_ne_nil d rest))
  obtain ⟨hflat, hnil, hchains, hapart⟩ := splitBy_eq_iff.mp hsplit
  obtain ⟨e, run, rfl⟩ := exists_cons_of_ne_nil fun h => hnil (h ▸ mem_cons_self)
  obtain ⟨rfl, hrest⟩ := cons.inj hflat
  have hchain : (d :: run).IsChain fun x y => (x == y) = true := hchains _ mem_cons_self
  refine ⟨run, runs, hsplit, ?_, splitBy_eq_iff.mpr ⟨?_, ?_, ?_, ?_⟩⟩
  · intro e he
    have hpairs := hchain.imp (S := Eq) fun _ _ h => eq_of_beq h
    rw [isChain_iff_pairwise, pairwise_cons] at hpairs
    exact (hpairs.1 e he).symm
  · rw [hrest]
    rfl
  · simpa using hnil
  · intro m hm
    rcases mem_cons.mp hm with rfl | hm
    · exact isChain_cons_cons.mpr ⟨beq_self_eq_true d, hchain⟩
    · exact hchains m (mem_cons_of_mem _ hm)
  · rw [isChain_cons] at hapart ⊢
    refine ⟨fun next hnext => ?_, hapart.2⟩
    obtain ⟨hne, hne', hlast⟩ := hapart.1 next hnext
    exact ⟨by simp, hne', by rwa [getLast_cons hne]⟩

theorem splitBy_apart (h : d ≠ c) (rest : List Char) :
    (d :: c :: rest).splitBy (· == ·) = [d] :: (c :: rest).splitBy (· == ·) :=
  splitBy_append_cons (l := [d]) rest (by simpa using h)

theorem merged_cons (c d : Char) (text : List Char) :
    merged c (d :: text) =
      if d = c ∧ text.head? = some c then merged c text else d :: merged c text := by
  cases text with
  | nil => simp [merged, splitBy, splitBy.loop]
  | cons e rest =>
    by_cases he : d = e
    · subst he
      obtain ⟨run, runs, hsplit, hrun, hmore⟩ := splitBy_repeated d rest
      rw [merged, merged, hsplit, hmore, flatMap_cons, flatMap_cons]
      by_cases hc : d = c
      · simp [hc]
      · have hout : c ≠ d ∧ c ∉ run := ⟨Ne.symm hc, fun hmem => hc (hrun c hmem).symm⟩
        simp [hout, hc]
    · have hne : ¬ (d = c ∧ (e :: rest).head? = some c) := fun h =>
        he (h.1.trans (Option.some.inj h.2).symm)
      rw [merged, splitBy_apart he, flatMap_cons, if_neg hne]
      by_cases hc : c = d
      · simp [hc, merged]
      · simp [hc, merged]

theorem merged_cons_congr {xs ys : List Char} (hhead : xs.head? = ys.head?)
    (h : merged c xs = merged c ys) : merged c (d :: xs) = merged c (d :: ys) := by
  rw [merged_cons, merged_cons, hhead, h]

theorem replaceFrom_double (c : Char) (rest : List Char) :
    replaceFrom [c, c] [c] 0 (c :: c :: rest) = c :: replaceFrom [c, c] [c] 0 rest := by
  simp [replaceFrom, List.isPrefixOf]

theorem replaceFrom_other (h : ¬ [c, c] <+: d :: text) :
    replaceFrom [c, c] [c] 0 (d :: text) = d :: replaceFrom [c, c] [c] 0 text := by
  rw [replaceFrom, if_neg (by rwa [ List.isPrefixOf_iff_prefix])]

theorem head_replaceFrom (c : Char) (text : List Char) :
    (replaceFrom [c, c] [c] 0 text).head? = text.head? := by
  cases text with
  | nil => rfl
  | cons d rest =>
    by_cases hfront : [c, c] <+: d :: rest
    · obtain ⟨behind, hbehind⟩ := hfront
      rw [cons_append, cons_append, nil_append] at hbehind
      rw [← hbehind, replaceFrom_double, head?_cons, head?_cons]
    · rw [replaceFrom_other hfront]
      rfl

theorem merged_replaceFrom (c : Char) (text : List Char) :
    merged c (replaceFrom [c, c] [c] 0 text) = merged c text := by
  induction hlen : text.length using Nat.strongRecOn generalizing text with
  | ind n ih =>
    cases text with
    | nil => rfl
    | cons d rest =>
      by_cases hfront : [c, c] <+: d :: rest
      · obtain ⟨behind, hbehind⟩ := hfront
        rw [cons_append, cons_append, nil_append] at hbehind
        rw [← hbehind] at hlen ⊢
        rw [length_cons, length_cons] at hlen
        rw [replaceFrom_double, merged_cons c c (c :: behind), if_pos ⟨rfl, rfl⟩]
        exact merged_cons_congr (head_replaceFrom c behind) (ih behind.length (by omega) behind rfl)
      · rw [length_cons] at hlen
        rw [replaceFrom_other hfront]
        exact merged_cons_congr (head_replaceFrom c rest) (ih rest.length (by omega) rest rfl)

theorem merged_of_absent (h : occurs [c, c] text = false) : merged c text = text := by
  induction text with
  | nil => rfl
  | cons d rest ih =>
    rw [occurs, Bool.or_eq_false_iff] at h
    rw [merged_cons, if_neg, ih h.2]
    rintro ⟨rfl, hhead⟩
    obtain ⟨behind, rfl⟩ := head?_eq_some_iff.mp hhead
    simp [List.isPrefixOf] at h

theorem Collapses.eq_merged (h : Collapses [c, c] [c] text result) : result = merged c text := by
  induction h with
  | done absent => exact (merged_of_absent absent).symm
  | again _ _ ih => exact ih.trans (merged_replaceFrom c _)

theorem doubledSigns_double : ∀ pair ∈ doubledSigns, ∃ c : Char,
    pair.1.toList = [c, c] ∧ pair.2.toList = [c] := by
  simp [doubledSigns]

/-- Replacing a doubled sign by the single one for as long as it occurs comes to an end on every
text, with the text in which every run of the sign is a single one. -/
theorem collapse_merges {pair : String × String} (hpair : pair ∈ doubledSigns) (text : List Char) :
    ∃ c, pair.1.toList = [c, c] ∧ pair.2.toList = [c] ∧
      (∀ result, Collapses pair.1.toList pair.2.toList text result ↔ result = merged c text) ∧
      collapse pair.1.toList pair.2.toList text = merged c text := by
  obtain ⟨c, hdouble, hsingle⟩ := doubledSigns_double pair hpair
  rw [hdouble, hsingle]
  have hends : Collapses [c, c] [c] text (collapse [c, c] [c] text) :=
    collapses_collapse (by simp) text
  refine ⟨c, rfl, rfl, fun result => ⟨Collapses.eq_merged, ?_⟩, hends.eq_merged⟩
  rintro rfl
  rwa [hends.eq_merged] at hends

theorem collapse_merges_dashes :
    ("――", "―") ∈ doubledSigns ∧
      collapse "――".toList "―".toList "―――a―――――b―c――".toList = "―a―b―c―".toList := by
  have hpair : ("――", "―") ∈ doubledSigns := by decide
  obtain ⟨c, -, hsingle, -, heq⟩ := collapse_merges hpair "―――a―――――b―c――".toList
  obtain rfl : c = '―' := (cons.inj hsingle).1.symm
  exact ⟨hpair, heq.trans (by decide)⟩

end SceneText.Layout
