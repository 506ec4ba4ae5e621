import Mathlib.Data.List.Infix
import SceneText.Entry.Preparation
import SceneText.Proofs.Lists

/-!
# Brackets inside brackets

A closing bracket pairs with the bracket that was opened last and is still open. The brackets that
become white are the two ends of every pair that was opened inside another open bracket, and
nothing else changes. A bracket that is never closed lets all later pairs count as inner ones, and
is itself left as it is. What is open in the whitened text is what was open before, less the white
brackets, so that none of its pairs is opened inside another.
-/

namespace SceneText.Entry

open List Json String

variable {text : List Char}

def openBefore (text : List Char) : Nat → List Nat
  | 0 => []
  | i + 1 =>
    if text[i]? = some '「' then i :: openBefore text i
    else if text[i]? = some '」' then (openBefore text i).tail
    else openBefore text i

/-- A pair of brackets that was opened while another bracket was open. -/
structure InnerPair (text : List Char) (start stop : Nat) : Prop where
  closed : text[stop]? = some '」'
  last : (openBefore text stop).head? = some start
  inside : openBefore text start ≠ []

def IsInnerEnd (text : List Char) (i : Nat) : Prop :=
  ∃ start stop, InnerPair text start stop ∧ (i = start ∨ i = stop)

section
variable {text : List Char} {i j start stop : Nat} {below : List Nat}

theorem openBefore_opening (h : text[i]? = some '「') :
    openBefore text (i + 1) = i :: openBefore text i := by
  rw [openBefore, if_pos h]

theorem openBefore_closing (h : text[i]? = some '」') :
    openBefore text (i + 1) = (openBefore text i).tail := by
  rw [openBefore, h, if_neg (by decide), if_pos rfl]

theorem openBefore_other (hopening : text[i]? ≠ some '「') (hclosing : text[i]? ≠ some '」') :
    openBefore text (i + 1) = openBefore text i := by
  rw [openBefore, if_neg hopening, if_neg hclosing]

theorem openBefore_below {above : List Nat} (h : openBefore text i = above ++ j :: below) :
    text[j]? = some '「' ∧ below = openBefore text j := by
  induction i generalizing above with
  | zero => simp [openBefore] at h
  | succ i ih =>
    by_cases hopening : text[i]? = some '「'
    · rw [openBefore_opening hopening] at h
      cases above with
      | nil =>
        obtain ⟨rfl, rfl⟩ := h
        exact ⟨hopening, rfl⟩
      | cons k above =>
        rw [cons_append, List.cons.injEq] at h
        exact ih h.2
    · by_cases hclosing : text[i]? = some '」'
      · rw [openBefore_closing hclosing] at h
        cases hstack : openBefore text i with
        | nil => simp [hstack] at h
        | cons k stack =>
          rw [hstack, tail_cons] at h
          have hdeeper : openBefore text i = (k :: above) ++ j :: below := by rw [hstack, h]; rfl
          exact ih hdeeper
      · rw [openBefore_other hopening hclosing] at h
        exact ih h

theorem openBefore_last (h : openBefore text i = j :: below) :
    text[j]? = some '「' ∧ below = openBefore text j := by
  have hnone : openBefore text i = [] ++ j :: below := h
  exact openBefore_below hnone

theorem innerPair_iff :
    InnerPair text start stop ↔
      text[stop]? = some '」' ∧ ∃ next below, openBefore text stop = start :: next :: below := by
  constructor
  · rintro ⟨hclosed, hlast, hinside⟩
    obtain ⟨below, hbelow⟩ := head?_eq_some_iff.mp hlast
    have hsame := (openBefore_last hbelow).2
    rw [← hsame] at hinside
    obtain ⟨next, below, rfl⟩ := exists_cons_of_ne_nil hinside
    exact ⟨hclosed, next, below, hbelow⟩
  · rintro ⟨hclosed, next, below, hbelow⟩
    refine ⟨hclosed, by rw [hbelow]; rfl, ?_⟩
    rw [← (openBefore_last hbelow).2]
    exact cons_ne_nil next below

theorem InnerPair.opened (h : InnerPair text start stop) : text[start]? = some '「' := by
  obtain ⟨below, hbelow⟩ := head?_eq_some_iff.mp h.last
  exact (openBefore_last hbelow).1

end

def IsInnerEndFrom (text : List Char) (i p : Nat) : Prop :=
  ∃ start stop, i ≤ stop ∧ InnerPair text start stop ∧ (p = start ∨ p = stop)

section
variable {text : List Char} {i p : Nat}

theorem isInnerEndFrom_next :
    IsInnerEndFrom text i p ↔
      (∃ start, InnerPair text start i ∧ (p = start ∨ p = i)) ∨ IsInnerEndFrom text (i + 1) p := by
  constructor
  · rintro ⟨start, stop, hle, hpair, hp⟩
    rcases Nat.lt_or_eq_of_le hle with hlt | rfl
    · exact .inr ⟨start, stop, hlt, hpair, hp⟩
    · exact .inl ⟨start, hpair, hp⟩
  · rintro (⟨start, hpair, hp⟩ | ⟨start, stop, hlt, hpair, hp⟩)
    · exact ⟨start, i, Nat.le_refl i, hpair, hp⟩
    · exact ⟨start, stop, Nat.le_of_lt hlt, hpair, hp⟩

theorem isInnerEndFrom_skip (h : ∀ start, ¬ InnerPair text start i) :
    IsInnerEndFrom text i p ↔ IsInnerEndFrom text (i + 1) p := by
  rw [isInnerEndFrom_next]
  constructor
  · rintro (⟨start, hpair, -⟩ | hmore)
    · exact absurd hpair (h start)
    · exact hmore
  · exact .inr

section
variable (i : Nat) (stack : List Nat) (rest : List Char)

theorem innerPlaces_opening :
    innerPlaces i stack ('「' :: rest) = innerPlaces (i + 1) (i :: stack) rest := by
  rfl

theorem innerPlaces_outer (h : stack.length ≤ 1) :
    innerPlaces i stack ('」' :: rest) = innerPlaces (i + 1) stack.tail rest := by
  cases stack with
  | nil => rfl
  | cons start below =>
    obtain rfl : below = [] := eq_nil_of_length_eq_zero (by simpa using h)
    rfl

theorem innerPlaces_inner (start next : Nat) :
    innerPlaces i (start :: next :: stack) ('」' :: rest) =
      start :: i :: innerPlaces (i + 1) (next :: stack) rest := by
  rfl

theorem innerPlaces_other {c : Char} (hopening : c ≠ '「') (hclosing : c ≠ '」') :
    innerPlaces i stack (c :: rest) = innerPlaces (i + 1) stack rest := by
  rw [innerPlaces.eq_def]
  dsimp only
  rw [if_neg hopening, if_neg hclosing]

end

theorem mem_innerPlaces (text : List Char) {rest : List Char} (h : text.drop i = rest) :
    p ∈ innerPlaces i (openBefore text i) rest ↔ IsInnerEndFrom text i p := by
  induction rest generalizing i with
  | nil =>
    constructor
    · exact fun hmem => absurd hmem not_mem_nil
    · rintro ⟨start, stop, hle, hpair, -⟩
      have hend : text[stop]? = none := getElem?_eq_none (Nat.le_trans (drop_eq_nil_iff.mp h) hle)
      rw [hpair.closed] at hend
      cases hend
  | cons c rest ih =>
    have hc : text[i]? = some c := by rw [← head?_drop, h]; rfl
    have hrest := ih (i := i + 1) (by rw [← tail_drop, h]; rfl)
    by_cases hclosing : c = '」'
    · subst hclosing
      have hpair : ∀ start, InnerPair text start i ↔
          ∃ next below, openBefore text i = start :: next :: below := by
        intro start
        rw [innerPair_iff, hc]
        exact and_iff_right rfl
      rw [openBefore_closing hc] at hrest
      rcases hstack : openBefore text i with _ | ⟨start, _ | ⟨next, below⟩⟩
      · rw [innerPlaces_outer _ _ _ (by simp), isInnerEndFrom_skip (by simp [hpair, hstack]),
          ← hrest, hstack]
      · rw [innerPlaces_outer _ _ _ (by simp), isInnerEndFrom_skip (by simp [hpair, hstack]),
          ← hrest, hstack]
      · rw [innerPlaces_inner, mem_cons, mem_cons, isInnerEndFrom_next, ← hrest, hstack]
        simp [hpair, hstack, or_assoc]
    · have hno : ∀ start, ¬ InnerPair text start i := by
        intro start hpair
        rw [hpair.closed] at hc
        exact hclosing (Option.some.inj hc).symm
      rw [isInnerEndFrom_skip hno, ← hrest]
      by_cases hopening : c = '「'
      · rw [hopening, innerPlaces_opening, openBefore_opening (hopening ▸ hc)]
      · rw [innerPlaces_other _ _ _ hopening hclosing, openBefore_other]
        · simpa [hc] using hopening
        · simpa [hc] using hclosing

theorem isInnerEnd_iff : IsInnerEnd text p ↔ p ∈ innerPlaces 0 [] text := by
  have hall := mem_innerPlaces (i := 0) (p := p) text drop_zero
  rw [openBefore] at hall
  rw [hall]
  constructor
  · rintro ⟨start, stop, hends⟩
    exact ⟨start, stop, Nat.zero_le stop, hends⟩
  · rintro ⟨start, stop, -, hends⟩
    exact ⟨start, stop, hends⟩

end

section
variable {text : List Char} {i start stop : Nat}

theorem getElem?_whitenNested (text : List Char) (i : Nat) :
    (whitenNested text)[i]? =
      text[i]?.map fun c => if (innerPlaces 0 [] text).contains i then whiteBracket c else c := by
  simp [whitenNested, getElem?_zipIdx, Option.map_map, Function.comp_def]

theorem whitened_end (h : IsInnerEnd text i) :
    (whitenNested text)[i]? = text[i]?.map whiteBracket := by
  have hplace : (innerPlaces 0 [] text).contains i = true := by
    rw [contains_iff_mem]
    exact isInnerEnd_iff.mp h
  rw [getElem?_whitenNested, hplace]
  rfl

theorem whitened_other (h : ¬ IsInnerEnd text i) : (whitenNested text)[i]? = text[i]? := by
  have hplace : (innerPlaces 0 [] text).contains i = false := by
    rw [← Bool.not_eq_true, contains_iff_mem]
    exact fun hmem => h (isInnerEnd_iff.mpr hmem)
  rw [getElem?_whitenNested, hplace]
  exact Option.map_id'

theorem InnerPair.whitened_start (h : InnerPair text start stop) :
    (whitenNested text)[start]? = some '『' := by
  rw [whitened_end ⟨start, stop, h, .inl rfl⟩, h.opened]
  rfl

theorem InnerPair.whitened_stop (h : InnerPair text start stop) :
    (whitenNested text)[stop]? = some '』' := by
  rw [whitened_end ⟨start, stop, h, .inr rfl⟩, h.closed]
  rfl

theorem whitened_ne_iff (text : List Char) (i : Nat) :
    (whitenNested text)[i]? ≠ text[i]? ↔ IsInnerEnd text i := by
  constructor
  · intro hne
    by_cases hend : IsInnerEnd text i
    · exact hend
    · exact absurd (whitened_other hend) hne
  · rintro ⟨start, stop, hpair, rfl | rfl⟩
    · rw [hpair.whitened_start, hpair.opened]
      decide
    · rw [hpair.whitened_stop, hpair.closed]
      decide

def isOuter (text : List Char) (i : Nat) : Bool :=
  !(innerPlaces 0 [] text).contains i

theorem isOuter_eq_false (h : IsInnerEnd text i) : isOuter text i = false := by
  simpa [isOuter] using isInnerEnd_iff.mp h

theorem isOuter_eq_true (h : ¬ IsInnerEnd text i) : isOuter text i = true := by
  simpa [isOuter, isInnerEnd_iff] using h

theorem openBefore_whitened (text : List Char) (i : Nat) :
    openBefore (whitenNested text) i = (openBefore text i).filter (isOuter text) := by
  induction i with
  | zero => rfl
  | succ i ih =>
    by_cases hend : IsInnerEnd text i
    · have hwhite : openBefore (whitenNested text) (i + 1) = openBefore (whitenNested text) i := by
        obtain ⟨start, stop, hpair, rfl | rfl⟩ := id hend
        · apply openBefore_other <;> simp [hpair.whitened_start]
        · apply openBefore_other <;> simp [hpair.whitened_stop]
      rw [hwhite, ih]
      obtain ⟨start, stop, hpair, rfl | rfl⟩ := id hend
      · rw [openBefore_opening hpair.opened, filter_cons, isOuter_eq_false hend]
        rfl
      · -- Both ends of the pair become white, so that the bracket on top was left out before.
        obtain ⟨hclosed, next, below, hstack⟩ := innerPair_iff.mp hpair
        rw [openBefore_closing hclosed, hstack, filter_cons,
          isOuter_eq_false ⟨start, i, hpair, .inl rfl⟩]
        rfl
    · have hsame := whitened_other hend
      by_cases hopening : text[i]? = some '「'
      · rw [openBefore_opening (hsame.trans hopening), openBefore_opening hopening, ih,
          filter_cons, isOuter_eq_true hend]
        rfl
      by_cases hclosing : text[i]? = some '」'
      · rw [openBefore_closing (hsame.trans hclosing), openBefore_closing hclosing, ih]
        -- At most one bracket is open here, or it would be the start of an inner pair.
        rcases hstack : openBefore text i with _ | ⟨start, _ | ⟨next, below⟩⟩
        · rfl
        · cases hstart : isOuter text start <;> simp [hstart]
        · exact absurd ⟨start, i, innerPair_iff.mpr ⟨hclosing, next, below, hstack⟩, .inr rfl⟩ hend
      · rw [openBefore_other hopening hclosing, openBefore_other (hsame ▸ hopening)
          (hsame ▸ hclosing), ih]

theorem not_innerPair_whitened (text : List Char) (start stop : Nat) :
    ¬ InnerPair (whitenNested text) start stop := by
  intro hpair
  obtain ⟨hclosed, next, below, hstack⟩ := innerPair_iff.mp hpair
  have hend : ¬ IsInnerEnd text stop := by
    rintro ⟨start', stop', hold, rfl | rfl⟩
    · rw [hold.whitened_start] at hclosed
      cases hclosed
    · rw [hold.whitened_stop] at hclosed
      cases hclosed
  rw [whitened_other hend] at hclosed
  -- The two brackets that are open in the whitened text were open in the text itself.
  have hsub : (openBefore (whitenNested text) stop).Sublist (openBefore text stop) := by
    rw [openBefore_whitened]
    exact filter_sublist
  rw [hstack] at hsub
  have htwo := hsub.length_le
  rcases hbefore : openBefore text stop with _ | ⟨first, _ | ⟨second, more⟩⟩
  · simp [hbefore] at htwo
  · simp [hbefore] at htwo
  · exact hend ⟨first, stop, innerPair_iff.mpr ⟨hclosed, second, more, hbefore⟩, .inr rfl⟩

theorem innerPlaces_whitened (text : List Char) : innerPlaces 0 [] (whitenNested text) = [] := by
  rw [eq_nil_iff_forall_not_mem]
  intro p hp
  obtain ⟨start, stop, hpair, -⟩ := isInnerEnd_iff.mpr hp
  exact not_innerPair_whitened text start stop hpair

theorem length_whitenNested (text : List Char) : (whitenNested text).length = text.length := by
  simp [whitenNested]

end

theorem whitenNested_of_none (h : innerPlaces 0 [] text = []) : whitenNested text = text := by
  apply ext_getElem?
  intro i
  apply whitened_other
  rw [isInnerEnd_iff, h]
  exact not_mem_nil

theorem replaceNestedIn_fst (text : String) :
    (replaceNestedIn text).1 = ofList (whitenNested text.toList) := by
  rw [replaceNestedIn]
  by_cases hnone : innerPlaces 0 [] text.toList = []
  · simp [hnone, whitenNested_of_none hnone]
  · simp [hnone]

theorem innerPlaces_of_not_mem (h : '」' ∉ text) : innerPlaces 0 [] text = [] := by
  rw [eq_nil_iff_forall_not_mem]
  intro p hp
  obtain ⟨start, stop, hpair, -⟩ := isInnerEnd_iff.mpr hp
  exact h (mem_of_getElem? hpair.closed)

theorem join_units {chars whites : List Char} (h : whites.length = chars.length) :
    join (((chars.map singleton).zip whites).map fun x =>
      if x.1.length = 1 then singleton x.2 else x.1) = ofList whites := by
  apply toList_injective
  induction chars generalizing whites with
  | nil =>
    rw [eq_nil_of_length_eq_zero h]
    rfl
  | cons c chars ih =>
    cases whites with
    | nil => cases h
    | cons white whites => simp [ih (Nat.succ.inj h)]

theorem replaceNestedIn_plain {text : String} (h : innerPlaces 0 [] text.toList = []) :
    replaceNestedIn text = (text, []) := by
  rw [replaceNestedIn, h]
  rfl

theorem replaceNestedValue_str (text : String) :
    replaceNestedValue (.str text) =
      .ok (.str (replaceNestedIn text).1, (replaceNestedIn text).2) := by
  have hchars : (text.toList.map singleton).map
      (fun unit => if unit.length = 1 then unit.toList.headD ' ' else ' ') = text.toList := by
    simp [Function.comp_def]
  have hunits := joinable_chars 0 text.toList
  have hwhole := join_units (length_whitenNested text.toList)
  rw [replaceNestedValue, has, has]
  dsimp only [bind, Except.bind]
  by_cases hplain : (!Text.contains text "「" && !Text.contains text "」") = true
  · have hnone : '」' ∉ text.toList := by
      intro hmem
      have hoccurs : Text.contains text "」" = true :=
        occurs_iff.mpr ((singleton_infix_iff _ _).mpr hmem)
      simp [hoccurs] at hplain
    rw [if_pos hplain, replaceNestedIn_plain (innerPlaces_of_not_mem hnone)]
    rfl
  · rw [if_neg hplain, elements, charTexts]
    dsimp only
    rw [hunits]
    dsimp only
    rw [hchars, hwhole, replaceNestedIn_fst, replaceNestedIn]
    by_cases hcount : (innerPlaces 0 [] text.toList).length = 0
    · rw [if_pos hcount, if_pos hcount]
      rfl
    · rw [if_neg hcount, if_neg hcount]
      rfl

/-- How a text is changed: both ends of every inner pair become white, and nothing else does. -/
structure Whitened (text result : List Char) : Prop where
  length : result.length = text.length
  changed : ∀ i, result[i]? ≠ text[i]? ↔ IsInnerEnd text i
  starts : ∀ start stop, InnerPair text start stop →
    text[start]? = some '「' ∧ result[start]? = some '『'
  stops : ∀ start stop, InnerPair text start stop →
    text[stop]? = some '」' ∧ result[stop]? = some '』'

theorem whitened (text : List Char) : Whitened text (whitenNested text) where
  length := length_whitenNested text
  changed := whitened_ne_iff text
  starts _ _ hpair := ⟨hpair.opened, hpair.whitened_start⟩
  stops _ _ hpair := ⟨hpair.closed, hpair.whitened_stop⟩

/-- Exactly the ends of the inner pairs of a text become white, after which it has no inner pairs
and stays as it is. -/
theorem replaceNested_whitened (text : String) :
    ∃ result said, replaceNestedValue (.str text) = .ok (.str result, said) ∧
      replaceNestedIn text = (result, said) ∧ Whitened text.toList result.toList ∧
      (∀ start stop, ¬ InnerPair result.toList start stop) ∧
      replaceNestedValue (.str result) = .ok (.str result, []) := by
  have hresult : (replaceNestedIn text).1.toList = whitenNested text.toList := by
    rw [replaceNestedIn_fst, String.toList_ofList]
  refine ⟨_, _, replaceNestedValue_str text, rfl, ?_, ?_, ?_⟩
  · rw [hresult]
    exact whitened text.toList
  · rw [hresult]
    exact not_innerPair_whitened text.toList
  · have hplain : innerPlaces 0 [] (replaceNestedIn text).1.toList = [] := by
      rw [hresult]
      exact innerPlaces_whitened text.toList
    rw [replaceNestedValue_str, replaceNestedIn_plain hplain]

end SceneText.Entry
