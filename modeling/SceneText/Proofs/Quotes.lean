import SceneText.Review.Quotes

/-!
# Correctly nested quotes

Pairing leaves no quote over exactly if the quotes of a text, everything else left out, are
correctly nested: a word of the grammar in which a pair encloses one such word and another one
follows it. What is open on the way stands for the words that have still to come, each closed by the
quote that belongs to the open one.
-/

namespace SceneText.Review

open List

def Paired (o c : Char) : Prop :=
  (o, c) ∈ [('「', '」'), ('『', '』'), ('“', '”'), ('‘', '’'), ('（', '）')]

def isQuote (c : Char) : Bool :=
  ['「', '」', '『', '』', '“', '”', '‘', '’', '（', '）'].contains c

inductive Nested : List Char → Prop
  | nil : Nested []
  | pair {o c : Char} {inner rest : List Char} (paired : Paired o c) (within : Nested inner)
    (after : Nested rest) : Nested (o :: (inner ++ c :: rest))

section
variable {o c : Char} {stack text inner rest : List Char}

theorem paired_iff_opener : Paired o c ↔ opener? c = some o := by
  constructor
  · intro h
    simp only [Paired, mem_cons, Prod.mk.injEq, not_mem_nil, or_false] at h
    rcases h with ⟨rfl, rfl⟩ | ⟨rfl, rfl⟩ | ⟨rfl, rfl⟩ | ⟨rfl, rfl⟩ | ⟨rfl, rfl⟩ <;> rfl
  · intro h
    rw [opener?, Option.map_eq_some_iff] at h
    obtain ⟨p, hp, rfl⟩ := h
    have hc : p.2 = c := by simpa using find?_some hp
    rw [← hc]
    exact mem_of_find?_eq_some hp

theorem Paired.isOpening (h : Paired o c) : isOpening o = true :=
  any_eq_true.mpr ⟨_, h, by simp⟩

theorem exists_paired (h : isOpening o = true) : ∃ c, Paired o c := by
  obtain ⟨p, hp, ho⟩ := any_eq_true.mp h
  have ho : p.1 = o := by simpa using ho
  exact ⟨p.2, by rw [← ho]; exact hp⟩

theorem Paired.not_opening (h : Paired o c) : Review.isOpening c = false := by
  simp only [Paired, mem_cons, Prod.mk.injEq, not_mem_nil, or_false] at h
  rcases h with ⟨rfl, rfl⟩ | ⟨rfl, rfl⟩ | ⟨rfl, rfl⟩ | ⟨rfl, rfl⟩ | ⟨rfl, rfl⟩ <;> decide

theorem Paired.quotes (h : Paired o c) : isQuote o = true ∧ isQuote c = true := by
  simp only [Paired, mem_cons, Prod.mk.injEq, not_mem_nil, or_false] at h
  rcases h with ⟨rfl, rfl⟩ | ⟨rfl, rfl⟩ | ⟨rfl, rfl⟩ | ⟨rfl, rfl⟩ | ⟨rfl, rfl⟩ <;> decide

theorem isQuote_iff : isQuote c = true ↔ (∃ d, Paired c d) ∨ ∃ o, Paired o c := by
  constructor
  · intro h
    have hc : c ∈ ['「', '」', '『', '』', '“', '”', '‘', '’', '（', '）'] := by simpa [isQuote] using h
    simp only [mem_cons, not_mem_nil, or_false] at hc
    simp only [Paired, mem_cons, Prod.mk.injEq, not_mem_nil, or_false]
    rcases hc with rfl | rfl | rfl | rfl | rfl | rfl | rfl | rfl | rfl | rfl <;> simp
  · rintro (⟨d, h⟩ | ⟨o, h⟩)
    · exact h.quotes.1
    · exact h.quotes.2

def closes : List Char → List Char → Bool
  | stack, [] => stack.isEmpty
  | stack, c :: rest =>
    if isOpening c then closes (c :: stack) rest
    else match opener? c with
      | none => closes stack rest
      | some o =>
        match stack with
        | top :: below => top = o && closes below rest
        | [] => false

theorem closes_opening (h : Paired o c) : closes stack (o :: text) = closes (o :: stack) text := by
  rw [closes, if_pos h.isOpening]

theorem closes_closing (h : Paired o c) : closes (o :: stack) (c :: text) = closes stack text := by
  rw [closes, h.not_opening, if_neg Bool.false_ne_true, paired_iff_opener.mp h]
  simp

theorem closes_other (h : isQuote c = false) : closes stack (c :: text) = closes stack text := by
  have hnone : ¬ ((∃ d, Paired c d) ∨ ∃ o, Paired o c) := by simp [← isQuote_iff, h]
  have hopening : ¬ isOpening c = true := fun hc => hnone (.inl (exists_paired hc))
  rw [closes, if_neg hopening]
  cases hopener : opener? c with
  | none => rfl
  | some o => exact absurd (.inr ⟨o, paired_iff_opener.mpr hopener⟩) hnone

theorem pairFrom_clean_iff (i : Nat) (open_ : List Placed) (text : List Char) :
    (pairFrom i open_ text).surplus = [] ∧ (pairFrom i open_ text).unclosed = [] ↔
      closes (open_.map Placed.quote) text = true := by
  induction text generalizing i open_ with
  | nil => simp [pairFrom, closes]
  | cons c text ih =>
    rw [pairFrom, closes]
    by_cases hopening : isOpening c = true
    · rw [if_pos hopening, if_pos hopening]
      exact ih (i + 1) (⟨c, i⟩ :: open_)
    rw [if_neg hopening, if_neg hopening]
    cases opener? c with
    | none => exact ih (i + 1) open_
    | some o =>
      cases open_ with
      | nil => simp
      | cons top below =>
        by_cases htop : top.quote = o
        · simpa [htop] using ih (i + 1) below
        · simp [htop]

theorem closes_nested (h : Nested inner) (stack text : List Char) :
    closes stack (inner ++ text) = closes stack text := by
  induction h generalizing stack text with
  | nil => rfl
  | pair paired _ _ within after =>
    rw [cons_append, append_assoc, cons_append, closes_opening paired, within,
      closes_closing paired, after]

theorem closes_filter (stack text : List Char) :
    closes stack (text.filter isQuote) = closes stack text := by
  induction text generalizing stack with
  | nil => rfl
  | cons c text ih =>
    cases hquote : isQuote c with
    | false => rw [filter_cons_of_neg (by simp [hquote]), closes_other hquote, ih]
    | true =>
      rw [filter_cons_of_pos hquote, closes, closes]
      split
      · exact ih _
      split
      · exact ih _
      · cases stack with
        | nil => rfl
        | cons top below => simp only [ih]

def Fills : List Char → List Char → Prop
  | [], word => Nested word
  | o :: stack, word => ∃ inner c rest, word = inner ++ c :: rest ∧ Paired o c ∧ Nested inner ∧
      Fills stack rest

theorem Fills.enclose (h : Fills stack rest) (hpair : Paired o c) (hinner : Nested inner) :
    Fills stack (o :: (inner ++ c :: rest)) := by
  cases stack with
  | nil => exact .pair hpair hinner h
  | cons top below =>
    obtain ⟨word, c', rest', rfl, hpair', hword, hbelow⟩ := h
    exact ⟨o :: (inner ++ c :: word), c', rest', by simp, hpair', .pair hpair hinner hword, hbelow⟩

theorem fills_of_closes (h : closes stack text = true) : Fills stack (text.filter isQuote) := by
  induction text generalizing stack with
  | nil =>
    rw [closes, List.isEmpty_iff] at h
    rw [h]
    exact .nil
  | cons c text ih =>
    cases hquote : isQuote c with
    | false =>
      rw [closes_other hquote] at h
      rw [filter_cons_of_neg (by simp [hquote])]
      exact ih h
    | true =>
      rw [filter_cons_of_pos hquote]
      rcases isQuote_iff.mp hquote with ⟨d, hpair⟩ | ⟨o, hpair⟩
      · rw [closes_opening hpair] at h
        obtain ⟨inner, d', rest, heq, hpair', hinner, hrest⟩ := ih h
        rw [heq]
        exact hrest.enclose hpair' hinner
      · rw [closes, hpair.not_opening, if_neg Bool.false_ne_true, paired_iff_opener.mp hpair] at h
        cases stack with
        | nil => cases h
        | cons top below =>
          obtain ⟨htop, h⟩ : top = o ∧ closes below text = true := by simpa using h
          exact ⟨[], c, _, rfl, htop ▸ hpair, .nil, ih h⟩

theorem pairQuotes_clean_iff (text : List Char) :
    (pairQuotes text).surplus = [] ∧ (pairQuotes text).unclosed = [] ↔
      Nested (text.filter isQuote) := by
  rw [pairQuotes, pairFrom_clean_iff]
  constructor
  · exact fills_of_closes
  · intro h
    rw [map_nil, ← closes_filter, ← append_nil (text.filter isQuote), closes_nested h]
    rfl

end
end SceneText.Review
