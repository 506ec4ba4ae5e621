import SceneText.Proofs.Acceptance

/-!
# What reports show in brackets

A report on characters replaces them one by one, each in the text that the replacements before it
have left. Since the brackets are none of these characters, a replacement neither makes nor spoils
an occurrence of another one, and the order does not matter.

A report on unpaired quotes finds the surplus quotes twice, once for the lines about them and once
for the text that shows them. The second scan keeps only the kinds of the open quotes, which are
those that the first one keeps with their places.
-/

namespace SceneText.Review

open List Text Json
open String (ofList singleton)

variable {text chars : List Char} {fields : Fields} {s : String}

def inBrackets (c : Char) : List Char := ['【', c, '】']

theorem toList_bracketed (c : Char) : (bracketed (singleton c)).toList = inBrackets c := by
  simp [bracketed, inBrackets]

/-- A text in which the characters of a class stand in brackets. -/
def highlighted (inClass : Char → Bool) (text : List Char) : List Char :=
  text.flatMap fun c => if inClass c then inBrackets c else [c]

/-- Some order of the characters of a class that a text has, each of them once. -/
structure Enumerates (inClass : Char → Bool) (text chars : List Char) : Prop where
  nodup : chars.Nodup
  mem_iff : ∀ c, c ∈ chars ↔ c ∈ text ∧ inClass c = true

theorem replaceAll_singleton (c : Char) (new text : List Char) :
    replaceAll [c] new text = text.flatMap fun d => if d = c then new else [d] := by
  change replaceFrom [c] new 0 text = _
  induction text with
  | nil => rfl
  | cons d rest ih =>
    rw [replaceFrom, flatMap_cons, length_singleton, ih]
    by_cases hd : d = c
    · simp [List.isPrefixOf, hd]
    · simp [List.isPrefixOf, hd, Ne.symm hd]

theorem markEach_eq {mark : Char → String} (hnodup : chars.Nodup)
    (hmark : ∀ c ∈ chars, ∀ d ∈ (mark c).toList, d ∈ chars → d = c) (text : List Char) :
    markEach mark chars text =
      text.flatMap fun c => if c ∈ chars then (mark c).toList else [c] := by
  induction chars generalizing text with
  | nil => simp [markEach]
  | cons c chars ih =>
    obtain ⟨hc, hnodup⟩ := nodup_cons.mp hnodup
    have hrest := ih hnodup fun d hd e he hmem =>
      hmark d (mem_cons_of_mem _ hd) e he (mem_cons_of_mem _ hmem)
    -- what the first mark has put in is not touched by the marks behind it
    have hkept : (mark c).toList.flatMap (fun d => if d ∈ chars then (mark d).toList else [d]) =
        (mark c).toList := by
      have hsame : ∀ d ∈ (mark c).toList,
          (if d ∈ chars then (mark d).toList else [d]) = [d] := by
        intro d hd
        rw [if_neg]
        intro hmem
        exact hc (hmark c mem_cons_self d hd (mem_cons_of_mem _ hmem) ▸ hmem)
      rw [flatMap_congr hsame, flatMap_singleton']
    have hstep : markEach mark (c :: chars) text =
        markEach mark chars (replaceAll [c] (mark c).toList text) := rfl
    rw [hstep, hrest, replaceAll_singleton, flatMap_assoc]
    apply flatMap_congr
    intro d _
    by_cases hd : d = c
    · rw [if_pos hd, hkept, hd, if_pos mem_cons_self]
    · simp [hd]

theorem Enumerates.append {inClass other : Char → Bool} {others : List Char}
    (h : Enumerates inClass text chars) (h' : Enumerates other text others)
    (hdisjoint : ∀ c, inClass c = true → other c = false) :
    Enumerates (fun c => inClass c || other c) text (chars ++ others) where
  nodup := by
    refine nodup_append.mpr ⟨h.nodup, h'.nodup, ?_⟩
    rintro c hc _ hc' rfl
    have hout := hdisjoint c ((h.mem_iff c).mp hc).2
    rw [((h'.mem_iff c).mp hc').2] at hout
    exact Bool.noConfusion hout
  mem_iff c := by
    rw [mem_append, h.mem_iff, h'.mem_iff, Bool.or_eq_true, and_or_left]

theorem Enumerates.distinctSorted (inClass : Char → Bool) (text : List Char) :
    Enumerates inClass text (distinctSorted inClass text) where
  nodup := (mergeSort_perm _ _).nodup_iff.mpr (nodup_eraseDups _)
  mem_iff c := by
    rw [Review.distinctSorted, (mergeSort_perm _ _).mem_iff, distinct, mem_eraseDups, mem_filter]

theorem Enumerates.markEach_eq {inClass : Char → Bool} (h : Enumerates inClass text chars)
    (hopen : inClass '【' = false) (hclose : inClass '】' = false) :
    markEach bracketedChar chars text = highlighted inClass text := by
  have hclass : ∀ c ∈ chars, inClass c = true := fun c hc => ((h.mem_iff c).mp hc).2
  rw [Review.markEach_eq h.nodup, highlighted]
  · apply flatMap_congr
    intro c hc
    rw [bracketedChar, toList_bracketed]
    simp [h.mem_iff, hc]
  · intro c _ d hd hmem
    have hin := hclass d hmem
    rw [bracketedChar, toList_bracketed, inBrackets] at hd
    simp only [mem_cons, not_mem_nil, or_false] at hd
    rcases hd with rfl | rfl | rfl
    · rw [hopen] at hin
      exact Bool.noConfusion hin
    · rfl
    · rw [hclose] at hin
      exact Bool.noConfusion hin

theorem hiragana_katakana (c : Char) (h : isHiragana c = true) : isKatakana c = false := by
  rw [isHiragana, inRanges] at h
  rw [isKatakana, inRanges]
  simp at h ⊢
  omega

section
variable (i : Nat) (hmessage : fields.lookup "message" = some (.str s))
include hmessage

theorem ifField_message (check : Json → Report) :
    ifField (.obj fields) "message" check = check (.str s) := by
  rw [ifField, has_obj, field, hmessage]
  rfl

theorem checkKorean_lines (hfound : ∃ c ∈ s.toList, isKorean c = true) :
    ∃ line, checkKorean i (.obj fields) = .ofLines [line, "  译文: " ++ s,
      "  高亮显示: " ++ ofList (highlighted isKorean s.toList), ""] := by
  have hsome : ¬ (distinctSorted isKorean s.toList).isEmpty = true := by
    rw [distinctSorted_isEmpty_iff]
    simpa using hfound
  rw [checkKorean, ifField_message hmessage, searchable, Report.given, if_neg hsome,
    (Enumerates.distinctSorted isKorean s.toList).markEach_eq rfl rfl]
  exact ⟨_, rfl⟩

theorem checkJapanese_lines (hfound : ∃ c ∈ s.toList, (isHiragana c || isKatakana c) = true) :
    ∃ line, checkJapanese i (.obj fields) = .ofLines [line, "  译文: " ++ s,
      "  高亮显示: " ++ ofList (highlighted (fun c => isHiragana c || isKatakana c) s.toList),
      ""] := by
  have hsome : ¬ ((distinctSorted isHiragana s.toList).isEmpty &&
      (distinctSorted isKatakana s.toList).isEmpty) = true := by
    rw [Bool.and_eq_true, distinctSorted_isEmpty_iff, distinctSorted_isEmpty_iff]
    rintro ⟨hhiragana, hkatakana⟩
    obtain ⟨c, hc, hkana⟩ := hfound
    exact (Bool.or_eq_true_iff.mp hkana).elim (hhiragana c hc) (hkatakana c hc)
  have hboth := (Enumerates.distinctSorted isHiragana s.toList).append
    (Enumerates.distinctSorted isKatakana s.toList) hiragana_katakana
  rw [checkJapanese, ifField_message hmessage, searchable, Report.given, if_neg hsome,
    hboth.markEach_eq rfl rfl]
  exact ⟨_, rfl⟩

/-- Korean letters and kana are put in brackets at every place where they stand, in whatever order
they are gone through, and this is the text that the reports show. -/
theorem highlights_in_any_order :
    (∀ found, Enumerates isKorean s.toList found →
      markEach bracketedChar found s.toList = highlighted isKorean s.toList) ∧
    (∀ hiragana katakana, Enumerates isHiragana s.toList hiragana →
      Enumerates isKatakana s.toList katakana →
      markEach bracketedChar (hiragana ++ katakana) s.toList =
        highlighted (fun c => isHiragana c || isKatakana c) s.toList) ∧
    ((∃ c ∈ s.toList, isKorean c = true) →
      ∃ line, checkKorean i (.obj fields) = .ofLines [line, "  译文: " ++ s,
        "  高亮显示: " ++ ofList (highlighted isKorean s.toList), ""]) ∧
    ((∃ c ∈ s.toList, (isHiragana c || isKatakana c) = true) →
      ∃ line, checkJapanese i (.obj fields) = .ofLines [line, "  译文: " ++ s,
        "  高亮显示: " ++
          ofList (highlighted (fun c => isHiragana c || isKatakana c) s.toList), ""]) := by
  refine ⟨fun found hfound => hfound.markEach_eq rfl rfl, fun hiragana katakana hh hk => ?_,
    checkKorean_lines i hmessage, checkJapanese_lines i hmessage⟩
  exact (hh.append hk hiragana_katakana).markEach_eq rfl rfl

end

theorem highlights_in_any_order_mixed :
    markEach bracketedChar ['나', '가'] "나a가나ン".toList = "【나】a【가】【나】ン".toList ∧
      ∃ line, checkJapanese 7 (.obj [("message", .str "나a가나ン")]) =
        .ofLines [line, "  译文: 나a가나ン", "  高亮显示: 나a가나【ン】", ""] := by
  have hfound : Enumerates isKorean "나a가나ン".toList ['나', '가'] := by
    refine ⟨by decide, fun c => ⟨fun hc => ?_, fun hc => ?_⟩⟩
    · simp only [mem_cons, not_mem_nil, or_false] at hc
      rcases hc with rfl | rfl <;> decide
    · obtain ⟨hc, hkorean⟩ := hc
      have hc : c ∈ ['나', 'a', '가', '나', 'ン'] := hc
      simp only [mem_cons, not_mem_nil, or_false] at hc
      rcases hc with rfl | rfl | rfl | rfl | rfl
      · decide
      · exact absurd hkorean (by decide)
      · decide
      · decide
      · exact absurd hkorean (by decide)
  obtain ⟨hkorean, -, -, hkana⟩ := @highlights_in_any_order
    [("message", .str "나a가나ン")] "나a가나ン" 7 rfl
  exact ⟨(hkorean _ hfound).trans (by decide), hkana ⟨'ン', by decide, by decide⟩⟩

theorem surplusFrom_eq (i : Nat) (stack : List Placed) (text : List Char) :
    surplusFrom i (stack.map Placed.quote) text =
      (pairFrom i stack text).surplus.map Placed.place := by
  induction text generalizing i stack with
  | nil => rfl
  | cons c rest ih =>
    rw [surplusFrom, pairFrom]
    by_cases hopening : isOpening c = true
    · rw [if_pos hopening, if_pos hopening]
      exact ih (i + 1) (⟨c, i⟩ :: stack)
    rw [if_neg hopening, if_neg hopening]
    cases opener? c with
    | none => exact ih (i + 1) stack
    | some o =>
      cases stack with
      | nil => exact congrArg (i :: ·) (ih (i + 1) [])
      | cons top below =>
        by_cases htop : top.quote = o
        · simpa [htop] using ih (i + 1) below
        · simpa [htop] using ih (i + 1) (top :: below)

def StandsFrom (i : Nat) (text : List Char) (q : Placed) : Prop :=
  i ≤ q.place ∧ text[q.place - i]? = some q.quote

theorem StandsFrom.here (i : Nat) (c : Char) (rest : List Char) :
    StandsFrom i (c :: rest) ⟨c, i⟩ :=
  ⟨Nat.le_refl i, by simp⟩

theorem StandsFrom.later {i : Nat} {rest : List Char} {q : Placed} (c : Char)
    (h : StandsFrom (i + 1) rest q) : StandsFrom i (c :: rest) q := by
  obtain ⟨hle, hget⟩ := h
  refine ⟨by omega, ?_⟩
  rw [show q.place - i = q.place - (i + 1) + 1 by omega, getElem?_cons_succ, hget]

theorem pairFrom_stands (i : Nat) (stack : List Placed) (text : List Char) :
    ∀ q ∈ (pairFrom i stack text).surplus ++ (pairFrom i stack text).unclosed,
      q ∈ stack ∨ StandsFrom i text q := by
  induction text generalizing i stack with
  | nil =>
    intro q hq
    exact .inl (by simpa [pairFrom] using hq)
  | cons c rest ih =>
    -- a closing quote that pairs with none is left over itself
    have hsurplus : ∀ q ∈ ⟨c, i⟩ :: (pairFrom (i + 1) stack rest).surplus ++
        (pairFrom (i + 1) stack rest).unclosed, q ∈ stack ∨ StandsFrom i (c :: rest) q := by
      intro q hq
      rw [cons_append] at hq
      rcases mem_cons.mp hq with rfl | hq
      · exact .inr (.here i c rest)
      · exact (ih (i + 1) stack q hq).imp_right (.later c)
    rw [pairFrom]
    by_cases hopening : isOpening c = true
    · rw [if_pos hopening]
      intro q hq
      rcases ih (i + 1) (⟨c, i⟩ :: stack) q hq with hq | hq
      · rcases mem_cons.mp hq with rfl | hq
        · exact .inr (.here i c rest)
        · exact .inl hq
      · exact .inr (hq.later c)
    rw [if_neg hopening]
    cases opener? c with
    | none => exact fun q hq => (ih (i + 1) stack q hq).imp_right (.later c)
    | some o =>
      cases stack with
      | nil => exact hsurplus
      | cons top below =>
        by_cases htop : top.quote = o
        · simp only [htop, if_true]
          intro q hq
          exact (ih (i + 1) below q hq).imp (mem_cons_of_mem top) (.later c)
        · simp only [htop, if_false]
          exact hsurplus

/-- The quotes that are left over, surplus ones first. -/
def Leftover.all (left : Leftover) : List Placed := left.surplus ++ left.unclosed

def Leftover.places (left : Leftover) : List Nat := left.all.map Placed.place

theorem pairQuotes_stands {q : Placed} (h : q ∈ (pairQuotes text).all) :
    text[q.place]? = some q.quote :=
  (pairFrom_stands 0 [] text q h).elim (fun hnone => absurd hnone not_mem_nil) And.right

/-- A text in which the characters at some places stand in brackets. -/
def highlightedAt (places : List Nat) (text : List Char) : List Char :=
  text.zipIdx.flatMap fun e => if e.2 ∈ places then inBrackets e.1 else [e.1]

/-- Takes the brackets away that stand around the characters at some places, where the first
character has place `i`. -/
def withoutBrackets (places : List Nat) : Nat → List Char → List Char
  | _, [] => []
  | i, c :: rest =>
    if i ∈ places then
      match rest with
      | d :: _ :: more => d :: withoutBrackets places (i + 1) more
      | _ => []
    else c :: withoutBrackets places (i + 1) rest

theorem withoutBrackets_plain {places : List Nat} {i : Nat} (h : i ∉ places) (c : Char)
    (rest : List Char) :
    withoutBrackets places i (c :: rest) = c :: withoutBrackets places (i + 1) rest := by
  rw [withoutBrackets.eq_def]
  exact if_neg h

theorem withoutBrackets_inBrackets {places : List Nat} {i : Nat} (h : i ∈ places) (c : Char)
    (rest : List Char) :
    withoutBrackets places i (inBrackets c ++ rest) = c :: withoutBrackets places (i + 1) rest := by
  simp [inBrackets, withoutBrackets, h]

theorem withoutBrackets_highlighted (places : List Nat) (i : Nat) (text : List Char) :
    withoutBrackets places i
      ((text.zipIdx i).flatMap fun e => if e.2 ∈ places then inBrackets e.1 else [e.1]) = text := by
  induction text generalizing i with
  | nil => rfl
  | cons c rest ih =>
    rw [zipIdx_cons, flatMap_cons]
    by_cases hi : i ∈ places
    · rw [if_pos hi, withoutBrackets_inBrackets hi, ih]
    · rw [if_neg hi, singleton_append, withoutBrackets_plain hi, ih]

theorem highlightUnpaired_eq (text : List Char) :
    highlightUnpaired text (pairQuotes text) (text.map singleton) =
      ofList (highlightedAt (pairQuotes text).places text) := by
  have hscan : surplusFrom 0 [] text = (pairQuotes text).surplus.map Placed.place :=
    surplusFrom_eq 0 [] text
  have hmem : ∀ p, p ∈ (pairQuotes text).unclosed.map Placed.place ++ surplusFrom 0 [] text ↔
      p ∈ (pairQuotes text).places := by
    intro p
    rw [hscan, mem_append, or_comm, ← mem_append, ← map_append]
    rfl
  apply String.toList_injective
  rw [highlightUnpaired, String.toList_join, String.toList_ofList, markPlaces, zipIdx_map, map_map,
    flatMap_map, highlightedAt]
  apply flatMap_congr
  intro e _
  by_cases hp : e.2 ∈ (pairQuotes text).places
  · simp [hp, hmem, toList_bracketed]
  · simp [hp, hmem]

/-- In a report on unpaired quotes the characters in brackets are those at the places of its lines,
which hold the quotes that the lines name. Both scans find the same surplus quotes, and without the
brackets put in the text is the message again. -/
theorem checkPairs_highlights (sources : Json) (i : Nat) {source : String}
    (hmessage : fields.lookup "message" = some (.str s))
    (hsource : sourceField sources i "message" = .ok source)
    (hreported : (checkPairs sources i (.obj fields)).passed = false) :
    let left := pairQuotes s.toList
    let shown := highlightedAt left.places s.toList
    checkPairs sources i (.obj fields) =
      .ofLines (s!"索引 {i} 译文中存在未配对的引号:" :: leftoverLines left ++
        [s!"  原文message: {source}", s!"  译文message: {s}",
          s!"  高亮显示: {String.ofList shown}", ""]) ∧
    left.places ≠ [] ∧ (∀ q ∈ left.all, s.toList[q.place]? = some q.quote) ∧
    surplusFrom 0 [] s.toList = left.surplus.map Placed.place ∧
    withoutBrackets left.places 0 shown = s.toList := by
  intro left shown
  have hsome : ¬ (left.surplus.isEmpty && left.unclosed.isEmpty) = true := by
    intro hnone
    rw [checkPairs, ifField_message hmessage, quoteUnits_str, Report.given, unitChar_charTexts,
      if_pos hnone] at hreported
    exact Bool.noConfusion hreported
  have hunits : joinable 0 (charTexts s) = .ok (s.toList.map singleton) :=
    joinable_chars 0 s.toList
  refine ⟨?_, ?_, fun q hq => pairQuotes_stands hq, surplusFrom_eq 0 [] s.toList,
    withoutBrackets_highlighted left.places 0 s.toList⟩
  · rw [checkPairs, ifField_message hmessage, quoteUnits_str, Report.given, unitChar_charTexts,
      if_neg hsome, hunits, hsource, Report.given, Report.given, highlightUnpaired_eq]
    rfl
  · intro hnone
    apply hsome
    simpa [Leftover.places, Leftover.all] using hnone

theorem checkPairs_highlights_crossed :
    checkPairs (.arr [.obj []]) 0 (.obj [("message", .str "』「“a」【（）")]) =
      .ofLines ["索引 0 译文中存在未配对的引号:", "  位置 0: 多余的 '』'", "  位置 4: 多余的 '」'",
        "  位置 1: 未关闭的 '「'", "  位置 2: 未关闭的 '“'", "  原文message: 无",
        "  译文message: 』「“a」【（）", "  高亮显示: 【』】【「】【“】a【」】【（）", ""] := by
  have hreported : (checkPairs (.arr [.obj []]) 0
      (.obj [("message", .str "』「“a」【（）")])).passed = false := by decide
  exact (checkPairs_highlights (.arr [.obj []]) 0 rfl rfl hreported).1.trans (by rfl)

end SceneText.Review
