import Mathlib.Data.List.Chain
import SceneText.Layout.Wrap
import SceneText.Proofs.Lengths

/-!
# Wrapped lines

Filling puts as many characters into each line as there is room for. The lines that come out of it
are the only ones with this property, whatever the limit is, even one that no character fits.
Unwrapping takes out the line ends that wrapping has put in, and no others come into being between
the lines: a return at the end of a line does not form a line end with what follows it. So wrapping
again starts from the same text.
-/

namespace SceneText.Layout

open List Text

variable {line text : List Char}

theorem replaceFrom_feed (text : List Char) :
    replaceFrom ['\n'] [] 0 text = text.filter (· ≠ '\n') := by
  induction text with
  | nil => rfl
  | cons c rest ih =>
    rw [replaceFrom]
    by_cases hc : c = '\n'
    · simpa [hc, List.isPrefixOf] using ih
    · simpa [hc, Ne.symm hc, List.isPrefixOf] using ih

theorem lineEnd_isPrefixOf (c : Char) (rest : List Char) :
    lineEnd.isPrefixOf (c :: rest) = true ↔ c = '\r' ∧ rest.head? = some '\n' := by
  rw [ isPrefixOf_iff_prefix, lineEnd, cons_prefix_cons, eq_comm]
  cases rest with
  | nil => simp
  | cons d rest => simp [cons_prefix_cons, eq_comm]

theorem replaceFrom_line (h : '\n' ∉ line) (rest : List Char) :
    replaceFrom lineEnd [] 0 (line ++ lineEnd ++ rest) =
      line ++ replaceFrom lineEnd [] 0 rest := by
  induction line with
  | nil => rfl
  | cons c line ih =>
    rw [mem_cons, not_or] at h
    have hinner : ¬ lineEnd.isPrefixOf (c :: (line ++ lineEnd ++ rest)) = true := by
      rw [lineEnd_isPrefixOf]
      rintro ⟨-, hfeed⟩
      cases line with
      | nil => simp [lineEnd] at hfeed
      | cons d line => exact h.2 (by simp_all)
    rw [cons_append, cons_append, replaceFrom, if_neg hinner, ih h.2, cons_append]

theorem replaceFrom_plain (h : '\n' ∉ text) : replaceFrom lineEnd [] 0 text = text := by
  induction text with
  | nil => rfl
  | cons c rest ih =>
    rw [mem_cons, not_or] at h
    have hno : ¬ lineEnd.isPrefixOf (c :: rest) = true := by
      rw [lineEnd_isPrefixOf]
      exact fun hend => h.2 (mem_of_mem_head? hend.2)
    rw [replaceFrom, if_neg hno, ih h.2]

theorem unwrap_eq (text : List Char) :
    unwrap text = (replaceFrom lineEnd [] 0 text).filter (· ≠ '\n') :=
  replaceFrom_feed _

theorem feed_not_mem_unwrap (text : List Char) : '\n' ∉ unwrap text := by
  simp [unwrap_eq]

theorem filter_plain (h : '\n' ∉ text) : text.filter (· ≠ '\n') = text := by
  rw [filter_eq_self]
  intro c hc
  exact decide_eq_true fun heq => h (heq ▸ hc)

theorem unwrap_plain (h : '\n' ∉ text) : unwrap text = text := by
  rw [unwrap_eq, replaceFrom_plain h, filter_plain h]

theorem replaceFrom_join {lines : List (List Char)} (h : ∀ line ∈ lines, '\n' ∉ line) :
    replaceFrom lineEnd [] 0 (join lineEnd lines) = lines.flatten := by
  induction lines with
  | nil => rfl
  | cons line lines ih =>
    have hrest := ih fun l hl => h l (by simp [hl])
    cases lines with
    | nil => simpa [join] using replaceFrom_plain (h line (by simp))
    | cons next lines =>
      rw [join, replaceFrom_line (h line (by simp)), hrest, ← flatten_cons]
      exact cons_ne_nil _ _

theorem unwrap_join {lines : List (List Char)} (h : '\n' ∉ lines.flatten) :
    unwrap (join lineEnd lines) = lines.flatten := by
  have hlines : ∀ line ∈ lines, '\n' ∉ line := by
    intro line hline hfeed
    exact h (mem_flatten.mpr ⟨line, hline, hfeed⟩)
  rw [unwrap_eq, replaceFrom_join hlines, filter_plain h]

section
variable (limit : Limit)

theorem flatten_fill (line : List Char) (width : Nat) (text : List Char) :
    (fill limit line width text).flatten = line ++ text := by
  fun_induction fill limit line width text with
  | case1 line width hempty => simpa using hempty
  | case2 line width hline => simp
  | case3 line width c rest hwide hempty ih =>
    rw [flatten_cons, ih, List.isEmpty_iff.mp hempty]
    rfl
  | case4 line width c rest hwide hline ih =>
    rw [flatten_cons, ih]
    rfl
  | case5 line width c rest hroom ih => simp [ih]

theorem unwrap_wrap (text : List Char) : unwrap (wrap text limit) = unwrap text := by
  have hflat := flatten_fill limit [] 0 (unwrap text)
  rw [wrap, unwrap_join, hflat, nil_append]
  rw [hflat, nil_append]
  exact feed_not_mem_unwrap text

end

theorem lineWidth_append (xs ys : List Char) :
    lineWidth (xs ++ ys) = lineWidth xs + lineWidth ys := by
  induction xs with
  | nil => simp [lineWidth]
  | cons c xs ih => rw [cons_append, lineWidth, lineWidth, ih, Nat.add_assoc]

theorem lineWidth_singleton (c : Char) : lineWidth [c] = columns c :=
  rfl

def FitsLine (limit : Int) (line : List Char) : Prop :=
  (lineWidth line : Int) ≤ limit ∨ line.length = 1

def IsFull (limit : Int) (line next : List Char) : Prop :=
  ∀ c ∈ next.head?, limit < lineWidth line + columns c

/-- Lines that are filled one after the other. -/
structure Filled (limit : Int) (lines : List (List Char)) : Prop where
  nonempty : ∀ line ∈ lines, line ≠ []
  fits : ∀ line ∈ lines, FitsLine limit line
  full : lines.IsChain (IsFull limit)

namespace Filled

variable {limit : Int} {line : List Char} {lines : List (List Char)}

theorem nil : Filled limit [] :=
  ⟨by simp, by simp, .nil⟩

theorem cons (hne : line ≠ []) (hfits : FitsLine limit line)
    (hfull : ∀ next ∈ lines.head?, IsFull limit line next) (h : Filled limit lines) :
    Filled limit (line :: lines) :=
  ⟨forall_mem_cons.mpr ⟨hne, h.nonempty⟩, forall_mem_cons.mpr ⟨hfits, h.fits⟩,
    isChain_cons.mpr ⟨hfull, h.full⟩⟩

theorem tail (h : Filled limit (line :: lines)) : Filled limit lines :=
  ⟨(forall_mem_cons.mp h.nonempty).2, (forall_mem_cons.mp h.fits).2, (isChain_cons.mp h.full).2⟩

end Filled

theorem head_fill (limit : Limit) {c : Char} (hline : line.head? = some c) (width : Nat)
    (text : List Char) : ∀ first ∈ (fill limit line width text).head?, first.head? = some c := by
  fun_induction fill limit line width text with
  | case1 line width hempty => simp
  | case2 line width hne => simpa using hline
  | case3 line width d rest hwide hempty ih => simp_all
  | case4 line width d rest hwide hne ih => simpa using hline
  | case5 line width d rest hroom ih =>
    apply ih
    rw [head?_append, hline]
    rfl

theorem filled_fill (limit : Int) (hfits : line ≠ [] → FitsLine limit line) (text : List Char) :
    Filled limit (fill (.whole limit) line (lineWidth line) text) := by
  induction text generalizing line with
  | nil =>
    rw [fill]
    by_cases hempty : line = []
    · rw [if_pos (by simp [hempty])]
      exact .nil
    · rw [if_neg (by simpa using hempty)]
      exact .cons hempty (hfits hempty) (by simp) .nil
  | cons c rest ih =>
    rw [fill, Limit.isExceededBy_whole]
    by_cases hwide : limit < (lineWidth line + columns c : Nat)
    · rw [if_pos (decide_eq_true hwide)]
      by_cases hempty : line = []
      · -- The character is too wide by itself, so that nothing can follow it in its line.
        subst hempty
        refine .cons (cons_ne_nil _ _) (.inr rfl) ?_ (ih (absurd rfl))
        intro next _ d _
        rw [lineWidth] at hwide
        rw [lineWidth_singleton]
        omega
      · rw [if_neg (by simpa using hempty)]
        refine .cons hempty (hfits hempty) ?_ (ih fun _ => .inr rfl)
        intro next hnext d hd
        have hfirst := head_fill (.whole limit) rfl (columns c) rest next hnext
        obtain rfl : c = d := Option.some.inj (hfirst.symm.trans hd)
        omega
    · rw [if_neg (by simpa using hwide)]
      have hgrown : lineWidth (line ++ [c]) = lineWidth line + columns c :=
        lineWidth_append line [c]
      rw [← hgrown] at hwide ⊢
      exact ih fun _ => .inl (Int.not_lt.mp hwide)

namespace Filled

variable {limit : Int} {line more : List Char} {lines xs ys : List (List Char)} {c : Char}

theorem eq_nil (h : Filled limit lines) (hflat : lines.flatten = []) : lines = [] := by
  cases lines with
  | nil => rfl
  | cons line lines =>
    rw [flatten_cons, append_eq_nil_iff] at hflat
    exact absurd hflat.1 (h.nonempty line (by simp))

theorem no_room (h : Filled limit (line :: lines)) (hnext : lines.flatten = c :: more) :
    limit < lineWidth line + columns c := by
  cases lines with
  | nil => cases hnext
  | cons next lines =>
    have hfull := (isChain_cons_cons.mp h.full).1
    cases next with
    | nil => exact absurd rfl (h.nonempty [] (by simp))
    | cons d next =>
      rw [flatten_cons, cons_append, List.cons.injEq] at hnext
      exact hfull c (by rw [hnext.1]; rfl)

theorem not_longer (h : Filled limit (line :: lines)) {rest : List Char}
    (hnext : lines.flatten = c :: more ++ rest) : ¬ FitsLine limit (line ++ c :: more) := by
  have hroom := h.no_room hnext
  rintro (hfits | hsingle)
  · rw [lineWidth_append, lineWidth] at hfits
    omega
  · have hpos := length_pos_iff.mpr (h.nonempty line (by simp))
    rw [length_append, length_cons] at hsingle
    omega

theorem unique (hx : Filled limit xs) (hy : Filled limit ys) (h : xs.flatten = ys.flatten) :
    xs = ys := by
  induction xs generalizing ys with
  | nil => exact (hy.eq_nil h.symm).symm
  | cons x xs ih =>
    cases ys with
    | nil => exact hx.eq_nil h
    | cons y ys =>
      rw [flatten_cons, flatten_cons, append_eq_append_iff] at h
      rcases h with ⟨extra, hlong, hrest⟩ | ⟨extra, hlong, hrest⟩
      · cases extra with
        | nil =>
          rw [append_nil] at hlong
          rw [hlong, ih hx.tail hy.tail hrest]
        | cons c more => exact absurd (hlong ▸ hy.fits y (by simp)) (hx.not_longer hrest)
      · cases extra with
        | nil =>
          rw [append_nil] at hlong
          rw [hlong, ih hx.tail hy.tail hrest.symm]
        | cons c more => exact absurd (hlong ▸ hx.fits x (by simp)) (hy.not_longer hrest)

end Filled

namespace WrapMode

theorem apply_wrap (limit : Int) (text : String) :
    WrapMode.wrap.apply (.int limit) (.str text) =
      .ok (String.ofList (Layout.wrap text.toList (.whole limit))) := by
  have hagain := unwrap_plain (feed_not_mem_unwrap text.toList)
  have hwrap : Layout.wrap text.toList (.whole limit) =
      Layout.wrap (Layout.unwrap text.toList) (.whole limit) := by
    rw [Layout.wrap, Layout.wrap, hagain]
  rw [hwrap, apply]
  dsimp only [Json.asText, bind, Except.bind]
  cases Layout.unwrap text.toList with
  | nil => rfl
  | cons c rest => rfl

/-- Wrapping joins lines that are made of the unwrapped text and filled one after the other, and no
other lines of this text are. -/
theorem apply_wrap_filled (text : String) (limit : Int) :
    ∃ lines, WrapMode.wrap.apply (.int limit) (.str text) =
        .ok (String.ofList (join lineEnd lines)) ∧
      lines.flatten = Layout.unwrap text.toList ∧ Filled limit lines ∧
      ∀ others, others.flatten = Layout.unwrap text.toList → Filled limit others →
        others = lines := by
  have hflat := flatten_fill (.whole limit) [] 0 (Layout.unwrap text.toList)
  have hfilled : Filled limit (fill (.whole limit) [] 0 (Layout.unwrap text.toList)) :=
    filled_fill limit (absurd rfl) (Layout.unwrap text.toList)
  refine ⟨_, apply_wrap limit text, hflat, hfilled, ?_⟩
  intro others hothers hfilled'
  exact hfilled'.unique hfilled (hothers.trans hflat.symm)

theorem apply_wrap_filled_bar :
    Filled 1 [['あ'], ['|', 'a'], ['b']] ∧
      WrapMode.wrap.apply (.int 1) (.str "あ|\r\nab") = .ok "あ\r\n|a\r\nb" := by
  have hfilled : Filled 1 [['あ'], ['|', 'a'], ['b']] := by
    refine .cons (by decide) (.inr rfl) ?_ (.cons (by decide) (.inl (by decide)) ?_
      (.cons (by decide) (.inr rfl) (by simp) .nil))
    · rintro _ ⟨⟩ _ ⟨⟩
      decide
    · rintro _ ⟨⟩ _ ⟨⟩
      decide
  obtain ⟨lines, hlines, -, -, hunique⟩ := apply_wrap_filled "あ|\r\nab" 1
  obtain rfl := hunique _ (by decide) hfilled
  exact ⟨hfilled, hlines⟩

/-- Unwrapping undoes wrapping, so that a wrapped text is wrapped or unwrapped again like the text
itself: wrapping goes by the last limit only. -/
theorem apply_wrap_again (text : String) (limit limit' : Int) :
    ∃ wrapped, WrapMode.wrap.apply (.int limit) (.str text) = .ok wrapped ∧
      Layout.unwrap wrapped.toList = Layout.unwrap text.toList ∧
      (∀ mode : WrapMode, mode.apply (.int limit') (.str wrapped) =
        mode.apply (.int limit') (.str text)) ∧
      WrapMode.wrap.apply (.int limit) (.str wrapped) = .ok wrapped := by
  have hback : Layout.unwrap (String.ofList (Layout.wrap text.toList (.whole limit))).toList =
      Layout.unwrap text.toList := by
    rw [String.toList_ofList]
    exact unwrap_wrap (.whole limit) text.toList
  have hagain : ∀ (mode : WrapMode) (limit' : Int),
      mode.apply (.int limit') (.str (String.ofList (Layout.wrap text.toList (.whole limit)))) =
        mode.apply (.int limit') (.str text) := by
    intro mode limit'
    rw [apply, apply, Json.asText, Json.asText]
    dsimp only [bind, Except.bind]
    rw [hback]
  refine ⟨_, apply_wrap limit text, hback, fun mode => hagain mode limit', ?_⟩
  rw [hagain, apply_wrap]

end WrapMode

end SceneText.Layout
