import SceneText.FileTree.Operations

/-!
# Names at the end of a path

A path to a directory and a name are joined by a slash, unless one is there already. The names that
the joined path asks for are those of the path to the directory and the name behind them, and it is
cut before the name again.
-/

namespace SceneText

open List SceneText.Path
open String (append_empty ofList ofList_append ofList_toList toList_append toList_ofList)

variable {path : String}

structure IsName (x : String) : Prop where
  filled : x ≠ ""
  notDot : x ≠ "."
  notDots : x ≠ ".."
  noSlash : '/' ∉ x.toList
  noZero : '\x00' ∉ x.toList
  short : x.utf8ByteSize ≤ 255

instance (x : String) : Decidable (IsName x) :=
  decidable_of_iff (x ≠ "" ∧ x ≠ "." ∧ x ≠ ".." ∧ '/' ∉ x.toList ∧ '\x00' ∉ x.toList ∧
      x.utf8ByteSize ≤ 255)
    ⟨fun ⟨h₁, h₂, h₃, h₄, h₅, h₆⟩ => ⟨h₁, h₂, h₃, h₄, h₅, h₆⟩,
      fun h => ⟨h.filled, h.notDot, h.notDots, h.noSlash, h.noZero, h.short⟩⟩

theorem IsName.last {x : String} (hx : IsName x) :
    ∃ front c, x.toList = front ++ [c] ∧ c ≠ '/' := by
  rcases eq_nil_or_concat x.toList with hnil | ⟨front, c, hchars⟩
  · exact absurd (by simpa using hnil) hx.filled
  · rw [concat_eq_append] at hchars
    exact ⟨front, c, hchars, fun h => hx.noSlash (by rw [hchars, h]; simp)⟩

namespace Text

theorem splitAll_ne_nil (mark : Char) (text : List Char) : splitAll mark text ≠ [] := by
  cases text with
  | nil => simp [splitAll]
  | cons c rest =>
    rw [splitAll]
    split
    · simp
    · split <;> simp

theorem splitAll_plain {mark : Char} {text : List Char} (h : mark ∉ text) :
    splitAll mark text = [text] := by
  induction text with
  | nil => rfl
  | cons c rest ih =>
    rw [mem_cons, not_or] at h
    rw [splitAll, if_neg (Ne.symm h.1), ih h.2]

theorem splitAll_append (mark : Char) (front rest : List Char) :
    splitAll mark (front ++ mark :: rest) = splitAll mark front ++ splitAll mark rest := by
  induction front with
  | nil => simp [splitAll]
  | cons c front ih =>
    rw [cons_append, splitAll, splitAll, ih]
    by_cases hc : c = mark
    · rw [if_pos hc, if_pos hc, cons_append]
    · rw [if_neg hc, if_neg hc]
      cases hsplit : splitAll mark front with
      | nil => exact absurd hsplit (splitAll_ne_nil mark front)
      | cons part parts => rfl

theorem length_splitAll_le (mark : Char) (text : List Char) :
    (splitAll mark text).length ≤ text.length + 1 := by
  induction text with
  | nil => simp [splitAll]
  | cons c rest ih =>
    rw [splitAll]
    split
    · simpa using ih
    · split
      · simp
      · next part parts hparts =>
        rw [hparts, length_cons] at ih
        rw [length_cons, length_cons]
        omega

theorem endsWith_iff {text tail : List Char} : endsWith text tail = true ↔ tail <:+ text := by
  rw [endsWith, isPrefixOf_iff_prefix, reverse_prefix]

theorem hasSuffix_iff {text tail : String} :
    hasSuffix text tail = true ↔ ∃ u, text = u ++ tail := by
  rw [hasSuffix, endsWith_iff]
  constructor
  · rintro ⟨u, hu⟩
    refine ⟨ofList u, ?_⟩
    rw [← String.toList_inj, toList_append, toList_ofList, hu]
  · rintro ⟨u, rfl⟩
    exact ⟨u.toList, by rw [toList_append]⟩

theorem length_le_size (chars : List Char) : chars.length ≤ (ofList chars).utf8ByteSize := by
  induction chars with
  | nil => simp
  | cons c chars ih =>
    have hpos := c.utf8Size_pos
    rw [String.ofList_cons, String.utf8ByteSize_append, String.utf8ByteSize_singleton, length_cons]
    omega

end Text

namespace Path

variable {top x : String}

def filledParts (path : String) : List String :=
  (parts path).filter fun p => !p.isEmpty

def opened (top : String) : String :=
  if top.isEmpty || Text.hasSuffix top "/" then top else top ++ "/"

theorem parts_slash (a b : String) : parts (a ++ "/" ++ b) = parts a ++ parts b := by
  have hchars : (a ++ "/" ++ b).toList = a.toList ++ '/' :: b.toList := by simp
  rw [parts, hchars, Text.splitAll_append, map_append]
  rfl

theorem filledParts_slash (u : String) : filledParts (u ++ "/") = filledParts u := by
  have hparts := parts_slash u ""
  rw [append_empty] at hparts
  rw [filledParts, hparts, filter_append]
  exact append_nil _

theorem opened_cases (top : String) : opened top = "" ∧ top = "" ∨ ∃ u, opened top = u ++ "/" := by
  unfold opened
  split
  · next h =>
    rw [Bool.or_eq_true, String.isEmpty_iff, Text.hasSuffix_iff] at h
    exact h.imp (fun h => ⟨h, h⟩) id
  · exact .inr ⟨top, rfl⟩

theorem filledParts_opened (top : String) : filledParts (opened top) = filledParts top := by
  unfold opened
  split
  · rfl
  · exact filledParts_slash top

theorem join_name (hx : IsName x) : join top x = opened top ++ x := by
  have hplain : ¬ Text.hasPrefix x "/" = true := by
    rw [Text.hasPrefix, isPrefixOf_iff_prefix]
    exact fun h => hx.noSlash (h.subset (by simp))
  rw [join, if_neg hplain, opened]
  split <;> rfl

theorem filledParts_append {front : String} (hfront : front = "" ∨ ∃ u, front = u ++ "/")
    (rest : String) : filledParts (front ++ rest) = filledParts front ++ filledParts rest := by
  rcases hfront with rfl | ⟨u, rfl⟩
  · rfl
  · rw [filledParts_slash, filledParts, parts_slash, filter_append]
    rfl

theorem filledParts_plain (hfilled : x ≠ "") (hplain : '/' ∉ x.toList) : filledParts x = [x] := by
  rw [filledParts, parts, Text.splitAll_plain hplain]
  simp [hfilled]

theorem filledParts_join (hx : IsName x) : filledParts (join top x) = filledParts top ++ [x] := by
  have hopened : opened top = "" ∨ ∃ u, opened top = u ++ "/" :=
    (opened_cases top).imp_left And.left
  rw [join_name hx, filledParts_append hopened, filledParts_opened,
    filledParts_plain hx.filled hx.noSlash]

theorem not_hasSuffix_name (front : String) (hx : IsName x) :
    Text.hasSuffix (front ++ x) "/" = false := by
  obtain ⟨start, c, hchars, hc⟩ := hx.last
  rw [Bool.eq_false_iff, Ne, Text.hasSuffix_iff]
  rintro ⟨u, hu⟩
  have hlists : (front.toList ++ start) ++ [c] = u.toList ++ ['/'] := by
    rw [append_assoc, ← hchars, ← toList_append, hu, toList_append]
    rfl
  exact hc (singleton_inj.mp (append_inj_right' hlists rfl))

theorem plain_join (hx : IsName x) (htop : '\x00' ∉ top.toList) : '\x00' ∉ (join top x).toList := by
  rw [join_name hx, toList_append, mem_append, opened]
  split
  · exact not_or.mpr ⟨htop, hx.noZero⟩
  · simp [htop, hx.noZero]

theorem splitLast_join (hx : IsName x) :
    splitLast (join top x).toList = ((opened top).toList, x.toList) := by
  have htail : ((join top x).toList.reverse.takeWhile (· ≠ '/')).reverse = x.toList := by
    have hname : ∀ c ∈ x.toList.reverse, decide (c ≠ '/') = true := by
      intro c hc
      simpa using fun h : c = '/' => hx.noSlash (h ▸ mem_reverse.mp hc)
    rw [join_name hx, toList_append, reverse_append, takeWhile_append_of_pos hname]
    rcases opened_cases top with ⟨hempty, -⟩ | ⟨u, hu⟩
    · simp [hempty]
    · simp [hu]
  rw [splitLast, htail, join_name hx, toList_append]
  simp

theorem dropTrailingSlashes_join (hx : IsName x) :
    dropTrailingSlashes (join top x).toList = (join top x).toList := by
  obtain ⟨front, c, hchars, hc⟩ := hx.last
  rw [dropTrailingSlashes, join_name hx, toList_append, hchars]
  simp [hc]

theorem filledParts_slashes (path : String) (n : Nat) :
    filledParts (path ++ ofList (List.replicate n '/')) = filledParts path := by
  induction n with
  | zero => simp
  | succ n ih =>
    rw [replicate_succ', ofList_append, ← String.append_assoc]
    exact (filledParts_slash _).trans ih

theorem base_join (hx : IsName x) : base (join top x) = x := by
  rw [base, splitLast_join hx, ofList_toList]

theorem name_join (hx : IsName x) : (Clean.ofText (join top x)).name = x := by
  have hparts : (Clean.ofText (join top x)).parts =
      (filledParts (join top x)).filter fun p => p ≠ "." := by
    rw [filledParts, filter_filter]
    exact filter_congr fun p _ => Bool.and_comm _ _
  rw [Clean.name, hparts, filledParts_join hx, filter_append]
  simp [hx.notDot]

theorem splitLast_eq (text : List Char) :
    text = (splitLast text).1 ++ (splitLast text).2 ∧ '/' ∉ (splitLast text).2 ∧
      ((splitLast text).1 = [] ∨ ∃ u, (splitLast text).1 = u ++ ['/']) := by
  have hreverse : text = (text.reverse.dropWhile (· ≠ '/')).reverse ++
      (text.reverse.takeWhile (· ≠ '/')).reverse := by
    rw [← reverse_append, takeWhile_append_dropWhile, reverse_reverse]
  have htake : ∀ a b : List Char, text = a ++ b → text.take (text.length - b.length) = a := by
    rintro a b rfl
    simp
  have hhead : (splitLast text).1 = (text.reverse.dropWhile (· ≠ '/')).reverse := htake _ _ hreverse
  refine ⟨hhead ▸ hreverse, ?_, ?_⟩
  · rw [splitLast, mem_reverse]
    exact fun hslash => absurd (all_eq_true.mp all_takeWhile _ hslash) (by simp)
  · rw [hhead]
    cases hrest : text.reverse.dropWhile (· ≠ '/') with
    | nil => exact .inl rfl
    | cons c rest =>
      have hfirst := head?_dropWhile_not (· ≠ '/') text.reverse
      rw [hrest] at hfirst
      have hc : c = '/' := by simpa using hfirst
      exact .inr ⟨rest.reverse, by rw [hc, reverse_cons]⟩

theorem dropTrailingSlashes_eq (text : List Char) :
    ∃ n, text = dropTrailingSlashes text ++ List.replicate n '/' := by
  have hslashes : ∀ c ∈ text.reverse.takeWhile (· = '/'), c = '/' :=
    fun c hc => by simpa using all_eq_true.mp all_takeWhile c hc
  refine ⟨(text.reverse.takeWhile (· = '/')).length, ?_⟩
  rw [← reverse_replicate, ← eq_replicate_of_mem hslashes, dropTrailingSlashes,
    ← reverse_append, takeWhile_append_dropWhile, reverse_reverse]

theorem directory_cases (path : String) :
    (splitLast path.toList).1.all (· = '/') = true ∧
        directory path = ofList (splitLast path.toList).1 ∨
      ¬ (splitLast path.toList).1.all (· = '/') = true ∧
        directory path = ofList (dropTrailingSlashes (splitLast path.toList).1) := by
  by_cases h : (splitLast path.toList).1.all (· = '/') = true
  · exact .inl ⟨h, if_pos h⟩
  · exact .inr ⟨h, if_neg h⟩

theorem front_base (path : String) :
    path = ofList (splitLast path.toList).1 ++ base path ∧
      (ofList (splitLast path.toList).1 = "" ∨
        ∃ u, ofList (splitLast path.toList).1 = u ++ "/") := by
  obtain ⟨hsplit, -, hfront⟩ := splitLast_eq path.toList
  constructor
  · rw [base, ← ofList_append, ← hsplit, ofList_toList]
  · rcases hfront with hfront | ⟨u, hu⟩
    · exact .inl (by rw [hfront])
    · exact .inr ⟨ofList u, by rw [hu, ofList_append]⟩

theorem directory_base (path : String) :
    ∃ front n, path = front ++ base path ∧ (front = "" ∨ ∃ u, front = u ++ "/") ∧
      front = directory path ++ ofList (List.replicate n '/') ∧
      (directory path = "" → front = "") := by
  obtain ⟨hpath, hslash⟩ := front_base path
  rcases directory_cases path with ⟨-, hdir⟩ | ⟨hmixed, hdir⟩
  · exact ⟨_, 0, hpath, hslash, by simp [hdir], fun h => hdir ▸ h⟩
  · obtain ⟨n, hn⟩ := dropTrailingSlashes_eq (splitLast path.toList).1
    refine ⟨_, n, hpath, hslash, by rw [hdir, ← ofList_append, ← hn], fun h => ?_⟩
    rw [hdir, String.ofList_eq_empty_iff] at h
    exact absurd (by rw [hn, h]; simp) hmixed

theorem base_noSlash (path : String) : '/' ∉ (base path).toList := by
  rw [base, toList_ofList]
  exact (splitLast_eq path.toList).2.1

theorem filledParts_base (h : base path ≠ "") :
    filledParts path = filledParts (directory path) ++ [base path] := by
  obtain ⟨front, n, hpath, hfront, hslashes, -⟩ := directory_base path
  calc filledParts path = filledParts (front ++ base path) := by rw [← hpath]
    _ = filledParts front ++ filledParts (base path) := filledParts_append hfront _
    _ = filledParts (directory path) ++ [base path] := by
        rw [hslashes, filledParts_slashes, filledParts_plain h (base_noSlash path)]

theorem dropTrailingSlashes_ne (text u : List Char) : dropTrailingSlashes text ≠ u ++ ['/'] := by
  intro h
  have hreverse := congrArg List.reverse h
  rw [dropTrailingSlashes, reverse_reverse, reverse_append] at hreverse
  have hfirst := head?_dropWhile_not (· = '/') text.reverse
  rw [hreverse] at hfirst
  simp at hfirst

theorem filledParts_directory (h : base path = "") :
    filledParts (directory path) = filledParts path := by
  obtain ⟨front, n, hpath, -, hslashes, -⟩ := directory_base path
  rw [h, append_empty] at hpath
  rw [← filledParts_slashes (directory path) n, ← hslashes, ← hpath]

theorem base_directory (h : base path = "") (hparts : filledParts path ≠ []) :
    base (directory path) ≠ "" := by
  intro hbase
  have hfront : (splitLast path.toList).1 = path.toList := by
    have htail : (splitLast path.toList).2 = [] := by simpa [base] using h
    have hsplit := (splitLast_eq path.toList).1
    rw [htail, append_nil] at hsplit
    exact hsplit.symm
  obtain ⟨front', -, hpath', hfront', -, -⟩ := directory_base (directory path)
  rw [hbase, append_empty] at hpath'
  rcases hfront' with hempty | ⟨u, hu⟩
  · rw [← filledParts_directory h, hpath', hempty] at hparts
    exact hparts rfl
  · rcases directory_cases path with ⟨hall, -⟩ | ⟨-, hdir⟩
    · rw [hfront, all_eq_true] at hall
      have hchars := eq_replicate_of_mem fun c hc => of_decide_eq_true (hall c hc)
      have hnone := filledParts_slashes "" path.toList.length
      rw [← hchars, ofList_toList, String.empty_append] at hnone
      exact hparts hnone
    · have hchars := congrArg String.toList (hdir.symm.trans (hpath'.trans hu))
      rw [toList_ofList, hfront, toList_append] at hchars
      exact dropTrailingSlashes_ne _ _ hchars

theorem isAbsolute_append {a : String} (b : String) (ha : a ≠ "") :
    isAbsolute (a ++ b) = isAbsolute a := by
  rw [isAbsolute, isAbsolute, Text.hasPrefix, Text.hasPrefix]
  cases hchars : a.toList with
  | nil => exact absurd (by simpa using hchars) ha
  | cons c rest => simp [hchars, List.isPrefixOf]

theorem opened_ne (htop : top ≠ "") : opened top ≠ "" := by
  rcases opened_cases top with ⟨-, hempty⟩ | ⟨u, hu⟩
  · exact absurd hempty htop
  · simp [hu]

theorem isAbsolute_opened (htop : top ≠ "") : isAbsolute (opened top) = isAbsolute top := by
  unfold opened
  split
  · rfl
  · exact isAbsolute_append "/" htop

theorem isAbsolute_join (hx : IsName x) (htop : top ≠ "") :
    isAbsolute (join top x) = isAbsolute top := by
  rw [join_name hx, isAbsolute_append x (opened_ne htop), isAbsolute_opened htop]

end Path

namespace FileTree

variable {top x : String}

theorem namesOf_join (hx : IsName x) : namesOf (join top x) = filledParts top ++ [x] := by
  rw [namesOf, join_name hx, not_hasSuffix_name _ hx, ← join_name hx]
  exact filledParts_join hx

theorem namesOf_cases (top : String) :
    namesOf top = filledParts top ∨ namesOf top = filledParts top ++ ["."] := by
  rw [namesOf]
  split
  · exact .inr rfl
  · exact .inl rfl

theorem withoutTrailingSlash_join (hx : IsName x) :
    withoutTrailingSlash (join top x) = join top x := by
  rw [withoutTrailingSlash, dropTrailingSlashes_join hx]
  split
  · rfl
  · exact ofList_toList

end FileTree
end SceneText
