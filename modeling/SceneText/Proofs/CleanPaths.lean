import SceneText.Proofs.NewDirectories

/-!
# Clean paths

The text of a clean path goes through its parts, and the path can be read off its text again. With a
name behind it a clean path has the text that joining gives. Where it leads to a directory, so does
the path to its parent, which therefore need not be made.
-/

namespace SceneText

open List

namespace Text

theorem mark_not_mem_splitAll {mark : Char} {text part : List Char}
    (h : part ∈ splitAll mark text) : mark ∉ part := by
  induction text generalizing part with
  | nil =>
    rw [splitAll, mem_singleton] at h
    simp [h]
  | cons c rest ih =>
    rw [splitAll] at h
    split at h
    · rcases mem_cons.mp h with rfl | h
      · simp
      · exact ih h
    · next hc =>
      split at h
      · rw [mem_singleton] at h
        simpa [h] using Ne.symm hc
      · next first parts hparts =>
        rw [hparts] at ih
        rcases mem_cons.mp h with rfl | h
        · exact not_mem_cons_of_ne_of_not_mem (Ne.symm hc) (ih mem_cons_self)
        · exact ih (mem_cons_of_mem _ h)

end Text

namespace Path

variable {path x y : String} {ps : List String}

/-- A part of a clean path: a name or a double dot. -/
structure IsPart (p : String) : Prop where
  filled : p ≠ ""
  notDot : p ≠ "."
  noSlash : '/' ∉ p.toList

theorem isPart_name (hx : IsName x) : IsPart x :=
  ⟨hx.filled, hx.notDot, hx.noSlash⟩

theorem IsPart.not_hasSuffix (hy : IsPart y) (front : String) :
    Text.hasSuffix (front ++ y) "/" = false := by
  rw [Bool.eq_false_iff, Ne, Text.hasSuffix_iff]
  rintro ⟨u, hu⟩
  have hchars : front.toList ++ y.toList = u.toList ++ ['/'] := by
    rw [← String.toList_append, hu, String.toList_append]
    rfl
  rcases eq_nil_or_concat y.toList with hnil | ⟨start, c, hlast⟩
  · exact hy.filled (by simpa using hnil)
  · rw [concat_eq_append] at hlast
    rw [hlast, ← append_assoc] at hchars
    have hc : c = '/' := singleton_inj.mp (append_inj_right' hchars rfl)
    exact hy.noSlash (by simp [hlast, hc])

theorem parts_intercalate (hps : ps ≠ []) (h : ∀ p ∈ ps, '/' ∉ p.toList) :
    parts ("/".intercalate ps) = ps := by
  induction ps with
  | nil => exact absurd rfl hps
  | cons p ps ih =>
    have hp : parts p = [p] := by
      rw [parts, Text.splitAll_plain (h p mem_cons_self)]
      simp
    cases ps with
    | nil => rw [String.intercalate_singleton, hp]
    | cons q ps =>
      rw [String.intercalate_cons_cons, parts_slash, hp,
        ih (by simp) fun r hr => h r (mem_cons_of_mem _ hr)]
      rfl

namespace Clean

variable {p : Clean} {root : String}

def spelled (p : Clean) : String :=
  p.root ++ "/".intercalate p.parts

/-- What paths that are made from texts are like. -/
structure IsClean (p : Clean) : Prop where
  rooted : p.root = "" ∨ p.root = "/" ∨ p.root = "//"
  parts : ∀ y ∈ p.parts, IsPart y

theorem isClean_ofText (path : String) : (ofText path).IsClean := by
  constructor
  · unfold ofText rootOf
    split <;> simp
  · intro y hy
    obtain ⟨hmem, hkept⟩ := mem_filter.mp hy
    obtain ⟨chars, hchars, rfl⟩ := mem_map.mp hmem
    have hslash := Text.mark_not_mem_splitAll hchars
    simp only [Bool.and_eq_true, Bool.not_eq_true', decide_eq_true_eq] at hkept
    exact ⟨by simpa using hkept.1, hkept.2, by simpa using hslash⟩

theorem IsClean.front (h : IsClean ⟨root, ps ++ [y]⟩) : IsClean ⟨root, ps⟩ ∧ IsPart y :=
  ⟨⟨h.rooted, fun z hz => h.parts z (mem_append_left _ hz)⟩, h.parts y (by simp)⟩

theorem IsClean.concat (h : IsClean ⟨root, ps⟩) (hy : IsPart y) : IsClean ⟨root, ps ++ [y]⟩ :=
  ⟨h.rooted, forall_mem_append.mpr ⟨h.parts, forall_mem_singleton.mpr hy⟩⟩

theorem spelled_concat (h : IsClean ⟨root, ps⟩) (y : String) :
    spelled ⟨root, ps ++ [y]⟩ = opened (spelled ⟨root, ps⟩) ++ y := by
  rcases eq_nil_or_concat ps with rfl | ⟨front, z, rfl⟩
  · have hroot : opened root = root := by
      rcases h.rooted with hroot | hroot | hroot <;> rw [show root = _ from hroot] <;> decide
    simp [spelled, hroot]
  · rw [concat_eq_append] at h ⊢
    have hends : ∃ u, spelled ⟨root, front ++ [z]⟩ = u ++ z := by
      by_cases hfront : front = []
      · exact ⟨root, by simp [spelled, hfront]⟩
      · refine ⟨root ++ "/".intercalate front ++ "/", ?_⟩
        rw [spelled, String.intercalate_append_of_ne_nil hfront (by simp),
          String.intercalate_singleton]
        simp [String.append_assoc]
    obtain ⟨u, hu⟩ := hends
    have hfilled : (spelled ⟨root, front ++ [z]⟩).isEmpty = false := by
      simp [hu, h.front.2.filled]
    have hslash : Text.hasSuffix (spelled ⟨root, front ++ [z]⟩) "/" = false := by
      rw [hu]
      exact h.front.2.not_hasSuffix u
    rw [opened, hfilled, hslash, spelled, spelled, String.intercalate_append_of_ne_nil (by simp)
      (by simp), String.intercalate_singleton]
    simp [String.append_assoc]

theorem filledParts_spelled (h : p.IsClean) : filledParts p.spelled = p.parts := by
  have hroot : (p.root = "" ∨ ∃ u, p.root = u ++ "/") ∧ filledParts p.root = [] := by
    rcases h.rooted with hroot | hroot | hroot <;> rw [hroot]
    · exact ⟨.inl rfl, by decide⟩
    · exact ⟨.inr ⟨"", rfl⟩, by decide⟩
    · exact ⟨.inr ⟨"/", rfl⟩, by decide⟩
  rw [spelled, filledParts_append hroot.1, hroot.2, nil_append]
  by_cases hparts : p.parts = []
  · rw [hparts]
    decide
  · rw [filledParts, parts_intercalate hparts fun y hy => (h.parts y hy).noSlash, filter_eq_self]
    intro y hy
    simpa using (h.parts y hy).filled

theorem spelled_eq_empty (h : p.IsClean) : p.spelled = "" ↔ p.root = "" ∧ p.parts = [] := by
  constructor
  · intro hempty
    have hparts := filledParts_spelled h
    rw [hempty] at hparts
    rw [spelled, String.append_eq_empty_iff] at hempty
    exact ⟨hempty.1, hparts.symm⟩
  · rintro ⟨hroot, hparts⟩
    simp [spelled, hroot, hparts]

theorem toText_eq (h : p.IsClean) : p.toText = if p.spelled = "" then "." else p.spelled := by
  rw [toText]
  by_cases hempty : p.root = "" ∧ p.parts = []
  · rw [if_pos (by simpa using hempty), if_pos ((spelled_eq_empty h).mpr hempty)]
  · rw [if_neg (by simpa using hempty),
      if_neg fun hspelled => hempty ((spelled_eq_empty h).mp hspelled)]
    rfl

theorem rootOf_spelled (h : p.IsClean) : rootOf p.spelled = p.root := by
  -- The text behind the root does not begin with a slash.
  have hrest : ("/".intercalate p.parts).toList.takeWhile (· = '/') = [] := by
    cases hparts : p.parts with
    | nil => rfl
    | cons y ps =>
      have hy : IsPart y := h.parts y (by simp [hparts])
      obtain ⟨c, chars, hchars⟩ := exists_cons_of_ne_nil
        (show y.toList ≠ [] by simpa using hy.filled)
      have hc : c ≠ '/' := fun hc => hy.noSlash (by simp [hchars, hc])
      have hfirst : ∃ more, ("/".intercalate (y :: ps)).toList = c :: more := by
        cases ps with
        | nil => exact ⟨chars, by rw [String.intercalate_singleton, hchars]⟩
        | cons z ps => simp [String.intercalate_cons_cons, hchars]
      obtain ⟨more, hmore⟩ := hfirst
      rw [hmore]
      simp [hc]
  have hslashes : ∀ slashes : List Char, (slashes.all fun c => decide (c = '/')) = true →
      (slashes ++ ("/".intercalate p.parts).toList).takeWhile (· = '/') = slashes := by
    intro slashes hall
    rw [takeWhile_append_of_pos (all_eq_true.mp hall), hrest, append_nil]
  unfold rootOf
  rw [spelled, String.toList_append]
  rcases h.rooted with hroot | hroot | hroot <;> rw [hroot, hslashes _ (by decide)] <;> rfl

theorem ofText_spelled (h : p.IsClean) : ofText p.spelled = p := by
  have hparts : (Path.parts p.spelled).filter (fun y => !y.isEmpty && y ≠ ".") = p.parts := by
    have hfilled := filledParts_spelled h
    rw [filledParts] at hfilled
    have hfilter : (Path.parts p.spelled).filter (fun y => !y.isEmpty && y ≠ ".") =
        ((Path.parts p.spelled).filter fun y => !y.isEmpty).filter fun y => y ≠ "." := by
      rw [filter_filter]
      exact filter_congr fun y _ => Bool.and_comm _ _
    rw [hfilter, hfilled, filter_eq_self]
    intro y hy
    simpa using (h.parts y hy).notDot
  rw [ofText, rootOf_spelled h, hparts]

theorem append_name (p : Clean) (hx : IsName x) : p.append x = ⟨p.root, p.parts ++ [x]⟩ := by
  have hclean : IsClean ⟨"", [x]⟩ := ⟨.inl rfl, by simpa using isPart_name hx⟩
  have htext : ofText x = ⟨"", [x]⟩ := by
    simpa [spelled] using ofText_spelled hclean
  simp [append, htext]

theorem toText_append (h : p.IsClean) (hx : IsName x) : (p.append x).toText = join p.spelled x := by
  have hclean : IsClean ⟨p.root, p.parts ++ [x]⟩ := h.concat (isPart_name hx)
  have hspelled : spelled ⟨p.root, p.parts ++ [x]⟩ = join p.spelled x := by
    rw [join_name hx]
    exact spelled_concat h x
  rw [append_name p hx, toText_eq hclean, hspelled, if_neg (FileTree.join_ne_empty hx)]

theorem ofText_join (h : p.IsClean) (hx : IsName x) :
    ofText (join p.spelled x) = ⟨p.root, p.parts ++ [x]⟩ := by
  rw [join_name hx, ← spelled_concat h x]
  exact ofText_spelled (h.concat (isPart_name hx))

end Clean

/-- The text of a path in clean form; where the path stays in place the text is empty. -/
def tidy (path : String) : String :=
  (Clean.ofText path).spelled

theorem tidy_join (hx : IsName x) : tidy (join (tidy path) x) = join (tidy path) x := by
  have hclean := Clean.isClean_ofText path
  rw [tidy, tidy, Clean.ofText_join hclean hx, join_name hx]
  exact Clean.spelled_concat hclean x

end Path

namespace FileTree

open SceneText.Path SceneText.Path.Clean

variable {tree : FileTree} {workDir dir : Location} {p : Path.Clean} {ps : List String}
  {root y : String}

theorem plain_spelled (h : p.IsClean) : '\x00' ∉ p.spelled.toList ↔ '\x00' ∉ p.toText.toList := by
  rw [toText_eq h]
  split
  · next hempty => simp [hempty]
  · rfl

theorem startOf_spelled (h : p.IsClean) (workDir : Location) :
    startOf workDir p.spelled = if p.root = "" then workDir else [] := by
  have hroot := rootOf_spelled h
  unfold startOf
  split
  · next habsolute =>
    rw [if_neg]
    intro hempty
    rw [hempty, rootOf] at hroot
    rw [isAbsolute, Text.hasPrefix] at habsolute
    cases hchars : p.spelled.toList with
    | nil =>
      rw [hchars] at habsolute
      cases habsolute
    | cons c rest =>
      rw [hchars] at habsolute hroot
      obtain rfl : '/' = c := by simpa [List.isPrefixOf] using habsolute
      split at hroot <;> simp_all
  · next hrelative =>
    rw [if_pos]
    rcases h.rooted with hempty | hslash | hslash
    · exact hempty
    all_goals
      refine absurd ?_ hrelative
      rw [spelled, hslash, isAbsolute_append _ (by decide)]
      decide

theorem Leads.stat_toText (h : tree.Leads workDir p.spelled dir) (hp : p.IsClean)
    (hshort : isOverlong p.toText = false) :
    tree.stat workDir p.toText = .ok (dir, .directory) := by
  rw [toText_eq hp] at hshort ⊢
  split
  · next hempty =>
    rw [hempty] at h
    exact stat_ok.mpr ⟨(locate_of_short (by decide) (by decide)).trans h.follow_dot, h.directory⟩
  · next hfilled =>
    rw [if_neg hfilled] at hshort
    exact h.stat_self hfilled hshort

theorem Leads.spelled_parent (h : tree.Leads workDir p.spelled dir) (hp : p.IsClean) :
    ∃ dir', tree.Leads workDir p.parent.spelled dir' := by
  obtain ⟨root, parts⟩ := p
  rcases eq_nil_or_concat parts with rfl | ⟨ps, y, rfl⟩
  · exact ⟨dir, h⟩
  · rw [concat_eq_append] at h hp
    obtain ⟨hfront, -⟩ := hp.front
    have hparent : Clean.parent ⟨root, ps.concat y⟩ = ⟨root, ps⟩ := by simp [Clean.parent]
    have hfollowed := h.followed
    rw [filledParts_spelled hp] at hfollowed
    obtain ⟨dir', hreached, hdir'⟩ := followFrom_front (by simp) hfollowed
    rw [hparent]
    refine ⟨dir', ?_, ?_, hdir'⟩
    · have hplain := h.plain
      rw [spelled_concat hfront, String.toList_append, mem_append, not_or, opened] at hplain
      split at hplain
      · exact hplain.1
      · exact fun hzero => hplain.1 (by simp [hzero])
    · rw [filledParts_spelled hfront, startOf_spelled hfront]
      rw [startOf_spelled hp] at hreached
      exact hreached

theorem short_parent (hp : p.IsClean) (hshort : isOverlong p.toText = false) :
    isOverlong p.parent.toText = false := by
  obtain ⟨root, parts⟩ := p
  rcases eq_nil_or_concat parts with rfl | ⟨ps, y, rfl⟩
  · exact hshort
  · rw [concat_eq_append] at hp hshort
    obtain ⟨hfront, hy⟩ := hp.front
    have hparent : Clean.parent ⟨root, ps.concat y⟩ = ⟨root, ps⟩ := by simp [Clean.parent]
    rw [hparent, toText_eq hfront]
    split
    · decide
    · rw [toText_eq hp, spelled_concat hfront, if_neg (by simp [hy.filled]), isOverlong_eq_false,
        String.utf8ByteSize_append] at hshort
      have hopened : (spelled ⟨root, ps⟩).utf8ByteSize ≤
          (opened (spelled ⟨root, ps⟩)).utf8ByteSize := by
        unfold opened
        split
        · exact Nat.le_refl _
        · rw [String.utf8ByteSize_append]
          exact Nat.le_add_right _ _
      exact isOverlong_eq_false.mpr (by omega)

theorem withoutTrailingSlash_toText (hp : p.IsClean) :
    withoutTrailingSlash p.toText = p.toText := by
  rw [toText_eq hp]
  split
  · decide
  · obtain ⟨root, parts⟩ := p
    rcases eq_nil_or_concat parts with rfl | ⟨ps, y, rfl⟩
    · rcases hp.rooted with hroot | hroot | hroot <;> rw [show root = _ from hroot] <;> decide
    · rw [concat_eq_append] at hp ⊢
      obtain ⟨hfront, hy⟩ := hp.front
      obtain ⟨n, hn⟩ := withoutTrailingSlash_eq (spelled ⟨root, ps ++ [y]⟩)
      cases n with
      | zero => simpa using hn.symm
      | succ n =>
        rw [replicate_succ', String.ofList_append, ← String.append_assoc] at hn
        have hends : Text.hasSuffix (spelled ⟨root, ps ++ [y]⟩) "/" = true :=
          Text.hasSuffix_iff.mpr ⟨_, hn⟩
        rw [spelled_concat hfront, hy.not_hasSuffix] at hends
        cases hends

end FileTree

namespace Run

open FileTree

variable {s : Session} {dir : Location} {p : Path.Clean}

theorem eval_makeClean_parent (h : s.tree.Leads s.workDir p.spelled dir) (hp : p.IsClean)
    (hshort : isOverlong p.toText = false) : eval (makeClean p.parent) s = (.ok (), s) := by
  have hparent : p.parent.IsClean := ⟨hp.rooted, fun y hy => hp.parts y (dropLast_subset _ hy)⟩
  obtain ⟨dir', hleads⟩ := h.spelled_parent hp
  exact eval_makeClean_there ((plain_spelled hparent).mp hleads.plain)
    (withoutTrailingSlash_toText hparent) (hleads.stat_toText hparent (short_parent hp hshort))

end Run
end SceneText
