import SceneText.Review.Checks
import SceneText.Proofs.Lists
import SceneText.Proofs.Quotes

/-!
# Which translations pass the review

A check passes exactly if it has nothing to report on any entry, so that the verdict of a review is
a property of each entry by itself. The source entries are only quoted in reports and have no part
in it.
-/

namespace SceneText.Review

open List Json Text
open Bool (and_eq_true false_eq_true or_eq_true)

variable {text : List Char}

namespace Report

variable {α : Type}

theorem passed_clean : clean.passed = true := rfl

theorem passed_lines (line : String) (lines : List String) :
    (ofLines (line :: lines)).passed = false := rfl

theorem passed_andThen (r next : Report) : (r.andThen next).passed = (r.passed && next.passed) := by
  obtain ⟨lines, _ | fault⟩ := r
  · cases lines <;> simp [andThen, passed]
  · simp [andThen, passed]

theorem passed_unless {p : Prop} [Decidable p] {r : Report} (hr : r.passed = false) :
    (if p then clean else r).passed = true ↔ p := by
  by_cases h : p
  · simp [h, passed_clean]
  · simp [h, hr]

theorem passed_foldl (check : α → Report) (xs : List α) (r : Report) :
    (xs.foldl (fun r x => r.andThen (check x)) r).passed = true ↔
      r.passed = true ∧ ∀ x ∈ xs, (check x).passed = true := by
  induction xs generalizing r with
  | nil => simp
  | cons x xs ih => simp [ih, passed_andThen, and_assoc]

theorem passed_each {check : Nat → α → Report} {P : α → Prop} {xs : List α}
    (h : ∀ i, ∀ x ∈ xs, (check i x).passed = true ↔ P x) (i : Nat) :
    (each check i xs).passed = true ↔ ∀ x ∈ xs, P x := by
  induction xs generalizing i with
  | nil => simp [each, passed_clean]
  | cons x xs ih =>
    rw [each, passed_andThen, and_eq_true, h i x (by simp),
      ih (fun j y hy => h j y (by simp [hy])), forall_mem_cons]

end Report

/-- The fields that are looked at are texts. -/
structure Textual (fields : Fields) : Prop where
  message : ∀ v, fields.lookup "message" = some v → ∃ s, v = .str s
  name : ∀ v, fields.lookup "name" = some v → ∃ s, v = .str s

section
variable {fields : Fields} {key : String} {inClass : Char → Bool}

theorem passed_ifField {check : Json → Report} {P : String → Prop}
    (htext : ∀ v, fields.lookup key = some v → ∃ s, v = .str s)
    (h : ∀ s, (check (.str s)).passed = true ↔ P s) :
    (ifField (.obj fields) key check).passed = true ↔
      ∀ s, fields.lookup key = some (.str s) → P s := by
  rw [ifField, has_obj, field, Report.given]
  cases hv : fields.lookup key with
  | none => simp [Report.passed_clean]
  | some v =>
    obtain ⟨s, rfl⟩ := htext v hv
    simp [Report.given, h]

theorem passed_eachEntry {check : Nat → Json → Report} {P : Fields → Prop}
    {entries : List Fields}
    (h : ∀ i, ∀ fields ∈ entries, (check i (.obj fields)).passed = true ↔ P fields) :
    (eachEntry (.arr (entries.map .obj)) check).passed = true ↔ ∀ fields ∈ entries, P fields := by
  have hitems : ∀ i, ∀ x ∈ entries.map obj,
      (check i x).passed = true ↔ ∀ fields ∈ entries, x = .obj fields → P fields := by
    intro i x hx
    obtain ⟨fields, hfields, rfl⟩ := mem_map.mp hx
    rw [h i fields hfields]
    exact ⟨fun hp _ _ heq => obj.inj heq ▸ hp, fun hp => hp fields hfields rfl⟩
  rw [eachEntry, elements, Report.given, Report.passed_each hitems, forall_mem_map]
  exact ⟨fun hp fields hf => hp fields hf fields hf rfl,
    fun hp fields hf _ _ heq => obj.inj heq ▸ hp fields hf⟩

def Korean (c : Char) : Prop :=
  (0x3131 ≤ c.toNat ∧ c.toNat ≤ 0x3163) ∨ (0xac00 ≤ c.toNat ∧ c.toNat ≤ 0xd7a3)

def Kana (c : Char) : Prop :=
  0x3040 ≤ c.toNat ∧ c.toNat ≤ 0x30ff

def Invisible (c : Char) : Prop :=
  c.toNat = 0x180e ∨ (0x200b ≤ c.toNat ∧ c.toNat ≤ 0x200f) ∨
    (0x202a ≤ c.toNat ∧ c.toNat ≤ 0x202e) ∨ (0x2060 ≤ c.toNat ∧ c.toNat ≤ 0x2064) ∨
    (0x206a ≤ c.toNat ∧ c.toNat ≤ 0x206f) ∨ c.toNat = 0xfeff

theorem isKorean_iff (c : Char) : isKorean c = true ↔ Korean c := by
  simp only [isKorean, inRanges, koreanRanges, Korean, any_cons, any_nil,
    or_eq_true, and_eq_true, decide_eq_true_eq, false_eq_true, or_false]
  omega

theorem isKana_iff (c : Char) : isHiragana c = true ∨ isKatakana c = true ↔ Kana c := by
  simp only [isHiragana, isKatakana, inRanges, Kana, any_cons, any_nil,
    or_eq_true, and_eq_true, decide_eq_true_eq, false_eq_true, or_false]
  omega

theorem isInvisible_iff (c : Char) : isInvisible c = true ↔ Invisible c := by
  simp only [isInvisible, inRanges, invisibleRanges, Invisible, any_cons, any_nil,
    or_eq_true, and_eq_true, decide_eq_true_eq, false_eq_true, or_false]
  omega

theorem distinct_isEmpty_iff :
    (distinct inClass text).isEmpty = true ↔ ∀ c ∈ text, ¬ inClass c = true := by
  rw [List.isEmpty_iff, eq_nil_iff_forall_not_mem]
  simp [distinct, mem_eraseDups]

theorem distinctSorted_isEmpty_iff :
    (distinctSorted inClass text).isEmpty = true ↔ ∀ c ∈ text, ¬ inClass c = true := by
  have hmem : ∀ c, c ∈ distinctSorted inClass text ↔ c ∈ distinct inClass text := fun c =>
    (mergeSort_perm _ _).mem_iff
  rw [← distinct_isEmpty_iff, List.isEmpty_iff, List.isEmpty_iff, eq_nil_iff_forall_not_mem,
    eq_nil_iff_forall_not_mem]
  simp only [hmem]

theorem checkKorean_passed (hfields : Textual fields) (i : Nat) :
    (checkKorean i (.obj fields)).passed = true ↔
      ∀ s, fields.lookup "message" = some (.str s) → ∀ c ∈ s.toList, ¬ Korean c := by
  refine passed_ifField hfields.message fun s => ?_
  rw [searchable, Report.given, Report.passed_unless (Report.passed_lines _ _),
    distinctSorted_isEmpty_iff]
  simp only [isKorean_iff]

theorem checkJapanese_passed (hfields : Textual fields) (i : Nat) :
    (checkJapanese i (.obj fields)).passed = true ↔
      ∀ s, fields.lookup "message" = some (.str s) → ∀ c ∈ s.toList, ¬ Kana c := by
  refine passed_ifField hfields.message fun s => ?_
  rw [searchable, Report.given, Report.passed_unless (Report.passed_lines _ _), and_eq_true,
    distinctSorted_isEmpty_iff, distinctSorted_isEmpty_iff]
  simp only [← isKana_iff, not_or]
  exact ⟨fun h c hc => ⟨h.1 c hc, h.2 c hc⟩,
    fun h => ⟨fun c hc => (h c hc).1, fun c hc => (h c hc).2⟩⟩

theorem checkInvisible_passed (hfields : Textual fields) (i : Nat) :
    (checkInvisible i (.obj fields)).passed = true ↔
      (∀ s, fields.lookup "message" = some (.str s) → ∀ c ∈ s.toList, ¬ Invisible c) ∧
        ∀ s, fields.lookup "name" = some (.str s) → ∀ c ∈ s.toList, ¬ Invisible c := by
  rw [checkInvisible, Report.passed_andThen, and_eq_true]
  refine and_congr (passed_ifField hfields.message fun s => ?_)
    (passed_ifField hfields.name fun s => ?_) <;>
  · rw [searchable, Report.given, Report.passed_unless (Report.passed_lines _ _),
      distinct_isEmpty_iff]
    simp only [isInvisible_iff]

theorem checkDoubled_passed (i : Nat) (s quotes : String) :
    (checkDoubled i (.str s) quotes).passed = true ↔ ¬ quotes.toList <:+: s.toList := by
  rw [checkDoubled, has, Report.given, Report.passed_unless, ← occurs_iff]
  · simp [Text.contains]
  · rw [Report.passed_andThen, Report.passed_lines, Bool.false_and]

theorem checkDuplicates_passed (hfields : Textual fields) (i : Nat) :
    (checkDuplicates i (.obj fields)).passed = true ↔ ∀ s, fields.lookup "message" = some (.str s) →
        ∀ quotes ∈ ["「「", "」」", "『『", "』』"], ¬ quotes.toList <:+: s.toList := by
  refine passed_ifField hfields.message fun s => ?_
  rw [Report.passed_foldl]
  simp only [Report.passed_clean, true_and, checkDoubled_passed, doubledQuotes]

theorem quoteUnits_str (s : String) : quoteUnits (.str s) = .ok (charTexts s) := by
  have h := Fault.mapM_ok asKey id (charTexts s) fun v hv => by
    obtain ⟨c, -, rfl⟩ := mem_map.mp hv
    rfl
  rw [map_id] at h
  exact h

theorem unitChar_charTexts (s : String) : (charTexts s).map unitChar = s.toList := by
  simp [charTexts, unitChar, Function.comp_def]

theorem checkPairs_passed (hfields : Textual fields) (sources : Json) (i : Nat) :
    (checkPairs sources i (.obj fields)).passed = true ↔
      ∀ s, fields.lookup "message" = some (.str s) → Nested (s.toList.filter isQuote) := by
  refine passed_ifField hfields.message fun s => ?_
  rw [quoteUnits_str, Report.given, unitChar_charTexts, Report.passed_unless, and_eq_true,
    List.isEmpty_iff, List.isEmpty_iff, pairQuotes_clean_iff]
  rw [Report.passed_andThen, Report.passed_lines, Bool.false_and]

theorem checkLength_passed (hfields : Textual fields) (i : Nat) :
    (checkLength i (.obj fields)).passed = true ↔
      ∃ s, fields.lookup "message" = some (.str s) ∧ s.length ≤ 90 := by
  rw [checkLength, field]
  cases hv : fields.lookup "message" with
  | none => simp [Report.given, Report.ofFault, Report.passed]
  | some v =>
    obtain ⟨s, rfl⟩ := hfields.message v hv
    rw [Report.given, size, Report.given]
    by_cases hlong : s.length > maxLength
    · have hlimit : ¬ s.length ≤ 90 := Nat.not_le.mpr hlong
      rw [if_pos hlong, Report.passed_lines]
      simpa using hlimit
    · have hlimit : s.length ≤ 90 := Nat.not_lt.mp hlong
      rw [if_neg hlong, Report.passed_clean]
      simpa using hlimit

structure CleanMessage (text : List Char) : Prop where
  short : text.length ≤ 90
  korean : ∀ c ∈ text, ¬ Korean c
  kana : ∀ c ∈ text, ¬ Kana c
  doubled : ∀ quotes ∈ ["「「", "」」", "『『", "』』"], ¬ quotes.toList <:+: text
  visible : ∀ c ∈ text, ¬ Invisible c
  nested : Nested (text.filter isQuote)

/-- An entry with a clean message; its name, if it has one, has no invisible characters. -/
structure CleanEntry (fields : Fields) : Prop where
  message : ∃ s, fields.lookup "message" = some (.str s) ∧ CleanMessage s.toList
  name : ∀ s, fields.lookup "name" = some (.str s) → ∀ c ∈ s.toList, ¬ Invisible c

/-- A review passes exactly the clean entries, whatever the sources are. -/
theorem review_passes_iff (sources : Json) {entries : List Fields}
    (hentries : ∀ fields ∈ entries, Textual fields) :
    (review sources (.arr (entries.map .obj))).1 = true ↔
      ∀ fields ∈ entries, CleanEntry fields := by
  have hkorean := passed_eachEntry fun i fields hf => checkKorean_passed (hentries fields hf) i
  have hjapanese := passed_eachEntry fun i fields hf => checkJapanese_passed (hentries fields hf) i
  have hdoubled := passed_eachEntry fun i fields hf => checkDuplicates_passed (hentries fields hf) i
  have hvisible := passed_eachEntry fun i fields hf => checkInvisible_passed (hentries fields hf) i
  have hnested := passed_eachEntry fun i fields hf =>
    checkPairs_passed (hentries fields hf) sources i
  have hshort := passed_eachEntry fun i fields hf => checkLength_passed (hentries fields hf) i
  simp only [review, Check.required, Check.run, List.all_cons, List.all_nil, Bool.and_true,
    and_eq_true, hkorean, hjapanese, hdoubled, hvisible, hnested, hshort]
  constructor
  · rintro ⟨hk, hj, hd, hv, hn, hs⟩ fields hf
    obtain ⟨s, hmessage, hlength⟩ := hs fields hf
    refine ⟨⟨s, hmessage, ?_⟩, (hv fields hf).2⟩
    exact ⟨String.length_toList ▸ hlength, hk fields hf s hmessage, hj fields hf s hmessage,
      hd fields hf s hmessage, (hv fields hf).1 s hmessage, hn fields hf s hmessage⟩
  · intro h
    have hclean : ∀ fields ∈ entries, ∀ s, fields.lookup "message" = some (.str s) →
        CleanMessage s.toList := by
      intro fields hf s hs
      obtain ⟨s', hs', hmessage⟩ := (h fields hf).message
      obtain rfl : s' = s := Json.str.inj (Option.some.inj (hs'.symm.trans hs))
      exact hmessage
    refine ⟨fun fields hf s hs => (hclean fields hf s hs).korean,
      fun fields hf s hs => (hclean fields hf s hs).kana,
      fun fields hf s hs => (hclean fields hf s hs).doubled,
      fun fields hf => ⟨fun s hs => (hclean fields hf s hs).visible, (h fields hf).name⟩,
      fun fields hf s hs => (hclean fields hf s hs).nested, fun fields hf => ?_⟩
    obtain ⟨s, hs, hmessage⟩ := (h fields hf).message
    exact ⟨s, hs, String.length_toList ▸ hmessage.short⟩

end

def quotedEntries : List Fields :=
  [[("message", .str "「好“的”（吗）」")], [("name", .str "甲"), ("message", .str "")]]

theorem quotedEntries_textual : ∀ fields ∈ quotedEntries, Textual fields := by
  intro fields hfields
  simp only [quotedEntries, mem_cons, not_mem_nil, or_false] at hfields
  rcases hfields with rfl | rfl <;>
    exact ⟨by simp [lookup_cons], by simp [lookup_cons]⟩

theorem review_passes_iff_quoted :
    (review (.arr []) (.arr (quotedEntries.map .obj))).1 = true ∧
      ∀ fields ∈ quotedEntries, CleanEntry fields := by
  have hpassed : (review (.arr []) (.arr (quotedEntries.map .obj))).1 = true := by decide +kernel
  exact ⟨hpassed, (review_passes_iff (.arr []) quotedEntries_textual).mp hpassed⟩

end SceneText.Review
