import SceneText.Proofs.Fitting

/-!
# Truncation that does not end

A text is cut as long as it is beyond its limit. Each cut takes one character or leaves a text that
is already empty, and it keeps the protected characters. So the cuts go on for ever exactly if even
the empty text is beyond the limit and no character is protected. Truncation of all entries does
not end exactly if it comes to an entry that states such a limit for such a text.
-/

namespace SceneText.Layout

open List Json Fault Limit

variable {v : Json} {i : Nat}

def Pass (limit : Limit) (text shorter : List Char) : Prop :=
  limit.isExceededBy (span text) = true ∧ cutOne? protectedMarks true text = some shorter

/-- Whether there is a turn of truncation after each turn. -/
def GoesOn (limit : Limit) (text : List Char) : Prop :=
  ∃ texts : Nat → List Char, texts 0 = text ∧ ∀ n, Pass limit (texts n) (texts (n + 1))

section
variable {limit : Limit} {text : List Char}

inductive Cuts : List Char → Option (List Char) → Prop
  | empty : Cuts [] (some [])
  | marks {text : List Char} (only : shielded (flagged text) = text) (left : text ≠ []) :
      Cuts text none
  | one {text shorter : List Char} (length : text.length = shorter.length + 1)
      (kept : shielded (flagged shorter) = shielded (flagged text)) : Cuts text (some shorter)

theorem cuts_cutOne? (text : List Char) : Cuts text (cutOne? protectedMarks true text) := by
  obtain ⟨front, run, rfl, hfront, hrun⟩ := exists_run text
  rcases eq_nil_or_concat front with rfl | ⟨front, c, rfl⟩
  · rw [nil_append]
    by_cases hne : run = []
    · rw [hne]
      exact .empty
    · rw [cutOne?_run hrun hne]
      exact .marks hrun.shielded_eq hne
  · rw [concat_eq_append] at hfront
    rw [concat_eq_append, append_assoc, singleton_append, cutOne?_before hfront hrun]
    apply Cuts.one
    · rw [length_append, length_append, length_cons]
      omega
    · rw [flagged_before hfront hrun, flagged_append_run hrun, shielded_before]

theorem isExceededBy_of_zero (h : limit.isExceededBy 0 = true) (n : Nat) :
    limit.isExceededBy n = true :=
  isExceededBy_mono (Nat.zero_le n) h

theorem cutDown_endless_iff {fuel : Nat} (hfuel : text.length ≤ fuel) :
    cutDown limit protectedMarks true fuel text = .error .endless ↔
      limit.isExceededBy 0 = true ∧ shielded (flagged text) = [] := by
  induction fuel generalizing text with
  | zero =>
    rw [length_eq_zero_iff.mp (Nat.le_zero.mp hfuel)]
    cases hbeyond : limit.isExceededBy 0 with
    | false =>
      rw [cutDown_fits hbeyond]
      simp
    | true =>
      rw [cutDown_spent hbeyond rfl]
      exact ⟨fun _ => ⟨rfl, rfl⟩, fun _ => rfl⟩
  | succ fuel ih =>
    cases hbeyond : limit.isExceededBy (span text) with
    | false =>
      rw [cutDown_fits hbeyond]
      constructor
      · intro h
        cases h
      · intro h
        rw [isExceededBy_of_zero h.1] at hbeyond
        cases hbeyond
    | true =>
      have hcut := cuts_cutOne? text
      cases hone : cutOne? protectedMarks true text with
      | none =>
        rw [hone] at hcut
        rw [cutDown_stuck hbeyond hone]
        cases hcut with
        | marks only left =>
          rw [only]
          simp [left]
      | some shorter =>
        rw [hone] at hcut
        rw [cutDown_step hbeyond hone]
        cases hcut with
        | empty => exact ih (Nat.zero_le fuel)
        | one length kept => rw [ih (by omega), kept]

theorem GoesOn.next (h : GoesOn limit text) :
    ∃ shorter, Pass limit text shorter ∧ GoesOn limit shorter := by
  obtain ⟨texts, rfl, hpass⟩ := h
  exact ⟨texts 1, hpass 0, fun n => texts (n + 1), rfl, fun n => hpass (n + 1)⟩

theorem GoesOn.exceeded {n : Nat} (hlength : text.length ≤ n) (h : GoesOn limit text) :
    limit.isExceededBy 0 = true ∧ shielded (flagged text) = [] := by
  -- Each turn but those of the empty text makes the text shorter.
  induction n generalizing text with
  | zero =>
    obtain ⟨shorter, hpass, -⟩ := h.next
    rw [length_eq_zero_iff.mp (Nat.le_zero.mp hlength)] at hpass ⊢
    exact ⟨hpass.1, rfl⟩
  | succ n ih =>
    obtain ⟨shorter, hpass, hmore⟩ := h.next
    have hcut := cuts_cutOne? text
    rw [hpass.2] at hcut
    cases hcut with
    | empty => exact ⟨hpass.1, rfl⟩
    | one length kept =>
      rw [← kept]
      exact ih (by omega) hmore

theorem exists_pass (hzero : limit.isExceededBy 0 = true) (hnone : shielded (flagged text) = []) :
    ∃ shorter, Pass limit text shorter ∧ shielded (flagged shorter) = [] := by
  have hcut := cuts_cutOne? text
  cases hone : cutOne? protectedMarks true text with
  | none =>
    rw [hone] at hcut
    cases hcut with
    | marks only left => exact absurd (only.symm.trans hnone) left
  | some shorter =>
    refine ⟨shorter, ⟨isExceededBy_of_zero hzero _, hone⟩, ?_⟩
    rw [hone] at hcut
    cases hcut with
    | empty => rfl
    | one length kept => exact kept.trans hnone

def afterCuts : Nat → List Char → List Char
  | 0, text => text
  | n + 1, text => afterCuts n ((cutOne? protectedMarks true text).getD [])

theorem pass_afterCuts (hzero : limit.isExceededBy 0 = true) (hnone : shielded (flagged text) = [])
    (n : Nat) : Pass limit (afterCuts n text) (afterCuts (n + 1) text) := by
  induction n generalizing text with
  | zero =>
    obtain ⟨shorter, hpass, -⟩ := exists_pass hzero hnone
    rw [afterCuts, afterCuts, afterCuts, hpass.2]
    exact hpass
  | succ n ih =>
    obtain ⟨shorter, hpass, hkept⟩ := exists_pass hzero hnone
    rw [afterCuts, afterCuts, hpass.2]
    exact ih hkept

theorem goesOn_iff :
    GoesOn limit text ↔ limit.isExceededBy 0 = true ∧ shielded (flagged text) = [] := by
  constructor
  · exact GoesOn.exceeded (Nat.le_refl _)
  · rintro ⟨hzero, hnone⟩
    exact ⟨(afterCuts · text), rfl, pass_afterCuts hzero hnone⟩

end

def Halts {α : Type} (x : Except Fault α) : Prop :=
  x ≠ .error .endless

theorem Halts.bind_endless {α β : Type} {x : Except Fault α} {f : α → Except Fault β}
    (hx : Halts x) (h : x >>= f = .error .endless) : ∃ a, x = .ok a ∧ f a = .error .endless := by
  rcases bind_error h with herr | hok
  · exact absurd herr hx
  · exact hok

theorem Halts.bind {α β : Type} {x : Except Fault α} {f : α → Except Fault β} (hx : Halts x)
    (hf : ∀ a, Halts (f a)) : Halts (x >>= f) := by
  intro h
  obtain ⟨a, -, ha⟩ := hx.bind_endless h
  exact hf a ha

theorem halts_has (v : Json) (key : String) : Halts (v.has key) := by
  intro h
  unfold has at h
  split at h <;> cases h

theorem halts_field (v : Json) (key : String) : Halts (v.field key) := by
  intro h
  unfold field at h
  split at h
  · split at h <;> cases h
  all_goals cases h

theorem halts_get (v : Json) (key : String) (substitute : Json) : Halts (v.get key substitute) := by
  intro h
  unfold Json.get at h
  split at h <;> cases h

theorem halts_elements (v : Json) : Halts v.elements := by
  intro h
  unfold elements at h
  split at h <;> cases h

theorem halts_charOf (v : Json) : Halts (charOf v) := by
  intro h
  unfold charOf at h
  split at h
  · split at h <;> cases h
  · cases h

theorem halts_charsOf (v : Json) : Halts (charsOf v) := by
  unfold charsOf
  split
  · intro h
    cases h
  · apply (halts_elements _).bind
    intro items h
    obtain ⟨front, x, back, -, -, hx⟩ := mapM_error_iff.mp h
    exact halts_charOf x hx

theorem halts_addPairs (i : Nat) (pairs : List Json) (fields : Fields) :
    Halts (addPairs i pairs fields) := by
  induction pairs generalizing i fields with
  | nil =>
    intro h
    cases h
  | cons pair rest ih =>
    rw [addPairs]
    split
    · exact ih _ _
    · rename_i fault hpair
      intro h
      cases h
      unfold addPair at hpair
      split at hpair <;> cases hpair

theorem halts_toRecord (v : Json) : Halts v.toRecord := by
  intro h
  unfold toRecord at h
  split at h
  · cases h
  · split at h
    · rename_i fault helements
      cases h
      exact halts_elements _ helements
    · rename_i pairs _
      cases hadd : addPairs 0 pairs [] with
      | ok fields =>
        rw [hadd] at h
        cases h
      | error fault =>
        rw [hadd] at h
        cases h
        exact halts_addPairs 0 pairs [] hadd

theorem halts_limit (relation : String) (v : Json) : Halts (ofJson relation v) := by
  intro h
  unfold ofJson at h
  split at h <;> cases h

theorem halts_roomFor (i : Nat) (key : String) (source translated : Json) :
    Halts (roomFor i key source translated) := by
  rw [roomFor.eq_def]
  apply (halts_has _ _).bind
  intro there
  split
  · exact halts_field _ _
  · intro h
    split at h
    · split at h <;> cases h
    · cases h

theorem halts_lacksField (source translated : Json) (key : String) :
    Halts (lacksField source translated key) := by
  apply (halts_has source key).bind
  intro here
  split
  · apply (halts_has translated key).bind
    intro there h
    cases h
  · intro h
    cases h

theorem halts_isUnbounded (source : Json) : Halts (isUnbounded source) := by
  apply (halts_get source _ _).bind
  intro v h
  cases h

theorem halts_put (v : Json) (key : String) (x : Json) : Halts (v.put key x) := by
  intro h
  unfold put at h
  split at h <;> cases h

section
variable {limit : Limit}

theorem runAt_misused (htruthy : v.truthy = true) (htext : ∀ s, v ≠ .str s) :
    (GivenMarks.ofTexts protectedMarks).runAt true (.plain v) =
      .error (.misuse (.noOperation v.kind "lower")) := by
  cases v with
  | str s => exact absurd rfl (htext s)
  | _ =>
    simp only [GivenMarks.runAt, htruthy]
    rfl

theorem cutItem?_misused (limit : Limit) {items : List Json} (h : (arr items).truthy = true) :
    cutItem? limit (.ofTexts protectedMarks) true items = .ok none ∨ ∃ fault, fault ≠ .endless ∧
        cutItem? limit (.ofTexts protectedMarks) true items = .error fault := by
  have hrun := runAt_misused h fun s heq => Json.noConfusion heq
  cases hchars : charsOf (.arr items) with
  | error fault =>
    refine .inr ⟨fault, ?_, by rw [cutItem?, hchars]; rfl⟩
    rintro rfl
    exact halts_charsOf _ hchars
  | ok chars =>
    cases hbeyond : limit.isExceededBy (span chars) with
    | false => exact .inl (by rw [cutItem?, hchars]; simp [bind, Except.bind, hbeyond]; rfl)
    | true =>
      rw [cutItem?, hchars, hrun]
      simp [bind, Except.bind, hbeyond]

theorem halts_truncateValue (htruthy : v.truthy = true) (htext : ∀ s, v ≠ .str s) :
    Halts (truncateValue limit (.ofTexts protectedMarks) true v) := by
  intro h
  cases v with
  | str s => exact absurd rfl (htext s)
  | arr items =>
    change cutItems limit (.ofTexts protectedMarks) true items.length items = _ at h
    rw [cutItems.eq_def] at h
    dsimp only at h
    rcases cutItem?_misused limit htruthy with hnone | ⟨fault, hne, hfault⟩
    · rw [hnone] at h
      cases h
    · rw [hfault] at h
      cases h
      exact hne rfl
  | _ =>
    obtain ⟨chars, -, h⟩ := (halts_charsOf _).bind_endless h
    split at h
    · rw [runAt_misused htruthy htext] at h
      cases h
    · cases h

theorem truncateValue_endless_iff :
    truncateValue limit (.ofTexts protectedMarks) true (orEmpty v) = .error .endless ↔
      ∃ s, orEmpty v = .str s ∧ GoesOn limit s.toList := by
  by_cases htext : ∃ s, orEmpty v = .str s
  · obtain ⟨s, hs⟩ := htext
    have hcut : cutDown limit protectedMarks true s.toList.length s.toList = .error .endless ↔
        GoesOn limit s.toList := by
      rw [cutDown_endless_iff (Nat.le_refl _), goesOn_iff]
    simp only [hs, str.injEq, exists_eq_left', ← hcut, truncateValue_str]
    cases cutDown limit protectedMarks true s.toList.length s.toList <;> simp [Except.map]
  · have htruthy : (orEmpty v).truthy = true := by
      rw [orEmpty] at htext ⊢
      split at htext
      case isTrue h => rwa [if_pos h]
      case isFalse => exact absurd ⟨"", rfl⟩ htext
    have hother : ∀ s, orEmpty v ≠ .str s := fun s hs => htext ⟨s, hs⟩
    constructor
    · intro h
      exact absurd h (halts_truncateValue htruthy hother)
    · rintro ⟨s, hs, -⟩
      exact absurd hs (hother s)

theorem fitText_endless_iff {key : String} {room result : Json} :
    fitText i key room (orEmpty v) result = .error .endless ↔
      ∃ limit s, ofJson? room = some limit ∧ orEmpty v = .str s ∧ GoesOn limit s.toList := by
  constructor
  · intro h
    obtain ⟨chars, hchars, h⟩ := (halts_charsOf _).bind_endless h
    obtain ⟨limit, hlimit, h⟩ := (halts_limit _ _).bind_endless h
    split at h
    · cases h
    · split at h
      · exact absurd h (halts_put _ _ _)
      · cases h
      · rename_i fault _ htruncate
        cases h
        obtain ⟨s, hs, hgoes⟩ := truncateValue_endless_iff.mp htruncate
        exact ⟨limit, s, ofJson_ok_iff.mp hlimit, hs, hgoes⟩
  · rintro ⟨limit, s, hlimit, hs, hgoes⟩
    have hwide : limit.admits (span s.toList) = false := by
      rw [Bool.eq_false_iff]
      intro hadmits
      have hbeyond := isExceededBy_of_zero (goesOn_iff.mp hgoes).1 (span s.toList)
      rw [isExceededBy_eq_false hadmits] at hbeyond
      cases hbeyond
    have hchars : charsOf (orEmpty v) = .ok s.toList := by rw [hs, charsOf]
    rw [fitText, hchars, ofJson_ok_iff.mpr hlimit]
    dsimp only [bind, Except.bind]
    rw [hwide, truncateValue_endless_iff.mpr ⟨s, hs, hgoes⟩]
    rfl

end

def LoopsAt (source translated : Fields) (key : String) : Prop :=
  (source.lookup key).isSome ∧ ∃ room limit s,
    translated.lookup (key ++ "_orig_len") = some room ∧ ofJson? room = some limit ∧
      textAt translated key = .str s ∧ GoesOn limit s.toList

section
variable {i : Nat} {key : String} {source translated : Fields} {result : Json}

theorem fitField_endless_iff :
    fitField i (.obj source) (.obj translated) result key = .error .endless ↔
      LoopsAt source translated key := by
  by_cases hhere : (source.lookup key).isSome
  · rw [fitField_here hhere]
    constructor
    · intro h
      obtain ⟨text, htext, h⟩ := (halts_get _ _ _).bind_endless h
      cases htext
      obtain ⟨room, hroom, h⟩ := (halts_roomFor _ _ _ _).bind_endless h
      obtain ⟨limit, s, hlimit, hs, hgoes⟩ := fitText_endless_iff.mp h
      have hlimitOf : LimitOf source translated key limit := limitOf_iff.mpr ⟨room, hroom, hlimit⟩
      cases hlimitOf with
      | stated here number => exact ⟨hhere, _, limit, s, here, number, hs, hgoes⟩
      | stored =>
        -- A limit taken from the source is a number of bytes, which the empty text does not exceed.
        have hzero := (goesOn_iff.mp hgoes).1
        rw [isExceededBy_whole, decide_eq_true_iff] at hzero
        omega
    · rintro ⟨-, room, limit, s, hstated, hlimit, hs, hgoes⟩
      rw [roomFor_stated _ hstated]
      exact fitText_endless_iff.mpr ⟨limit, s, hlimit, hs, hgoes⟩
  · constructor
    · intro h
      rw [fitField_absent (Option.not_isSome_iff_eq_none.mp hhere)] at h
      cases h
    · intro h
      exact absurd h.1 hhere

theorem fitField_endless_record {translated : Json}
    (h : fitField i (.obj source) translated result key = .error .endless) :
    ∃ fields, translated = .obj fields := by
  by_cases hhere : (source.lookup key).isSome
  · rw [fitField_here hhere] at h
    obtain ⟨text, htext, -⟩ := (halts_get _ _ _).bind_endless h
    cases translated with
    | obj fields => exact ⟨fields, rfl⟩
    | _ => cases htext
  · rw [fitField_absent (Option.not_isSome_iff_eq_none.mp hhere)] at h
    cases h

end

/-- Whether truncation of an entry does not end: it comes to a field at which it does not. -/
structure NeverFits (i : Nat) (source translated : Fields) : Prop where
  bounded : source.lookup "length_unbounded" ≠ some (.bool true)
  there : ∀ key ∈ ["name", "message"], (source.lookup key).isSome → (translated.lookup key).isSome
  loops : LoopsAt source translated "name" ∨
    (∃ named, fitField i (.obj source) (.obj translated) (.obj translated) "name" = .ok named) ∧
      LoopsAt source translated "message"

theorem halts_opening (i : Nat) (source translated : Json) :
    Halts (opening i source translated) := by
  apply (halts_lacksField _ _ _).bind
  intro lacksName
  split
  · intro h
    cases h
  apply (halts_lacksField _ _ _).bind
  intro lacksMessage
  split
  · intro h
    cases h
  apply (halts_toRecord _).bind
  intro record
  apply (halts_isUnbounded _).bind
  intro free h
  cases h

theorem fitEntry_endless_iff {source translated : Json} :
    fitEntry i source translated = .error .endless ↔
      ∃ sf tf, source = .obj sf ∧ translated = .obj tf ∧ NeverFits i sf tf := by
  rw [fitEntry]
  constructor
  · intro h
    obtain ⟨⟨record, free⟩, hopening, h⟩ := (halts_opening i source translated).bind_endless h
    obtain ⟨hlacks, hrecord, hfree⟩ := opening_ok_iff.mp hopening
    obtain ⟨sf, rfl⟩ := isUnbounded_ok hfree
    have hunbounded := isUnbounded_obj.mp hfree
    by_cases hfree : free = true
    · rw [if_pos hfree] at h
      cases h
    rw [if_neg hfree] at h
    have hobj : ∃ fields, translated = .obj fields := by
      rcases bind_error h with hname | ⟨named, -, hmessage⟩
      · exact fitField_endless_record hname
      · exact fitField_endless_record hmessage
    obtain ⟨tf, rfl⟩ := hobj
    cases hrecord
    refine ⟨sf, tf, rfl, rfl, ?_, ?_, ?_⟩
    · exact fun htrue => hfree (hunbounded.mpr htrue)
    · exact fun key hkey => (lacksField_obj sf tf key).mp (hlacks key hkey)
    · rcases bind_error h with hname | ⟨named, hnamed, hmessage⟩
      · exact .inl (fitField_endless_iff.mp hname)
      · exact .inr ⟨⟨named, hnamed⟩, fitField_endless_iff.mp hmessage⟩
  · rintro ⟨sf, tf, rfl, rfl, hbounded, hthere, hloops⟩
    have hopening : opening i (.obj sf) (.obj tf) = .ok (.obj tf, false) := by
      refine opening_ok_iff.mpr ⟨?_, rfl, isUnbounded_obj.mpr (by simp [hbounded])⟩
      exact fun key hkey => (lacksField_obj sf tf key).mpr (hthere key hkey)
    rw [hopening]
    change fitField i (.obj sf) (.obj tf) (.obj tf) "name" >>= _ = _
    rcases hloops with hname | ⟨⟨named, hnamed⟩, hmessage⟩
    · rw [fitField_endless_iff.mpr hname]
      rfl
    · rw [hnamed]
      exact fitField_endless_iff.mpr hmessage

theorem fitAll_endless_iff {pairs : List (Json × Json)} :
    fitAll i pairs = .error .endless ↔ ∃ front source translated back,
      pairs = front ++ (.obj source, .obj translated) :: back ∧
        (∃ done, fitAll i front = .ok done) ∧ NeverFits (i + front.length) source translated := by
  constructor
  · intro h
    induction pairs generalizing i with
    | nil => cases h
    | cons pair pairs ih =>
      obtain ⟨source, translated⟩ := pair
      rcases bind_error h with hentry | ⟨entry, hentry, h⟩
      · obtain ⟨sf, tf, rfl, rfl, hnever⟩ := fitEntry_endless_iff.mp hentry
        exact ⟨[], sf, tf, pairs, rfl, ⟨[], rfl⟩, hnever⟩
      · rcases bind_error h with hmore | ⟨more, -, h⟩
        · obtain ⟨front, sf, tf, back, rfl, ⟨done, hdone⟩, hnever⟩ := ih hmore
          refine ⟨(source, translated) :: front, sf, tf, back, rfl, ⟨entry :: done, ?_⟩, ?_⟩
          · rw [fitAll, hentry, hdone]
            rfl
          · rwa [length_cons, Nat.add_comm front.length, ← Nat.add_assoc]
        · cases h
  · rintro ⟨front, source, translated, back, rfl, ⟨done, hdone⟩, hnever⟩
    induction front generalizing i done with
    | nil =>
      have hentry : fitEntry i (.obj source) (.obj translated) = .error .endless :=
        fitEntry_endless_iff.mpr ⟨source, translated, rfl, rfl, hnever⟩
      rw [nil_append, fitAll, hentry]
      rfl
    | cons pair front ih =>
      obtain ⟨entry, hentry, hdone⟩ := bind_ok hdone
      obtain ⟨more, hmore, -⟩ := bind_ok hdone
      rw [length_cons, Nat.add_comm front.length, ← Nat.add_assoc] at hnever
      rw [cons_append, fitAll, hentry, ih hnever more hmore]
      rfl

/-- Truncation of all entries does not end exactly if it comes to an entry that states a limit which
even the empty text exceeds, for a text without protected characters. -/
theorem fitEntries_endless_iff (sources targets : List Json) :
    (fitEntries (.arr sources) (.arr targets) = .error .endless ↔
      sources.length = targets.length ∧ ∃ front source translated back,
        sources.zip targets = front ++ (.obj source, .obj translated) :: back ∧
          (∃ done, fitAll 0 front = .ok done) ∧ NeverFits front.length source translated) ∧
    ∀ limit text, GoesOn limit text ↔
      limit.isExceededBy 0 = true ∧ shielded (flagged text) = [] := by
  refine ⟨?_, fun limit text => goesOn_iff⟩
  change (if sources.length ≠ targets.length then _ else fitAll 0 (sources.zip targets)) = _ ↔ _
  by_cases hcount : sources.length = targets.length
  · rw [if_neg (not_not.mpr hcount), fitAll_endless_iff]
    simp only [Nat.zero_add, hcount, true_and]
  · rw [if_pos hcount]
    constructor
    · intro h
      cases h
    · intro h
      exact absurd h.1 hcount

/-- A text of one character with a negative room is cut for ever. -/
theorem fitEntries_negative_room :
    fitEntries (.arr [.obj [("message", .str "a")]])
        (.arr [.obj [("message", .str "a"), ("message_orig_len", .int (-1))]]) =
      .error .endless ∧ GoesOn (.whole (-1)) ['a'] :=
  ⟨rfl, goesOn_iff.mpr ⟨rfl, rfl⟩⟩

end SceneText.Layout
