import SceneText.Proofs.Charts
import SceneText.Proofs.Lists
import SceneText.Proofs.Truncation

/-!
# Truncated entries fit their room

The room of a field is stated in its entry, or it is what the source text takes in the script. The
code page spends no more bytes on a text than the text has cells, so that a text cut to its room in
cells has its room in bytes. Apart from names and messages that are too wide, an entry stays as it
is.
-/

namespace SceneText.Layout

open Json Option Except CodePage Limit
open Fault (bind_ok)

variable {bytes : List UInt8} {text : List Char} {limit : Limit}
  {room translated result entry source : Json} {keys : List String} {free : Bool} {i : Nat}

theorem length_encodeChar {c : Char} (h : cp932.encodeChar c = some bytes) :
    bytes.length ≤ cells c := by
  rw [cp932_encodeChar] at h
  cases hsingle : single932? c with
  | some b =>
    rw [hsingle, map_some, some_or, some.injEq] at h
    rw [← h]
    exact cells_pos c
  | none =>
    -- A character without a byte of its own is not ASCII.
    have hwide : ¬ c.toNat < 128 := by
      intro hascii
      rw [single932?, if_pos (by omega)] at hsingle
      cases hsingle
    rw [hsingle, map_none, none_or] at h
    obtain ⟨code, -, rfl⟩ := map_eq_some_iff.mp h
    rw [cells, if_neg hwide]
    exact Nat.le_refl 2

theorem length_encodeFrom (pos : Nat) (h : cp932.encodeFrom pos text = .ok bytes) :
    bytes.length ≤ span text := by
  induction text generalizing bytes pos with
  | nil =>
    cases h
    exact Nat.le_refl 0
  | cons c text ih =>
    obtain ⟨front, back, hc, hrest, rfl⟩ := encodeFrom_cons h
    rw [List.length_append, span]
    exact Nat.add_le_add (length_encodeChar hc) (ih (pos + 1) hrest)

section
variable {limit : Limit} {marks : List String} {foldCase : Bool} {fuel : Nat}

theorem cutDown_within {short : List Char}
    (h : cutDown limit marks foldCase fuel text = .ok short) :
    limit.isExceededBy (span short) = false := by
  fun_induction cutDown limit marks foldCase fuel text with
  | case1 fuel text hfits =>
    cases h
    simpa using hfits
  | case2 => cases h
  | case3 => cases h
  | case4 text _ shorter fuel _ ih => exact ih h

theorem cutItems_ok {marks : GivenMarks} {items : List Json} {short : Json}
    (h : cutItems limit marks foldCase fuel items = .ok short) : ∃ left, short = .arr left := by
  fun_induction cutItems limit marks foldCase fuel items with
  | case1 => cases h
  | case2 fuel items => exact ⟨items, (ok.inj h).symm⟩
  | case3 => cases h
  | case4 items shorter fuel _ ih => exact ih h

end

theorem truncateValue_within {value : Json} {s : String}
    (h : truncateValue limit (.ofTexts protectedMarks) true value = .ok (.str s)) :
    limit.isExceededBy (span s.toList) = false := by
  cases value with
  | str t =>
    rw [truncateValue_str] at h
    cases hcut : cutDown limit protectedMarks true t.toList.length t.toList with
    | error fault =>
      rw [hcut] at h
      cases h
    | ok short =>
      rw [hcut] at h
      cases h
      rw [String.toList_ofList]
      exact cutDown_within hcut
  | arr items =>
    obtain ⟨left, hleft⟩ := cutItems_ok h
    cases hleft
  | _ =>
    obtain ⟨chars, -, h⟩ := bind_ok h
    split at h
    · obtain ⟨run, -, h⟩ := bind_ok h
      cases h
    · cases h

def textAt (fields : Fields) (key : String) : Json :=
  orEmpty ((fields.lookup key).getD .null)

inductive LimitOf (source translated : Fields) (key : String) : Limit → Prop
  | stated {room : Json} {limit : Limit} (here : translated.lookup (key ++ "_orig_len") = some room)
      (number : ofJson? room = some limit) : LimitOf source translated key limit
  | stored {s : String} {bytes : List UInt8}
      (silent : translated.lookup (key ++ "_orig_len") = none)
      (text : textAt source key = .str s)
      (encoded : cp932.encode s.toList = .ok bytes) :
      LimitOf source translated key (.whole bytes.length)

section
variable {i : Nat} {key : String} {source translated fields : Fields} {text : Json}

theorem ofJson_ok_iff {relation : String} :
    ofJson relation room = .ok limit ↔ ofJson? room = some limit := by
  rw [ofJson]
  cases ofJson? room <;> simp

theorem roomFor_stated (text : Json) (h : translated.lookup (key ++ "_orig_len") = some room) :
    roomFor i key text (.obj translated) = .ok room := by
  have hhas := has_obj translated (key ++ "_orig_len")
  rw [roomFor.eq_def]
  dsimp only
  rw [hhas, h]
  change field (.obj translated) _ = _
  rw [field, h]

theorem roomFor_silent (h : translated.lookup (key ++ "_orig_len") = none) :
    roomFor i key text (.obj translated) = .ok room ↔
      ∃ s bytes, text = .str s ∧ cp932.encode s.toList = .ok bytes ∧
        room = .int bytes.length := by
  have hhas := has_obj translated (key ++ "_orig_len")
  rw [roomFor.eq_def]
  dsimp only
  rw [hhas, h]
  constructor
  · intro hroom
    cases text with
    | str s =>
      simp only [storedSize] at hroom
      cases hbytes : cp932.encode s.toList with
      | ok bytes =>
        rw [hbytes] at hroom
        cases hroom
        exact ⟨s, bytes, rfl, hbytes, rfl⟩
      | error defect =>
        rw [hbytes] at hroom
        cases hroom
    | _ => cases hroom
  · rintro ⟨s, bytes, rfl, hbytes, rfl⟩
    simp only [storedSize, hbytes]
    rfl

theorem limitOf_iff :
    LimitOf source translated key limit ↔
      ∃ room, roomFor i key (textAt source key) (.obj translated) = .ok room ∧
        ofJson? room = some limit := by
  constructor
  · intro h
    cases h with
    | stated here number => exact ⟨_, roomFor_stated _ here, number⟩
    | stored silent text encoded =>
      exact ⟨_, (roomFor_silent silent).mpr ⟨_, _, text, encoded, rfl⟩, rfl⟩
  · rintro ⟨room, hroom, hlimit⟩
    cases hstated : translated.lookup (key ++ "_orig_len") with
    | some v =>
      rw [roomFor_stated _ hstated] at hroom
      cases hroom
      exact .stated hstated hlimit
    | none =>
      obtain ⟨s, bytes, htext, hbytes, rfl⟩ := (roomFor_silent hstated).mp hroom
      cases hlimit
      exact .stored hstated htext hbytes

inductive FieldFitted (source translated fields : Fields) (key : String) :
    Fields → Prop
  | absent (here : source.lookup key = none) : FieldFitted source translated fields key fields
  | within {limit : Limit} {chars : List Char} (here : (source.lookup key).isSome)
      (room : LimitOf source translated key limit)
      (text : charsOf (textAt translated key) = .ok chars)
      (fits : limit.admits (span chars) = true) : FieldFitted source translated fields key fields
  | cut {limit : Limit} {chars : List Char} {short : Json} (here : (source.lookup key).isSome)
      (room : LimitOf source translated key limit)
      (text : charsOf (textAt translated key) = .ok chars)
      (wide : limit.admits (span chars) = false)
      (shortened : truncateValue limit (.ofTexts protectedMarks) true (textAt translated key) =
        .ok short) :
      FieldFitted source translated fields key (setField key short fields)

theorem fitField_absent (h : source.lookup key = none) (translated result : Json) :
    fitField i (.obj source) translated result key = .ok result := by
  rw [fitField, has_obj, h]
  rfl

theorem fitField_here (h : (source.lookup key).isSome) (translated result : Json) :
    fitField i (.obj source) translated result key = (do
      let text ← translated.get key .null
      let room ← roomFor i key (textAt source key) translated
      fitText i key room (orEmpty text) result) := by
  rw [fitField, has_obj, h]
  rfl

theorem fitField_notRecord {translated : Json} (hother : ∀ fields, translated ≠ .obj fields)
    (h : fitField i (.obj source) translated result key = .ok entry) :
    entry = result ∧ source.lookup key = none := by
  by_cases hhere : (source.lookup key).isSome
  · rw [fitField_here hhere] at h
    obtain ⟨text, htext, -⟩ := bind_ok h
    cases translated with
    | obj fields => exact absurd rfl (hother fields)
    | _ => cases htext
  · rw [not_isSome_iff_eq_none] at hhere
    rw [fitField_absent hhere] at h
    exact ⟨(ok.inj h).symm, hhere⟩

theorem fitText_ok (h : fitText i key room text result = .ok entry) :
    ∃ chars limit, charsOf text = .ok chars ∧ ofJson? room = some limit ∧
      (limit.admits (span chars) = true ∧ entry = result ∨
        limit.admits (span chars) = false ∧ ∃ short,
          truncateValue limit (.ofTexts protectedMarks) true text = .ok short ∧
            result.put key short = .ok entry) := by
  obtain ⟨chars, hchars, h⟩ := bind_ok h
  obtain ⟨limit, hlimit, h⟩ := bind_ok h
  refine ⟨chars, limit, hchars, ofJson_ok_iff.mp hlimit, ?_⟩
  cases hfits : limit.admits (span chars) with
  | true =>
    rw [hfits, if_pos rfl] at h
    exact .inl ⟨rfl, (ok.inj h).symm⟩
  | false =>
    rw [hfits, if_neg Bool.false_ne_true] at h
    split at h
    case h_1 short hshort => exact .inr ⟨rfl, short, hshort, h⟩
    all_goals cases h

theorem fitField_fitted
    (h : fitField i (.obj source) (.obj translated) (.obj fields) key = .ok result) :
    ∃ fields', result = .obj fields' ∧ FieldFitted source translated fields key fields' := by
  by_cases hhere : (source.lookup key).isSome
  · rw [fitField_here hhere] at h
    obtain ⟨text, htext, h⟩ := bind_ok h
    cases htext
    obtain ⟨room, hroom, h⟩ := bind_ok h
    obtain ⟨chars, limit, hchars, hnumber, ⟨hfits, rfl⟩ | ⟨hwide, short, hshort, hput⟩⟩ :=
      fitText_ok h
    · exact ⟨fields, rfl, .within hhere (limitOf_iff.mpr ⟨room, hroom, hnumber⟩) hchars hfits⟩
    · cases hput
      exact ⟨_, rfl, .cut hhere (limitOf_iff.mpr ⟨room, hroom, hnumber⟩) hchars hwide hshort⟩
  · rw [not_isSome_iff_eq_none] at hhere
    rw [fitField_absent hhere] at h
    cases h
    exact ⟨fields, rfl, .absent hhere⟩

end

def SameBut (keys : List String) (fields fields' : Fields) : Prop :=
  List.Forall₂ (fun f g => f.1 = g.1 ∧ (f.1 ∉ keys → f.2 = g.2)) fields fields'

theorem SameBut.refl (keys : List String) (fields : Fields) :
    SameBut keys fields fields :=
  List.forall₂_same.mpr fun _ _ => ⟨rfl, fun _ => rfl⟩

theorem SameBut.trans {xs ys zs : Fields} (hxy : SameBut keys xs ys)
    (hyz : SameBut keys ys zs) : SameBut keys xs zs := by
  induction hxy generalizing zs with
  | nil => exact hyz
  | cons hhead _ ih =>
    cases hyz with
    | cons hnext htail =>
      refine .cons ⟨hhead.1.trans hnext.1, fun hkey => ?_⟩ (ih htail)
      exact (hhead.2 hkey).trans (hnext.2 (hhead.1 ▸ hkey))

theorem sameBut_setField {key : String} (hkey : key ∈ keys) (v : Json)
    {fields : Fields} (hthere : (fields.lookup key).isSome) :
    SameBut keys fields (setField key v fields) := by
  induction fields with
  | nil => cases hthere
  | cons f fields ih =>
    obtain ⟨k, w⟩ := f
    rw [setField]
    by_cases hk : k = key
    · rw [if_pos hk]
      exact .cons ⟨rfl, fun hout => absurd (hk ▸ hkey) hout⟩ (SameBut.refl keys fields)
    · rw [if_neg hk]
      rw [lookup_cons_ne (Ne.symm hk)] at hthere
      exact .cons ⟨rfl, fun _ => rfl⟩ (ih hthere)

structure Fits (limit : Limit) (translated entry : Fields) (key : String) : Prop where
  text : ∃ chars, charsOf (textAt translated key) = .ok chars ∧
    if limit.admits (span chars) then entry.lookup key = translated.lookup key
    else ∃ short, truncateValue limit (.ofTexts protectedMarks) true (textAt translated key) =
      .ok short ∧ entry.lookup key = some short
  room : ∀ s bytes, entry.lookup key = some (.str s) → cp932.encode s.toList = .ok bytes →
    limit.admits bytes.length = true ∨ limit = .real .nan

theorem admits_encode (h : limit.isExceededBy (span text) = false)
    (hbytes : cp932.encode text = .ok bytes) :
    limit.admits bytes.length = true ∨ limit = .real .nan := by
  apply admits_or_nan
  rw [Bool.eq_false_iff]
  intro hbeyond
  rw [isExceededBy_mono (length_encodeFrom 0 hbytes) hbeyond] at h
  cases h

theorem orEmpty_str (s : String) : orEmpty (.str s) = .str s := by
  by_cases hs : s = ""
  · rw [hs]
    rfl
  · rw [orEmpty, if_pos (by simpa [truthy] using hs)]

namespace FieldFitted

variable {key k : String} {source translated fields fields' : Fields}

section

variable (h : FieldFitted source translated fields key fields')
include h

theorem other (hk : k ≠ key) : fields'.lookup k = fields.lookup k := by
  cases h with
  | absent => rfl
  | within => rfl
  | cut => rw [lookup_setField, if_neg hk]

theorem sameBut (hkey : key ∈ keys)
    (hthere : (source.lookup key).isSome → (fields.lookup key).isSome) :
    SameBut keys fields fields' := by
  cases h with
  | absent => exact .refl keys fields
  | within => exact .refl keys fields
  | cut here => exact sameBut_setField hkey _ (hthere here)

theorem same (hnone : source.lookup key = none) : fields' = fields := by
  cases h with
  | absent => rfl
  | within => rfl
  | cut here =>
    rw [hnone] at here
    cases here

theorem fits (hhere : (source.lookup key).isSome)
    (hsame : fields.lookup key = translated.lookup key) :
    ∃ limit, LimitOf source translated key limit ∧ Fits limit translated fields' key := by
  cases h with
  | absent here =>
    rw [here] at hhere
    cases hhere
  | @within limit chars _ room text fits =>
    refine ⟨limit, room, ⟨chars, text, by rw [fits, if_pos rfl, hsame]⟩, ?_⟩
    intro s bytes hs hbytes
    rw [textAt, ← hsame, hs, getD_some, orEmpty_str] at text
    cases text
    exact admits_encode (isExceededBy_eq_false fits) hbytes
  | @cut limit chars short _ room text wide shortened =>
    have hset : (setField key short fields).lookup key = some short := by
      rw [lookup_setField, if_pos rfl]
    refine ⟨limit, room, ⟨chars, text, ?_⟩, ?_⟩
    · rw [wide, if_neg Bool.false_ne_true]
      exact ⟨short, shortened, hset⟩
    · intro s bytes hs hbytes
      rw [hset, some.injEq] at hs
      rw [hs] at shortened
      exact admits_encode (truncateValue_within shortened) hbytes

end

end FieldFitted

structure Trimmed (source translated entry : Fields) : Prop where
  others : SameBut ["name", "message"] translated entry
  unbounded : source.lookup "length_unbounded" = some (.bool true) → entry = translated
  absent : ∀ key ∈ ["name", "message"], source.lookup key = none →
    entry.lookup key = translated.lookup key
  fits : source.lookup "length_unbounded" ≠ some (.bool true) → ∀ key ∈ ["name", "message"],
    (source.lookup key).isSome →
      ∃ limit, LimitOf source translated key limit ∧ Fits limit translated entry key

namespace Trimmed

variable {source translated : Fields}

theorem untouched
    (h : source.lookup "length_unbounded" = some (.bool true) ∨
      ∀ key ∈ ["name", "message"], source.lookup key = none) :
    Trimmed source translated translated where
  others := SameBut.refl _ translated
  unbounded _ := rfl
  absent _ _ _ := rfl
  fits := by
    intro hbounded key hkey hhere
    rcases h with hfree | hnone
    · exact absurd hfree hbounded
    · rw [hnone key hkey] at hhere
      cases hhere

theorem ofFields {named entry : Fields}
    (hbounded : source.lookup "length_unbounded" ≠ some (.bool true))
    (hthere : ∀ key ∈ ["name", "message"],
      (source.lookup key).isSome → (translated.lookup key).isSome)
    (hname : FieldFitted source translated translated "name" named)
    (hmessage : FieldFitted source translated named "message" entry) :
    Trimmed source translated entry := by
  have hkeep : named.lookup "message" = translated.lookup "message" := hname.other (by decide)
  have hkept : entry.lookup "name" = named.lookup "name" := hmessage.other (by decide)
  have hsame : SameBut ["name", "message"] named entry := by
    apply hmessage.sameBut (by simp)
    rw [hkeep]
    exact hthere "message" (by simp)
  constructor
  · exact (hname.sameBut (by simp) (hthere "name" (by simp))).trans hsame
  · exact fun hfree => absurd hfree hbounded
  · intro key hkey hnone
    rcases List.mem_pair.mp hkey with rfl | rfl
    · rw [hkept, hname.same hnone]
    · rw [hmessage.same hnone, hkeep]
  · intro _ key hkey hhere
    rcases List.mem_pair.mp hkey with rfl | rfl
    · obtain ⟨limit, hlimit, htext, hroom⟩ := hname.fits hhere rfl
      rw [← hkept] at htext hroom
      exact ⟨limit, hlimit, htext, hroom⟩
    · exact hmessage.fits hhere hkeep

end Trimmed

theorem lacksField_obj (source translated : Fields) (key : String) :
    lacksField (.obj source) (.obj translated) key = .ok false ↔
      ((source.lookup key).isSome → (translated.lookup key).isSome) := by
  rw [lacksField, has_obj, has_obj]
  cases (source.lookup key).isSome with
  | false => simp [bind, Except.bind, pure, Except.pure]
  | true => simp [bind, Except.bind, pure, Except.pure]

theorem toRecord_ok {v record : Json} (h : v.toRecord = .ok record) :
    ∃ fields, record = .obj fields := by
  unfold toRecord at h
  split at h
  · cases h
    exact ⟨_, rfl⟩
  · split at h
    · cases h
    · rename_i pairs _
      cases hadd : addPairs 0 pairs [] with
      | error fault =>
        rw [hadd] at h
        cases h
      | ok fields =>
        rw [hadd] at h
        exact ⟨fields, (ok.inj h).symm⟩

theorem isUnbounded_obj {fields : Fields} :
    isUnbounded (.obj fields) = .ok free ↔
      (free = true ↔ fields.lookup "length_unbounded" = some (.bool true)) := by
  have hvalue : isUnbounded (.obj fields) =
      .ok ((fields.lookup "length_unbounded").getD .null).isTrue := rfl
  have htrue : ((fields.lookup "length_unbounded").getD .null).isTrue = true ↔
      fields.lookup "length_unbounded" = some (.bool true) := by
    rw [isTrue_iff]
    cases fields.lookup "length_unbounded" <;> simp
  rw [hvalue, ok.injEq, ← htrue, ← Bool.eq_iff_iff, eq_comm]

theorem isUnbounded_ok (h : isUnbounded source = .ok free) : ∃ fields, source = .obj fields := by
  cases source with
  | obj fields => exact ⟨fields, rfl⟩
  | _ => cases h

theorem opening_ok_iff {record : Json} :
    opening i source translated = .ok (record, free) ↔
      (∀ key ∈ ["name", "message"], lacksField source translated key = .ok false) ∧
        translated.toRecord = .ok record ∧ isUnbounded source = .ok free := by
  constructor
  · intro h
    obtain ⟨lacksName, hname, h⟩ := bind_ok h
    cases lacksName with
    | true => cases h
    | false =>
      obtain ⟨lacksMessage, hmessage, h⟩ := bind_ok h
      cases lacksMessage with
      | true => cases h
      | false =>
        obtain ⟨record, hrecord, h⟩ := bind_ok h
        obtain ⟨free, hfree, h⟩ := bind_ok h
        cases h
        refine ⟨?_, hrecord, hfree⟩
        intro key hkey
        rcases List.mem_pair.mp hkey with rfl | rfl
        · exact hname
        · exact hmessage
  · rintro ⟨hlacks, hrecord, hfree⟩
    rw [opening, hlacks "name" (by simp), hlacks "message" (by simp), hrecord, hfree]
    rfl

theorem fitEntry_trimmed (h : fitEntry i source translated = .ok entry) :
    ∃ sf tf ef, source = .obj sf ∧ translated.toRecord = .ok (.obj tf) ∧ entry = .obj ef ∧
      Trimmed sf tf ef := by
  obtain ⟨⟨record, free⟩, hopening, h⟩ := bind_ok h
  obtain ⟨hlacks, hrecord, hfree⟩ := opening_ok_iff.mp hopening
  obtain ⟨tf, rfl⟩ := toRecord_ok hrecord
  obtain ⟨sf, rfl⟩ := isUnbounded_ok hfree
  have hunbounded := isUnbounded_obj.mp hfree
  by_cases hfree : free = true
  · rw [if_pos hfree] at h
    cases h
    exact ⟨sf, tf, tf, rfl, hrecord, rfl, .untouched (.inl (hunbounded.mp hfree))⟩
  rw [if_neg hfree] at h
  obtain ⟨named, hname, hmessage⟩ := bind_ok h
  by_cases hobj : ∃ fields, translated = .obj fields
  · obtain ⟨fields, rfl⟩ := hobj
    cases hrecord
    obtain ⟨named, rfl, hnamed⟩ := fitField_fitted hname
    obtain ⟨ef, rfl, hfitted⟩ := fitField_fitted hmessage
    refine ⟨sf, tf, ef, rfl, rfl, rfl, .ofFields ?_ ?_ hnamed hfitted⟩
    · exact fun htrue => hfree (hunbounded.mpr htrue)
    · exact fun key hkey => (lacksField_obj sf tf key).mp (hlacks key hkey)
  · -- Only a record has fields to be truncated, so that the source must have none.
    have hother : ∀ fields, translated ≠ .obj fields := fun fields heq => hobj ⟨fields, heq⟩
    obtain ⟨rfl, hnoName⟩ := fitField_notRecord hother hname
    obtain ⟨rfl, hnoMessage⟩ := fitField_notRecord hother hmessage
    refine ⟨sf, tf, tf, rfl, hrecord, rfl, .untouched (.inr ?_)⟩
    intro key hkey
    rcases List.mem_pair.mp hkey with rfl | rfl
    · exact hnoName
    · exact hnoMessage

def EntryTrimmed (pair : Json × Json) (entry : Json) : Prop :=
  ∃ source translated fields, pair.1 = .obj source ∧
    pair.2.toRecord = .ok (.obj translated) ∧ entry = .obj fields ∧ Trimmed source translated fields

theorem fitAll_trimmed {pairs : List (Json × Json)} {entries : List Json}
    (h : fitAll i pairs = .ok entries) : List.Forall₂ EntryTrimmed pairs entries := by
  induction pairs generalizing i entries with
  | nil =>
    cases h
    exact .nil
  | cons pair pairs ih =>
    obtain ⟨entry, hentry, h⟩ := bind_ok h
    obtain ⟨more, hmore, h⟩ := bind_ok h
    cases h
    exact .cons (fitEntry_trimmed hentry) (ih hmore)

/-- Truncation of all entries yields one for each source, and each of them as it should be. -/
theorem fitEntries_trimmed {sources targets entries : List Json}
    (h : fitEntries (.arr sources) (.arr targets) = .ok entries) :
    sources.length = targets.length ∧ entries.length = sources.length ∧
      List.Forall₂ EntryTrimmed (sources.zip targets) entries := by
  obtain ⟨n, hn, h⟩ := bind_ok h
  obtain ⟨m, hm, h⟩ := bind_ok h
  cases hn
  cases hm
  by_cases hcount : sources.length = targets.length
  · rw [if_neg (not_not.mpr hcount)] at h
    have hall : List.Forall₂ EntryTrimmed (sources.zip targets) entries := fitAll_trimmed h
    have hlength := hall.length_eq
    rw [List.length_zip, ← hcount, Nat.min_self] at hlength
    exact ⟨hcount, hlength.symm, hall⟩
  · rw [if_pos hcount] at h
    cases h

def markedSources : List Json :=
  [.obj [("name", .str "ab"), ("message", .str "c")],
    .obj [("message", .str ""), ("length_unbounded", .bool true)]]

def markedTargets : List Json :=
  [.obj [("message", .str "あabいう@p"), ("message_orig_len", .int 6), ("name", .str "あい")],
    .obj [("message", .str "d")]]

def markedEntries : List Json :=
  [.obj [("message", .str "あab@p"), ("message_orig_len", .int 6), ("name", .str "あ")],
    .obj [("message", .str "d")]]

theorem fitEntries_trimmed_marked :
    fitEntries (.arr markedSources) (.arr markedTargets) = .ok markedEntries ∧
      List.Forall₂ EntryTrimmed (markedSources.zip markedTargets) markedEntries :=
  ⟨rfl, (fitEntries_trimmed rfl).2.2⟩

/-- A text of narrow kana has its room in bytes and is cut all the same, since each of them takes
two cells. A room that is not a number bounds nothing, and a list of pairs becomes a record. -/
theorem fitEntries_narrow_kana :
    (cp932.encode "ｱｲｳ".toList = .ok [0xb1, 0xb2, 0xb3] ∧
      fitEntries (.arr [.obj [("message", .str "ｱｲｳ")]]) (.arr [.obj [("message", .str "ｱｲｳ")]]) =
        .ok [.obj [("message", .str "ｱ")]]) ∧
    fitEntries (.arr [.obj [("message", .str "")]])
        (.arr [.obj [("message", .str "a"), ("message_orig_len", .real .nan)]]) =
      .ok [.obj [("message", .str "a"), ("message_orig_len", .real .nan)]] ∧
    fitEntries (.arr [.obj []]) (.arr [.arr []]) = .ok [.obj []] :=
  ⟨⟨rfl, rfl⟩, rfl, rfl⟩

end SceneText.Layout
