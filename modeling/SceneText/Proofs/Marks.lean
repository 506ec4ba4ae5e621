import SceneText.Tool.Lengths
import SceneText.Proofs.Fitting
import SceneText.Proofs.Shortening
import SceneText.Proofs.Substitution

/-!
# Marks on long messages

What becomes of an entry beside its source. It is left with an error mark exactly if the message
that it is left with is longer than its room, whatever mark it carried before and whether messages
are only checked or shortened too; all other fields stay. A check changes nothing that it goes by,
so that a second one changes nothing at all.
-/

namespace SceneText.LengthsTool

open Run Layout Arguments Json String List

section
variable {fields : Fields} {key : String} {keys : List String}

def without (keys : List String) (fields : Fields) : Fields :=
  fields.filter fun f => f.1 ∉ keys

theorem without_dropField (hkey : key ∈ keys) (fields : Fields) :
    without keys (dropField key fields) = without keys fields := by
  rw [without, without, dropField, filter_filter]
  apply filter_congr
  intro f _
  by_cases hf : f.1 ∈ keys
  · simp [hf]
  · have hne : f.1 ≠ key := fun heq => hf (heq ▸ hkey)
    simp [hf, hne]

theorem without_setField (hkey : key ∈ keys) (v : Json) (fields : Fields) :
    without keys (setField key v fields) = without keys fields := by
  induction fields with
  | nil =>
    rw [setField, without, filter_cons, if_neg (by simpa using hkey)]
    rfl
  | cons f fields ih =>
    obtain ⟨k, w⟩ := f
    rw [setField]
    by_cases hk : k = key
    · have hin : k ∈ keys := hk ▸ hkey
      rw [if_pos hk, without, filter_cons, if_neg (by simpa using hin), without,
        filter_cons, if_neg (by simpa using hin)]
    · rw [without, without] at ih
      rw [if_neg hk, without, filter_cons, without, filter_cons, ih]

/-- A record that a file can hold as an item. -/
structure Storable (fields : Fields) : Prop where
  regular : (obj fields).Regular
  depth : (obj fields).depth < maxDepth

theorem Storable.setText (h : Storable fields) (key text : String) :
    Storable (setField key (.str text) fields) where
  regular := regular_setField key trivial h.regular
  depth := Nat.lt_of_le_of_lt (depth_setText key) h.depth

theorem Storable.drop (h : Storable fields) (key : String) :
    Storable (dropField key fields) where
  regular := by
    have hregular := h.regular
    rw [Regular] at hregular ⊢
    refine ⟨hregular.1.sublist (filter_sublist.map Prod.fst), ?_⟩
    rw [regularFields_iff] at hregular ⊢
    exact fun f hf => hregular.2 f (mem_of_mem_filter hf)
  depth := by
    refine Nat.lt_of_le_of_lt (Nat.succ_le_succ ?_) h.depth
    rw [depthFields_le_iff]
    exact fun f hf => depthFields_le_iff.mp (Nat.le_refl _) f (mem_of_mem_filter hf)

theorem documentOf_records {α : Type} {l : List α} {f : α → Fields}
    (h : ∀ a ∈ l, Storable (f a)) :
    documentOf (Utf8.encode (arr (l.map fun a => .obj (f a))).indented.toList) =
      .ok (.arr (l.map fun a => .obj (f a))) := by
  apply documentOf_items
  intro x hx
  obtain ⟨a, ha, rfl⟩ := mem_map.mp hx
  exact ⟨(h a ha).regular, (h a ha).depth⟩

end

structure Typed (fields : Fields) : Prop where
  message : ∀ v, fields.lookup "message" = some v → ∃ text, v = .str text
  length : ∀ v, fields.lookup "message_orig_len" = some v → ∃ n, v = .int n

def textOf (fields : Fields) : String :=
  match fields.lookup "message" with
  | some (.str text) => text
  | _ => ""

def sourceSize (measure : Measure) (cs : Charset) (text : String) : Nat :=
  match measure with
  | .chars => text.length
  | .cells => cs.lossySize text.toList

def roomOf (measure : Measure) (cs : Charset) (source : Fields) : Int :=
  match source.lookup "message_orig_len" with
  | some (.int n) => n
  | _ => sourceSize measure cs (textOf source)

def Unbounded (source : Fields) : Prop :=
  source.lookup "length_unbounded" = some (.bool true)

instance (source : Fields) : Decidable (Unbounded source) :=
  decidable_of_iff (((source.lookup "length_unbounded").getD .null).isTrue = true)
    (isUnbounded_obj.mp rfl)

/-- How an entry leaves a run: marked exactly if it is too long beside its source. -/
structure Marked (settings : Settings) (cs : Charset) (source entry result : Fields) :
    Prop where
  unbounded : Unbounded source →
    result.lookup "error" = none ∧ without ["error"] result = without ["error"] entry
  marked : ¬ Unbounded source → ((result.lookup "error").isSome ↔
      roomOf settings.measure cs source < settings.measure.length (textOf result).toList)
  message : ¬ Unbounded source → settings.behaviour = .check ∨
      settings.measure.length (textOf entry).toList ≤ roomOf settings.measure cs source →
    result.lookup "message" = entry.lookup "message"
  others : without ["message", "error"] result = without ["message", "error"] entry

def mark (behaviour : Behaviour) (room : Int) (length : Nat) : String :=
  if behaviour = .drastic then s!"原文 {room} < 译文 {length}（激进修复后仍超长）"
  else s!"原文 {room} < 译文 {length}"

def shortened (settings : Settings) (room : Int) (entry : Fields) :
    Fields :=
  let short := shorten settings.measure (.whole room) (settings.behaviour = .drastic)
    (textOf entry).toList
  let entry := setField "message" (.str (ofList short.1)) entry
  if short.2 then dropField "error" entry
  else setField "error" (.str (mark settings.behaviour room (settings.measure.length short.1)))
    entry

def Passes (settings : Settings) (cs : Charset) (source entry : Fields) : Prop :=
  Unbounded source ∨
    (settings.measure.length (textOf entry).toList : Int) ≤ roomOf settings.measure cs source

instance (settings : Settings) (cs : Charset) (source entry : Fields) :
    Decidable (Passes settings cs source entry) :=
  inferInstanceAs (Decidable (_ ∨ _))

def outcome (settings : Settings) (cs : Charset) (source entry : Fields) :
    Fields :=
  let room := roomOf settings.measure cs source
  if Passes settings cs source entry then dropField "error" entry
  else match settings.behaviour with
    | .idle => entry
    | .check =>
      let length := settings.measure.length (textOf entry).toList
      setField "error" (.str (mark .check room length)) entry
    | _ => shortened settings room entry

section
variable {settings : Settings} {cs : Charset} {source entry fields : Fields}

theorem textOf_congr {fields' : Fields}
    (h : fields'.lookup "message" = fields.lookup "message") : textOf fields' = textOf fields := by
  rw [textOf, textOf, h]

theorem marked_cleared (h : Passes settings cs source entry) :
    Marked settings cs source entry (dropField "error" entry) := by
  have hmessage : (dropField "error" entry).lookup "message" = entry.lookup "message" := by
    rw [lookup_dropField, if_neg (by decide)]
  have herror : (dropField "error" entry).lookup "error" = none := by
    rw [lookup_dropField, if_pos rfl]
  refine ⟨fun _ => ⟨herror, without_dropField (by decide) entry⟩, ?_, fun _ _ => hmessage,
    without_dropField (by decide) entry⟩
  intro hbounded
  have hfits := h.resolve_left hbounded
  rw [herror, textOf_congr hmessage]
  simpa using hfits

theorem marked_checked (hbounded : ¬ Unbounded source)
    (hlong : roomOf settings.measure cs source < settings.measure.length (textOf entry).toList)
    (text : String) : Marked settings cs source entry (setField "error" (.str text) entry) := by
  have hmessage : (setField "error" (.str text) entry).lookup "message" =
      entry.lookup "message" := by
    rw [lookup_setField, if_neg (by decide)]
  refine ⟨fun hfree => absurd hfree hbounded, fun _ => ?_, fun _ _ => hmessage,
    without_setField (by decide) _ entry⟩
  rw [lookup_setField, if_pos rfl, textOf_congr hmessage]
  exact ⟨fun _ => hlong, fun _ => rfl⟩

theorem Marked.reworded {result : Fields} {v : Json}
    (h : Marked settings cs source (setField "message" v entry) result)
    (hbounded : ¬ Unbounded source) (hmode : settings.behaviour ≠ .check)
    (hlong : roomOf settings.measure cs source < settings.measure.length (textOf entry).toList) :
    Marked settings cs source entry result where
  unbounded hfree := absurd hfree hbounded
  marked := h.marked
  message _ hkept := absurd hkept (not_or.mpr ⟨hmode, by omega⟩)
  others := h.others.trans (without_setField (by decide) v entry)

theorem marked_shortened (hbounded : ¬ Unbounded source) (hmode : settings.behaviour ≠ .check)
    (hlong : roomOf settings.measure cs source < settings.measure.length (textOf entry).toList) :
    Marked settings cs source entry
      (shortened settings (roomOf settings.measure cs source) entry) := by
  have hverdict := (honest_shorten settings.measure (.whole (roomOf settings.measure cs source))
    (textOf entry).toList (settings.behaviour = .drastic)).verdict
  rw [shortened]
  generalize shorten _ _ _ _ = short at hverdict ⊢
  obtain ⟨text, fits⟩ := short
  have htext : textOf (setField "message" (.str (ofList text)) entry) =
      ofList text := by rw [textOf, lookup_setField, if_pos rfl]
  rw [Limit.admits_whole] at hverdict
  dsimp only at hverdict ⊢
  refine Marked.reworded (v := .str (ofList text)) ?_ hbounded hmode hlong
  by_cases hfits : (settings.measure.length text : Int) ≤ roomOf settings.measure cs source
  · rw [if_pos (by rw [hverdict, decide_eq_true hfits])]
    apply marked_cleared
    rw [Passes, htext, toList_ofList]
    exact .inr hfits
  · rw [if_neg (by rw [hverdict, decide_eq_false hfits]; decide)]
    apply marked_checked hbounded
    rw [htext, toList_ofList]
    omega

theorem marked_outcome (hmode : settings.behaviour ≠ .idle) :
    Marked settings cs source entry (outcome settings cs source entry) := by
  rw [outcome]
  by_cases hpasses : Passes settings cs source entry
  · rw [if_pos hpasses]
    exact marked_cleared hpasses
  · rw [if_neg hpasses]
    obtain ⟨hbounded, hlong⟩ := not_or.mp hpasses
    rw [Int.not_le] at hlong
    cases hbehaviour : settings.behaviour with
    | idle => exact absurd hbehaviour hmode
    | check => exact marked_checked hbounded hlong _
    | fix => exact marked_shortened hbounded (by rw [hbehaviour]; decide) hlong
    | drastic => exact marked_shortened hbounded (by rw [hbehaviour]; decide) hlong

def SameUnmarked (fields fields' : Fields) : Prop :=
  ∀ key, key ≠ "error" → fields'.lookup key = fields.lookup key

section SameUnmarked

variable {fields' : Fields}

variable (h : SameUnmarked fields fields')
include h

theorem SameUnmarked.typed (htyped : Typed fields) : Typed fields' where
  message v := by
    rw [h "message" (by decide)]
    exact htyped.message v
  length v := by
    rw [h "message_orig_len" (by decide)]
    exact htyped.length v

theorem SameUnmarked.textOf : LengthsTool.textOf fields' = LengthsTool.textOf fields :=
  textOf_congr (h "message" (by decide))

theorem SameUnmarked.roomOf (measure : Measure) (cs : Charset) :
    LengthsTool.roomOf measure cs fields' = LengthsTool.roomOf measure cs fields := by
  rw [LengthsTool.roomOf, LengthsTool.roomOf, h "message_orig_len" (by decide), h.textOf]

theorem SameUnmarked.unbounded : Unbounded fields' ↔ Unbounded fields := by
  rw [Unbounded, Unbounded, h "length_unbounded" (by decide)]

end SameUnmarked

theorem outcome_passes (h : Passes settings cs source entry) :
    outcome settings cs source entry = dropField "error" entry := by
  rw [outcome, if_pos h]

theorem outcome_long (hmode : settings.behaviour = .check) (h : ¬ Passes settings cs source entry) :
    outcome settings cs source entry =
      setField "error" (.str (mark .check (roomOf settings.measure cs source)
        (settings.measure.length (textOf entry).toList))) entry := by
  rw [outcome, if_neg h, hmode]

theorem sameUnmarked_outcome (hmode : settings.behaviour = .check) :
    SameUnmarked entry (outcome settings cs source entry) := by
  intro key hkey
  by_cases h : Passes settings cs source entry
  · rw [outcome_passes h, lookup_dropField, if_neg hkey]
  · rw [outcome_long hmode h, lookup_setField, if_neg hkey]

theorem Storable.checked (h : Storable entry) (hmode : settings.behaviour = .check) :
    Storable (outcome settings cs source entry) := by
  by_cases hpasses : Passes settings cs source entry
  · rw [outcome_passes hpasses]
    exact h.drop "error"
  · rw [outcome_long hmode hpasses]
    exact h.setText "error" _

theorem outcome_outcome (hmode : settings.behaviour = .check) {source' : Fields}
    (hsource : SameUnmarked source source') :
    outcome settings cs source' (outcome settings cs source entry) =
      outcome settings cs source entry := by
  have htext : textOf (outcome settings cs source entry) = textOf entry :=
    (sameUnmarked_outcome hmode).textOf
  have hpasses : Passes settings cs source' (outcome settings cs source entry) ↔
      Passes settings cs source entry := by
    rw [Passes, Passes, hsource.unbounded, hsource.roomOf, htext]
  by_cases h : Passes settings cs source entry
  · rw [outcome_passes (hpasses.mpr h), outcome_passes h]
    exact dropField_absent (by rw [lookup_dropField, if_pos rfl])
  · rw [outcome_long hmode (hpasses.not.mpr h), hsource.roomOf, htext, outcome_long hmode h]
    exact setField_setField _ _ _ _

end

end SceneText.LengthsTool
