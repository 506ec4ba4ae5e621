import Mathlib.Data.List.Dedup
import SceneText.Substitution.Pool
import SceneText.Proofs.Documents
import SceneText.Proofs.Lists

/-!
# Stand-ins are given out once and can be undone

A pool gives its stand-ins to the characters that the charset lacks in the order in which the text
brings them, each one once. So the pool after a text is known from the pool before and the distinct
characters of the text, and the stand-ins suffice if there are as many of them. The table of the
pool leads every stand-in back to the character it was given to.
-/

namespace SceneText.Pool

open List Json
open String (ofList singleton toList_inj toList_ofList)

variable {cs : Charset} {stock done final text : List Char} {c r : Char} {d : Char} {α : Type}
  {key s : String} {fields : Fields} {pool : Pool} {entry : Json}

def note (cs : Charset) (done : List Char) (c : Char) : List Char :=
  if cs.hasText [c] = true ∨ c ∈ done then done else done ++ [c]

def noteAll (cs : Charset) (done text : List Char) : List Char :=
  text.foldl (note cs) done

theorem noteAll_append (done text more : List Char) :
    noteAll cs done (text ++ more) = noteAll cs (noteAll cs done text) more :=
  foldl_append

theorem note_isPrefix (cs : Charset) (done : List Char) (c : Char) : done <+: note cs done c := by
  unfold note
  split
  · exact prefix_rfl
  · exact prefix_append done [c]

theorem noteAll_isPrefix (cs : Charset) (done text : List Char) :
    done <+: noteAll cs done text := by
  induction text generalizing done with
  | nil => exact prefix_rfl
  | cons c text ih => exact (note_isPrefix cs done c).trans (ih (note cs done c))

theorem nodup_note (h : done.Nodup) : (note cs done c).Nodup := by
  unfold note
  split
  · exact h
  · next hc => exact nodup_append.mpr ⟨h, by simp, by grind⟩

theorem nodup_noteAll (h : done.Nodup) : (noteAll cs done text).Nodup := by
  induction text generalizing done with
  | nil => exact h
  | cons c text ih => exact ih (nodup_note h)

theorem mem_note : d ∈ note cs done c ↔ d ∈ done ∨ d = c ∧ cs.hasText [c] = false := by
  unfold note
  split <;> grind

theorem mem_noteAll : d ∈ noteAll cs done text ↔ d ∈ done ∨ d ∈ text ∧ cs.hasText [d] = false := by
  induction text generalizing done with
  | nil => simp [noteAll]
  | cons c text ih =>
    rw [noteAll, foldl_cons, ← noteAll, ih, mem_note]
    grind

/-- The characters of a text that the charset lacks, each once. -/
def lacking (cs : Charset) (text : List Char) : List Char :=
  (text.filter fun c => !cs.hasText [c]).dedup

theorem length_noteAll (cs : Charset) (text : List Char) :
    (noteAll cs [] text).length = (lacking cs text).length := by
  refine ((perm_ext_iff_of_nodup (nodup_noteAll nodup_nil) (nodup_dedup _)).mpr
    fun d => ?_).length_eq
  simp [mem_noteAll]

def after (cs : Charset) (stock done : List Char) : Pool where
  charset := cs
  free := (stock.drop done.length).map singleton
  assigned := (done.zip stock).map fun p => (.str (singleton p.1), singleton p.2)
  table := (done.zip stock).map fun p => (singleton p.2, .str (singleton p.1))

def standIn (stock done : List Char) (c : Char) : Option Char :=
  (done.zip stock).lookup c

theorem zip_append_left {α β : Type} (xs ys : List α) (zs : List β) :
    (xs ++ ys).zip zs = xs.zip zs ++ ys.zip (zs.drop xs.length) := by
  induction xs generalizing zs with
  | nil => rfl
  | cons x xs ih => cases zs <;> simp [ih]

theorem zip_new {α β : Type} (done : List α) (stock : List β) (c : α) {r : β}
    (hnext : stock[done.length]? = some r) :
    (done ++ [c]).zip stock = done.zip stock ++ [(c, r)] := by
  obtain ⟨hlt, hr⟩ := List.getElem?_eq_some_iff.mp hnext
  rw [zip_append_left, drop_eq_getElem_cons hlt, hr]
  rfl

theorem map_snd_zip_take (done stock : List Char) :
    (done.zip stock).map Prod.snd = stock.take done.length := by
  induction done generalizing stock with
  | nil => rfl
  | cons d done ih => cases stock <;> simp [ih]

theorem standIn?_after (cs : Charset) (stock done : List Char) (c : Char) :
    (after cs stock done).standIn? (.str (singleton c)) =
      (standIn stock done c).map singleton := by
  unfold standIn? after standIn
  generalize done.zip stock = pairs
  induction pairs with
  | nil => rfl
  | cons p pairs ih =>
    obtain ⟨d, q⟩ := p
    have hkey :
        (str (singleton d)).sameKey (.str (singleton c)) = decide (d = c) := by
      simp [sameKey]
    rw [map_cons, find?_cons, hkey]
    by_cases h : c = d
    · simp [h]
    · rw [lookup_cons_ne h, ← ih]
      simp [Ne.symm h]

theorem standIn_of_not_mem (h : c ∉ done) : standIn stock done c = none := by
  refine lookup_eq_none_iff.mpr fun p hp => ?_
  simpa using fun heq : c = p.1 => h (heq ▸ (of_mem_zip hp).1)

theorem standIn_of_mem (h : c ∈ done) (hlen : done.length ≤ stock.length) :
    ∃ r, standIn stock done c = some r := by
  rw [← map_fst_zip hlen] at h
  obtain ⟨p, hp, rfl⟩ := mem_map.mp h
  exact Option.isSome_iff_exists.mp (lookup_isSome_iff.mpr ⟨p, hp, by simp⟩)

theorem standIn_mono (h : done <+: final) (hc : standIn stock done c = some r) :
    standIn stock final c = some r := by
  obtain ⟨more, rfl⟩ := h
  rw [standIn, zip_append_left, lookup_append, ← standIn, hc]
  rfl

theorem standIn_new (h : c ∉ done) (hnext : stock[done.length]? = some r) :
    standIn stock (done ++ [c]) c = some r := by
  rw [standIn, zip_new done stock c hnext, lookup_append, ← standIn, standIn_of_not_mem h]
  simp

theorem not_given_before (hstock : stock.Nodup) (hnext : stock[done.length]? = some r) :
    ∀ p ∈ done.zip stock, p.2 ≠ r := by
  rintro p hp rfl
  obtain ⟨hlt, hr⟩ := List.getElem?_eq_some_iff.mp hnext
  have hgiven := mem_map_of_mem (f := Prod.snd) hp
  rw [map_snd_zip_take] at hgiven
  rw [← take_append_drop done.length stock, nodup_append, drop_eq_getElem_cons hlt, hr] at hstock
  exact hstock.2.2 _ hgiven _ mem_cons_self rfl

theorem get_new (h : c ∉ done) (hstock : stock.Nodup) (hnext : stock[done.length]? = some r) :
    (after cs stock done).get (.str (singleton c)) =
      (.ok (singleton r), after cs stock (done ++ [c])) := by
  obtain ⟨hlt, hr⟩ := List.getElem?_eq_some_iff.mp hnext
  have hfree : (after cs stock done).free =
      singleton r :: (stock.drop (done.length + 1)).map singleton := by
    rw [after, drop_eq_getElem_cons hlt, hr, map_cons]
  have htable : setField (singleton r) (.str (singleton c))
      (after cs stock done).table = (after cs stock (done ++ [c])).table := by
    rw [setField_new]
    · simp [after, zip_new done stock c hnext]
    · intro hmem
      simp only [after, map_map, mem_map] at hmem
      obtain ⟨p, hp, heq⟩ := hmem
      exact not_given_before hstock hnext p hp (by simpa using heq)
  rw [get, standIn?_after, standIn_of_not_mem h]
  rw [hfree]
  dsimp only
  rw [htable]
  simp [after, zip_new done stock c hnext]

def mapped (cs : Charset) (stock final : List Char) (c : Char) : Char :=
  if cs.hasText [c] then c else (standIn stock final c).getD c

theorem mapUnit_enough (hstock : stock.Nodup) (hlen : (note cs done c).length ≤ stock.length)
    (hfinal : note cs done c <+: final) :
    (after cs stock done).mapUnit (.str (singleton c)) =
      (.ok (singleton (mapped cs stock final c)), after cs stock (note cs done c)) := by
  have hchars : (singleton c).toList = [c] := by simp
  unfold mapUnit mapped
  dsimp only
  rw [hchars]
  by_cases hc : cs.hasText [c] = true
  · rw [if_pos (show (after cs stock done).charset.hasText [c] = true from hc), if_pos hc, note,
      if_pos (.inl hc)]
  rw [if_neg (show ¬(after cs stock done).charset.hasText [c] = true from hc), if_neg hc]
  by_cases hdone : c ∈ done
  · have hnote : note cs done c = done := if_pos (.inr hdone)
    rw [hnote] at hlen hfinal ⊢
    obtain ⟨r, hr⟩ := standIn_of_mem hdone hlen
    rw [get, standIn?_after, hr, standIn_mono hfinal hr]
    rfl
  · have hnote : note cs done c = done ++ [c] := if_neg (not_or.mpr ⟨hc, hdone⟩)
    rw [hnote] at hlen hfinal ⊢
    rw [length_append, length_singleton] at hlen
    have hnext := getElem?_eq_getElem hlen
    rw [get_new hdone hstock hnext, standIn_mono hfinal (standIn_new hdone hnext)]
    rfl

theorem mapUnit_scarce (hlen : done.length ≤ stock.length)
    (hscarce : stock.length < (note cs done c).length) :
    (after cs stock done).mapUnit (.str (singleton c)) =
      (.error (.refused (.poolExhausted (singleton c))), after cs stock done) := by
  have hnew : ¬(cs.hasText [c] = true ∨ c ∈ done) := by
    intro h
    rw [note, if_pos h] at hscarce
    omega
  rw [note, if_neg hnew, length_append, length_singleton] at hscarce
  rw [not_or] at hnew
  have hchars : (singleton c).toList = [c] := by simp
  unfold mapUnit
  dsimp only
  rw [hchars, if_neg (show ¬(after cs stock done).charset.hasText [c] = true from hnew.1)]
  rw [get, standIn?_after, standIn_of_not_mem hnew.2]
  simp [after, drop_of_length_le (show stock.length ≤ done.length by omega), shown]

structure Lasts (cs : Charset) (stock done text : List Char) {α : Type}
    (result : Except Fault α × Pool) (v : α) : Prop where
  enough : (noteAll cs done text).length ≤ stock.length →
    result = (.ok v, after cs stock (noteAll cs done text))
  scarce : stock.length < (noteAll cs done text).length →
    ∃ c pool, result = (.error (.refused (.poolExhausted c)), pool)

def andThen {α β : Type} (result : Except Fault α × Pool)
    (next : α → Pool → Except Fault β × Pool) : Except Fault β × Pool :=
  match result with
  | (.ok v, pool) => next v pool
  | (.error fault, pool) => (.error fault, pool)

theorem Lasts.pure (v : α) (hlen : done.length ≤ stock.length) :
    Lasts cs stock done [] (.ok v, after cs stock done) v :=
  ⟨fun _ => rfl, fun h => absurd h (Nat.not_lt.mpr hlen)⟩

theorem Lasts.andThen {β : Type} {more : List Char} {result : Except Fault α × Pool} {v : α}
    {next : α → Pool → Except Fault β × Pool} {w : β} (h : Lasts cs stock done text result v)
    (hnext : (noteAll cs done text).length ≤ stock.length →
      Lasts cs stock (noteAll cs done text) more
        (next v (after cs stock (noteAll cs done text))) w) :
    Lasts cs stock done (text ++ more) (andThen result next) w := by
  by_cases hlen : (noteAll cs done text).length ≤ stock.length
  · rw [h.enough hlen]
    obtain ⟨henough, hscarce⟩ := hnext hlen
    refine ⟨fun h => ?_, fun h => ?_⟩ <;> rw [noteAll_append] at *
    · exact henough h
    · exact hscarce h
  · obtain ⟨c, pool, hfault⟩ := h.scarce (Nat.lt_of_not_le hlen)
    have hmore := (noteAll_isPrefix cs (noteAll cs done text) more).length_le
    rw [← noteAll_append] at hmore
    rw [hfault]
    exact ⟨fun h => absurd (Nat.le_trans hmore h) hlen, fun _ => ⟨c, pool, rfl⟩⟩

theorem Lasts.map {β : Type} {result : Except Fault α × Pool} {v : α}
    (h : Lasts cs stock done text result v) (f : α → β) :
    Lasts cs stock done text (Pool.andThen result fun v pool => (.ok (f v), pool)) (f v) := by
  refine ⟨fun hlen => ?_, fun hlen => ?_⟩
  · rw [h.enough hlen]
    rfl
  · obtain ⟨c, pool, hfault⟩ := h.scarce hlen
    rw [hfault]
    exact ⟨c, pool, rfl⟩

theorem mapUnits_cons (pool : Pool) (unit : Json) (rest : List Json) :
    pool.mapUnits (unit :: rest) = andThen (pool.mapUnit unit) fun s pool =>
      andThen (pool.mapUnits rest) fun more pool => (.ok (s :: more), pool) := by
  rw [mapUnits]
  rcases pool.mapUnit unit with ⟨fault | s, pool⟩
  · rfl
  · dsimp only [andThen]
    rcases pool.mapUnits rest with ⟨fault | more, pool⟩ <;> rfl

theorem mapUnits_lasts (hstock : stock.Nodup) (hlen : done.length ≤ stock.length)
    (hfinal : noteAll cs done text <+: final) :
    Lasts cs stock done text
      ((after cs stock done).mapUnits (text.map fun c => .str (singleton c)))
      (text.map fun c => singleton (mapped cs stock final c)) := by
  induction text generalizing done with
  | nil => exact .pure [] hlen
  | cons c text ih =>
    have hunit : Lasts cs stock done [c] ((after cs stock done).mapUnit (.str (singleton c)))
        (singleton (mapped cs stock final c)) :=
      ⟨fun h => mapUnit_enough hstock h ((noteAll_isPrefix _ _ _).trans hfinal),
        fun h => ⟨_, _, mapUnit_scarce hlen h⟩⟩
    rw [map_cons, mapUnits_cons, ← singleton_append]
    exact hunit.andThen fun hc => (ih hc hfinal).map _

def mappedText (cs : Charset) (stock final : List Char) (s : String) : String :=
  ofList (s.toList.map (mapped cs stock final))

theorem mapText_lasts (hstock : stock.Nodup) (hlen : done.length ≤ stock.length) (s : String)
    (hfinal : noteAll cs done s.toList <+: final) :
    Lasts cs stock done s.toList ((after cs stock done).mapText (.str s))
      (mappedText cs stock final s) := by
  obtain ⟨henough, hscarce⟩ := mapUnits_lasts hstock hlen hfinal
  refine ⟨fun h => ?_, fun h => ?_⟩
  · rw [mapText, elements, charTexts]
    dsimp only
    rw [henough h]
    have hjoin : String.join (s.toList.map fun c => singleton (mapped cs stock final c)) =
        mappedText cs stock final s := by
      rw [← toList_inj, String.toList_join, mappedText, toList_ofList,
        flatMap_map, map_eq_flatMap]
      simp
    dsimp only
    rw [hjoin]
  · obtain ⟨c, pool, hunits⟩ := hscarce h
    refine ⟨c, pool, ?_⟩
    rw [mapText, elements, charTexts]
    dsimp only
    rw [hunits]

def speech (key : String) : Json → Option String
  | .obj fields =>
    match fields.lookup key with
    | some (.str s) => some s
    | _ => none
  | _ => none

inductive Spoken : Json → Prop
  | intro (fields : Fields) (message : String)
      (hmessage : fields.lookup "message" = some (.str message))
      (hname : ∀ v, fields.lookup "name" = some v → ∃ s, v = .str s) : Spoken (.obj fields)

def reword (f : String → String) (key : String) (entry : Json) : Json :=
  match entry, speech key entry with
  | .obj fields, some s => .obj (setField key (.str (f s)) fields)
  | v, _ => v

theorem reword_text (f : String → String) (h : fields.lookup key = some (.str s)) :
    reword f key (.obj fields) = .obj (setField key (.str (f s)) fields) := by
  simp [reword, speech, h]

theorem reword_none (f : String → String) (h : fields.lookup key = none) :
    reword f key (.obj fields) = .obj fields := by
  simp [reword, speech, h]

def spokenChars (entry : Json) : List Char :=
  ((speech "name" entry).getD "").toList ++ ((speech "message" entry).getD "").toList

theorem entryName_obj (fields : Fields) :
    entryName (.obj fields) =
      .ok ((fields.lookup "name").bind fun v => if v.truthy then some v else none) := by
  unfold entryName
  rw [has_obj]
  cases hv : fields.lookup "name" with
  | none => rfl
  | some v =>
    have hfield : field (.obj fields) "name" = .ok v := by rw [field, hv]
    rw [hfield]
    rfl

theorem mapMessage_lasts {message : String}
    (hmessage : fields.lookup "message" = some (.str message)) (hstock : stock.Nodup)
    (hlen : done.length ≤ stock.length) (hfinal : noteAll cs done message.toList <+: final) :
    Lasts cs stock done message.toList ((after cs stock done).mapMessage (.obj fields))
      (reword (mappedText cs stock final) "message" (.obj fields)) := by
  obtain ⟨henough, hscarce⟩ := mapText_lasts hstock hlen message hfinal
  have hfield : field (.obj fields) "message" = .ok (.str message) := by
    rw [field, hmessage]
  refine ⟨fun h => ?_, fun h => ?_⟩
  · rw [mapMessage, hfield]
    dsimp only
    rw [henough h, reword_text _ hmessage]
    rfl
  · obtain ⟨c, pool, htext⟩ := hscarce h
    refine ⟨c, pool, ?_⟩
    rw [mapMessage, hfield]
    dsimp only
    rw [htext]

theorem mapEntry_unnamed (h : entryName entry = .ok none) :
    pool.mapEntry entry = pool.mapMessage entry := by
  rw [mapEntry, h]

theorem mapEntry_named {name : Json} (h : entryName (.obj fields) = .ok (some name)) :
    pool.mapEntry (.obj fields) = andThen (pool.mapText name) fun s pool =>
      pool.mapMessage (.obj (setField "name" (.str s) fields)) := by
  rw [mapEntry, h]
  dsimp only
  rcases pool.mapText name with ⟨fault | s, pool⟩ <;> rfl

def mappedEntry (cs : Charset) (stock final : List Char) (entry : Json) : Json :=
  reword (mappedText cs stock final) "message" (reword (mappedText cs stock final) "name" entry)

theorem mapEntry_lasts (h : Spoken entry) (hstock : stock.Nodup) (hlen : done.length ≤ stock.length)
    (hfinal : noteAll cs done (spokenChars entry) <+: final) :
    Lasts cs stock done (spokenChars entry) ((after cs stock done).mapEntry entry)
      (mappedEntry cs stock final entry) := by
  obtain ⟨fields, message, hmessage, hname⟩ := h
  have hentry := entryName_obj fields
  rw [mappedEntry]
  cases hlookup : fields.lookup "name" with
  | none =>
    have hchars : spokenChars (.obj fields) = message.toList := by
      simp [spokenChars, speech, hmessage, hlookup]
    rw [hlookup] at hentry
    rw [hchars] at hfinal ⊢
    rw [mapEntry_unnamed hentry, reword_none _ hlookup]
    exact mapMessage_lasts hmessage hstock hlen hfinal
  | some v =>
    obtain ⟨name, rfl⟩ := hname v hlookup
    have hchars : spokenChars (.obj fields) = name.toList ++ message.toList := by
      simp [spokenChars, speech, hmessage, hlookup]
    rw [hlookup] at hentry
    rw [hchars] at hfinal ⊢
    rw [reword_text _ hlookup]
    by_cases hempty : name = ""
    · -- An empty name is left alone, which comes to the same as mapping it.
      subst hempty
      have htext : mappedText cs stock final "" = "" := by simp [mappedText]
      rw [htext, setField_same hlookup, mapEntry_unnamed hentry]
      exact mapMessage_lasts hmessage hstock hlen hfinal
    · have hnamed : entryName (.obj fields) = .ok (some (.str name)) := by
        simpa [truthy, hempty] using hentry
      have hmessage' : (setField "name" (.str (mappedText cs stock final name))
          fields).lookup "message" = some (.str message) := by
        rw [lookup_setField, if_neg (by decide), hmessage]
      rw [noteAll_append] at hfinal
      rw [mapEntry_named hnamed]
      exact (mapText_lasts hstock hlen name ((noteAll_isPrefix cs _ _).trans hfinal)).andThen
        fun hlen' => mapMessage_lasts hmessage' hstock hlen' hfinal

theorem mapEntries_cons (pool : Pool) (entry : Json) (rest : List Json) :
    pool.mapEntries (entry :: rest) = andThen (pool.mapEntry entry) fun entry pool =>
      andThen (pool.mapEntries rest) fun more pool => (.ok (entry :: more), pool) := by
  rw [mapEntries]
  rcases pool.mapEntry entry with ⟨fault | entry, pool⟩
  · rfl
  · dsimp only [andThen]
    rcases pool.mapEntries rest with ⟨fault | more, pool⟩ <;> rfl

theorem mapEntries_lasts {entries : List Json} (h : ∀ e ∈ entries, Spoken e) (hstock : stock.Nodup)
    (hlen : done.length ≤ stock.length)
    (hfinal : noteAll cs done (entries.flatMap spokenChars) <+: final) :
    Lasts cs stock done (entries.flatMap spokenChars) ((after cs stock done).mapEntries entries)
      (entries.map (mappedEntry cs stock final)) := by
  induction entries generalizing done with
  | nil => exact .pure [] hlen
  | cons e entries ih =>
    rw [flatMap_cons, noteAll_append] at hfinal
    rw [flatMap_cons, mapEntries_cons]
    have hentry := mapEntry_lasts (h e (by simp)) hstock hlen
      ((noteAll_isPrefix cs _ _).trans hfinal)
    exact hentry.andThen fun he => (ih (fun e he => h e (by simp [he])) he hfinal).map _

def restoreChar (table : List (String × Json)) (c : Char) : List Char :=
  match table.lookup (singleton c) with
  | some (.str s) => s.toList
  | _ => [c]

def restore (table : List (String × Json)) (s : String) : String :=
  ofList (s.toList.flatMap (restoreChar table))

theorem mem_zip_of_standIn (h : standIn stock done c = some r) : (c, r) ∈ done.zip stock := by
  obtain ⟨front, back, hzip, -⟩ := lookup_eq_some_iff.mp h
  simp [hzip]

theorem keys_table : (after cs stock done).table.map Prod.fst =
    (stock.take done.length).map singleton := by
  rw [← map_snd_zip_take, after, map_map, map_map]
  rfl

theorem table_other (h : c ∉ stock.take done.length) :
    (after cs stock done).table.lookup (singleton c) = none := by
  refine lookup_eq_none_iff.mpr fun p hp => ?_
  have hkey := mem_map_of_mem (f := Prod.fst) hp
  rw [keys_table] at hkey
  obtain ⟨d, hd, hkey⟩ := mem_map.mp hkey
  rw [← hkey]
  simpa using fun heq : c = d => h (heq ▸ hd)

theorem table_standIn (hstock : stock.Nodup) (h : standIn stock done c = some r) :
    (after cs stock done).table.lookup (singleton r) = some (.str (singleton c)) := by
  refine lookup_of_mem ?_ (mem_map_of_mem (mem_zip_of_standIn h))
  rw [keys_table]
  exact (hstock.sublist (take_sublist _ _)).map fun a b hab => by simpa using hab

structure Covers (cs : Charset) (stock final text : List Char) : Prop where
  needed : ∀ c ∈ text, cs.hasText [c] = false → c ∈ final
  apart : ∀ c ∈ text, c ∉ stock

theorem restoreChar_mapped (hstock : stock.Nodup) (hlen : final.length ≤ stock.length)
    (h : Covers cs stock final text) (hc : c ∈ text) :
    restoreChar (after cs stock final).table (mapped cs stock final c) = [c] := by
  unfold restoreChar mapped
  by_cases htext : cs.hasText [c] = true
  · rw [if_pos htext, table_other fun hgiven => h.apart c hc (mem_of_mem_take hgiven)]
  · obtain ⟨r, hr⟩ := standIn_of_mem (h.needed c hc (by simpa using htext)) hlen
    rw [if_neg htext, hr, Option.getD_some, table_standIn hstock hr]
    simp

theorem hasText_mapped (hhas : ∀ r ∈ stock, cs.has r = true) (hlen : final.length ≤ stock.length)
    (h : Covers cs stock final text) (hc : c ∈ text) :
    cs.hasText [mapped cs stock final c] = true := by
  unfold mapped
  by_cases htext : cs.hasText [c] = true
  · rwa [if_pos htext]
  · obtain ⟨r, hr⟩ := standIn_of_mem (h.needed c hc (by simpa using htext)) hlen
    rw [if_neg htext, hr, Option.getD_some]
    simp [Charset.hasText, hhas r (of_mem_zip (mem_zip_of_standIn hr)).2]

theorem restore_mappedText (hstock : stock.Nodup) (hlen : final.length ≤ stock.length)
    (h : Covers cs stock final s.toList) :
    restore (after cs stock final).table (mappedText cs stock final s) = s := by
  rw [← toList_inj, restore, mappedText, toList_ofList, toList_ofList,
    flatMap_map]
  calc
    _ = s.toList.flatMap fun c => [c] :=
      flatMap_congr fun c hc => restoreChar_mapped hstock hlen h hc
    _ = s.toList := flatMap_singleton' s.toList

theorem speech_reword (f : String → String) (key : String) (entry : Json) :
    speech key (reword f key entry) = (speech key entry).map f := by
  cases entry with
  | obj fields =>
    unfold reword
    cases h : speech key (.obj fields) with
    | none => simpa using h
    | some s => simp [speech, lookup_setField]
  | _ => rfl

theorem field_reword (f : String → String) {k : String} (hk : k ≠ key) (entry : Json) :
    (reword f key entry).field k = entry.field k := by
  cases entry with
  | obj fields =>
    unfold reword
    cases speech key (.obj fields) with
    | none => rfl
    | some s => simp only [field, lookup_setField, if_neg hk]
  | _ => rfl

theorem speech_eq (key : String) (entry : Json) :
    speech key entry = match entry.field key with
      | .ok (.str s) => some s
      | _ => none := by
  cases entry with
  | obj fields =>
    simp only [speech, field]
    cases fields.lookup key with
    | none => rfl
    | some v => cases v <;> rfl
  | _ => rfl

structure Mapped (cs : Charset) (table : List (String × Json)) (entry entry' : Json) : Prop where
  restored : ∀ key ∈ ["name", "message"], (speech key entry').map (restore table) = speech key entry
  encodable : ∀ key ∈ ["name", "message"], ∀ s, speech key entry' = some s →
    ∀ c ∈ s.toList, cs.hasText [c] = true
  others : ∀ key ∉ ["name", "message"], entry'.field key = entry.field key

theorem speech_mappedEntry (entry : Json) :
    ∀ key ∈ ["name", "message"], speech key (mappedEntry cs stock final entry) =
      (speech key entry).map (mappedText cs stock final) := by
  intro key hkey
  simp only [mem_cons, not_mem_nil, or_false] at hkey
  rcases hkey with rfl | rfl
  · rw [mappedEntry, speech_eq, field_reword _ (by decide), ← speech_eq, speech_reword]
  · rw [mappedEntry, speech_reword, speech_eq, field_reword _ (by decide), ← speech_eq]

theorem speech_subset (entry : Json) :
    ∀ key ∈ ["name", "message"], ∀ s, speech key entry = some s → s.toList ⊆ spokenChars entry := by
  intro key hkey s hs c hc
  simp only [mem_cons, not_mem_nil, or_false] at hkey
  rcases hkey with rfl | rfl <;> simp [spokenChars, hs, hc]

theorem mapped_mappedEntry (hstock : stock.Nodup) (hhas : ∀ r ∈ stock, cs.has r = true)
    (hlen : final.length ≤ stock.length) (h : Covers cs stock final (spokenChars entry)) :
    Mapped cs (after cs stock final).table entry (mappedEntry cs stock final entry) := by
  have hcovers : ∀ key ∈ ["name", "message"], ∀ s, speech key entry = some s →
      Covers cs stock final s.toList := fun key hkey s hs =>
    ⟨fun c hc => h.needed c (speech_subset entry key hkey s hs hc),
      fun c hc => h.apart c (speech_subset entry key hkey s hs hc)⟩
  refine ⟨fun key hkey => ?_, fun key hkey s hs c hc => ?_, fun key hkey => ?_⟩
  · rw [speech_mappedEntry entry key hkey]
    cases hs : speech key entry with
    | none => rfl
    | some s => simp [restore_mappedText hstock hlen (hcovers key hkey s hs)]
  · rw [speech_mappedEntry entry key hkey, Option.map_eq_some_iff] at hs
    obtain ⟨t, ht, rfl⟩ := hs
    rw [mappedText, toList_ofList, mem_map] at hc
    obtain ⟨d, hd, rfl⟩ := hc
    exact hasText_mapped hhas hlen (hcovers key hkey t ht) hd
  · simp only [mem_cons, not_mem_nil, or_false, not_or] at hkey
    rw [mappedEntry, field_reword _ hkey.2, field_reword _ hkey.1]

end SceneText.Pool
