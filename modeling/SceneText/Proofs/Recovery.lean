import SceneText.Proofs.Substitution

/-!
# When a table of stand-ins undoes a mapping

A pool may have been made for other texts than those that are mapped with it. The table then gives
the texts back exactly if none of their characters was handed out as a stand-in. Stand-ins are
handed out by falling code point, and the charted ideographs end at U+9FA0: this is the first
stand-in of every pool of code page 932 that was made for texts without it.
-/

namespace SceneText.Pool

open List CodePage Charset

variable {cs : Charset} {stock done final : List Char} {c r : Char} {used : List Char}

theorem exists_standIn (hdone : done.Nodup) (hlen : done.length ≤ stock.length)
    (h : r ∈ stock.take done.length) : ∃ d ∈ done, standIn stock done d = some r := by
  rw [← map_snd_zip_take] at h
  obtain ⟨p, hp, rfl⟩ := mem_map.mp h
  exact ⟨p.1, (of_mem_zip hp).1, lookup_of_mem (by rwa [map_fst_zip hlen]) hp⟩

theorem restoreChar_iff (hstock : stock.Nodup) (hhas : ∀ r ∈ stock, cs.has r = true)
    (hlen : final.length ≤ stock.length) (hfinal : final.Nodup)
    (hlacks : ∀ d ∈ final, cs.hasText [d] = false) (hneeded : cs.hasText [c] = false → c ∈ final) :
    ∃ d, restoreChar (after cs stock final).table (mapped cs stock final c) = [d] ∧
      (d = c ↔ c ∉ stock.take final.length) := by
  unfold mapped
  by_cases htext : cs.hasText [c] = true
  · rw [if_pos htext]
    by_cases hgiven : c ∈ stock.take final.length
    · obtain ⟨d, hd, hstand⟩ := exists_standIn hfinal hlen hgiven
      refine ⟨d, by simp [restoreChar, table_standIn hstock hstand], ?_⟩
      refine iff_of_false ?_ (not_not.mpr hgiven)
      rintro rfl
      rw [hlacks d hd] at htext
      cases htext
    · exact ⟨c, by simp [restoreChar, table_other hgiven], by simp [hgiven]⟩
  · obtain ⟨r, hr⟩ := standIn_of_mem (hneeded (by simpa using htext)) hlen
    refine ⟨c, by simp [htext, hr, restoreChar, table_standIn hstock hr], ?_⟩
    refine iff_of_true rfl fun hgiven => htext ?_
    simp [hasText, hhas c (mem_of_mem_take hgiven)]

theorem flatMap_eq_self {α : Type} {f : α → List α} {xs : List α}
    (h : ∀ x ∈ xs, ∃ y, f x = [y]) : xs.flatMap f = xs ↔ ∀ x ∈ xs, f x = [x] := by
  induction xs with
  | nil => simp
  | cons x xs ih =>
    obtain ⟨y, hy⟩ := h x (by simp)
    rw [flatMap_cons, hy, singleton_append, List.cons.injEq,
      ih fun z hz => h z (by simp [hz]), forall_mem_cons, hy, List.cons.injEq]
    simp

theorem restore_mappedText_iff (hstock : stock.Nodup) (hhas : ∀ r ∈ stock, cs.has r = true)
    (hlen : final.length ≤ stock.length) (hfinal : final.Nodup)
    (hlacks : ∀ d ∈ final, cs.hasText [d] = false) {s : String}
    (hneeded : ∀ c ∈ s.toList, cs.hasText [c] = false → c ∈ final) :
    restore (after cs stock final).table (mappedText cs stock final s) = s ↔
      ∀ c ∈ s.toList, c ∉ stock.take final.length := by
  have hchar := fun c hc => restoreChar_iff hstock hhas hlen hfinal hlacks (hneeded c hc)
  rw [← String.toList_inj, restore, mappedText, String.toList_ofList, String.toList_ofList,
    flatMap_map, flatMap_eq_self fun c hc => ⟨_, (hchar c hc).choose_spec.1⟩]
  refine forall₂_congr fun c hc => ?_
  obtain ⟨d, hd, hiff⟩ := hchar c hc
  rw [hd, List.cons.injEq, ← hiff]
  simp

/-- The names and messages of entries are what a table gives back from other entries. -/
def Restored (table : List (String × Json)) (entries entries' : List Json) : Prop :=
  List.Forall₂ (fun entry entry' => ∀ key ∈ ["name", "message"],
    (speech key entry').map (restore table) = speech key entry) entries entries'

theorem mem_spokenChars {entry : Json} :
    c ∈ spokenChars entry ↔
      ∃ key ∈ ["name", "message"], ∃ s, speech key entry = some s ∧ c ∈ s.toList := by
  rw [spokenChars, mem_append]
  constructor
  · rintro (h | h)
    · cases hs : speech "name" entry with
      | none => simp [hs] at h
      | some s => exact ⟨"name", by simp, s, hs, by simpa [hs] using h⟩
    · cases hs : speech "message" entry with
      | none => simp [hs] at h
      | some s => exact ⟨"message", by simp, s, hs, by simpa [hs] using h⟩
  · rintro ⟨key, hkey, s, hs, hc⟩
    rw [← mem_append]
    exact speech_subset entry key hkey s hs hc

theorem restored_iff (hstock : stock.Nodup) (hhas : ∀ r ∈ stock, cs.has r = true)
    {entries : List Json} (hfinal : final = noteAll cs [] (entries.flatMap spokenChars))
    (hlen : final.length ≤ stock.length) :
    Restored (after cs stock final).table entries (entries.map (mappedEntry cs stock final)) ↔
      ∀ c ∈ entries.flatMap spokenChars, c ∉ stock.take final.length := by
  have hnodup : final.Nodup := hfinal ▸ nodup_noteAll nodup_nil
  have hlacks : ∀ d ∈ final, cs.hasText [d] = false := by
    intro d hd
    rw [hfinal, mem_noteAll] at hd
    exact (hd.resolve_left (by simp)).2
  rw [Restored, forall₂_map_right_iff, forall₂_same]
  have hentry : ∀ entry ∈ entries, (∀ key ∈ ["name", "message"],
      (speech key (mappedEntry cs stock final entry)).map (restore (after cs stock final).table) =
        speech key entry) ↔ ∀ c ∈ spokenChars entry, c ∉ stock.take final.length := by
    intro entry hentry
    have hkey : ∀ key ∈ ["name", "message"], ((speech key (mappedEntry cs stock final entry)).map
            (restore (after cs stock final).table) = speech key entry ↔
          ∀ s, speech key entry = some s → ∀ c ∈ s.toList, c ∉ stock.take final.length) := by
      intro key hkey
      rw [speech_mappedEntry entry key hkey]
      cases hs : speech key entry with
      | none => simp
      | some s =>
        have hneeded : ∀ c ∈ s.toList, cs.hasText [c] = false → c ∈ final := by
          intro c hc htext
          rw [hfinal, mem_noteAll]
          exact .inr ⟨mem_flatMap.mpr ⟨entry, hentry, speech_subset entry key hkey s hs hc⟩, htext⟩
        simpa using restore_mappedText_iff hstock hhas hlen hnodup hlacks hneeded
    rw [forall₂_congr hkey]
    constructor
    · intro h c hc
      obtain ⟨key, hkey, s, hs, hc⟩ := mem_spokenChars.mp hc
      exact h key hkey s hs c hc
    · intro h key hkey s hs c hc
      exact h c (speech_subset entry key hkey s hs hc)
  rw [forall₂_congr hentry]
  simp only [mem_flatMap]
  constructor
  · rintro h c ⟨entry, hentry, hc⟩
    exact h entry hentry c hc
  · intro h entry hentry c hc
    exact h c ⟨entry, hentry, hc⟩

theorem unused_falling (cs : Charset) (used : List Char) :
    (unused cs used).Pairwise fun a b => b.toNat ≤ a.toNat := by
  refine List.Pairwise.filter _ (List.Pairwise.filter _ ?_)
  rw [pairwise_map]
  have hsorted := @pairwise_mergeSort _ (fun a b : Nat => decide (b ≤ a))
    (fun a b c => by simpa using fun h₁ h₂ => Nat.le_trans h₂ h₁)
    (fun a b => by simpa using Nat.le_total b a)
    (cs.standInRanges.flatMap fun p => List.range' p.1 (p.2 + 1 - p.1))
  refine hsorted.imp_of_mem fun {a b} ha hb hle => ?_
  rw [toNat_ofNat (.inl (codePoint_lt (mem_codePoints.mp ha))),
    toNat_ofNat (.inl (codePoint_lt (mem_codePoints.mp hb)))]
  simpa using hle

theorem lacks_beyond (hlow : 0x9fa0 < c.toNat) (hhigh : c.toNat ≤ 0x9fff) :
    cp932.has c = false := by
  have hsingle : single932? c = none := by
    rw [single932?, if_neg (by omega), if_neg (by omega), if_neg (by omega),
      if_neg (by omega)]
  have hcodes : codes932[c.toNat]? = none := by
    cases hcode : codes932[c.toNat]? with
    | none => rfl
    | some code =>
      obtain ⟨place, hcharted, -⟩ := codes932_sound hcode
      have hpoint := hcharted.point.1
      omega
  have halias : alias932.lookup c = none := by
    cases hcode : alias932.lookup c with
    | none => rfl
    | some code =>
      have hpoints : ∀ sign ∈ wideSigns, sign.1.toNat < 0x9fa0 := by decide
      have hpoint := hpoints _ (alias_wide hcode)
      dsimp only at hpoint
      omega
  rw [has, bytesFor, page, cp932_encodeChar, hsingle,
    double932?, hcodes, halias, private932?, if_neg (by omega)]
  rfl

theorem hasText_beyond : cp932.hasText ['龡'] = false := by
  rw [hasText, all_cons, lacks_beyond (by decide) (by decide)]
  rfl

theorem has_of_charted {lead : UInt8} {place : Nat} (h : Charted lead place c)
    (hc : c ≠ ' ') : cp932.has c = true := by
  obtain ⟨code, hcode⟩ := codes932_charted h hc
  rw [has, bytesFor, page, cp932_encodeChar,
    double932?, hcode, Option.some_or, Option.map_some, Option.or_some]
  rfl

theorem has_flute : cp932.has '龠' = true := by
  obtain ⟨pieces, piece, hrow, hpiece, hmem⟩ : ∃ pieces piece,
      (0xea, pieces) ∈ chartRows ∧ piece ∈ pieces ∧ '龠' ∈ piece.toList :=
    ⟨_, _, mem_append_left _ (mem_append_right _
      (.tail _ (.tail _ (.tail _ (.tail _ (.head _)))))), .tail _ (.head _), by simp⟩
  obtain ⟨place, hcharted⟩ := charted_of_mem hrow hpiece hmem
  exact has_of_charted hcharted (by decide)

theorem unused_head (h : '龠' ∉ used) : (unused .cp932 used).head? = some '龠' := by
  have hmem : '龠' ∈ unused .cp932 used := mem_unused.mpr ⟨mem_candidates (by decide) has_flute, h⟩
  have hbound : ∀ c ∈ unused .cp932 used, c.toNat ≤ 0x9fa0 := by
    intro c hc
    obtain ⟨hhas, p, hp, -, hhigh⟩ := candidate_range (mem_unused.mp hc).1
    have hranges : ∀ p ∈ cp932.standInRanges, p.2 ≤ 0x9fff := by decide
    have htop := hranges p hp
    by_contra hbeyond
    rw [lacks_beyond (by omega) (by omega)] at hhas
    cases hhas
  have hfalling := unused_falling .cp932 used
  cases hpool : unused .cp932 used with
  | nil => simp [hpool] at hmem
  | cons first rest =>
    rw [hpool] at hmem hbound hfalling
    have hfirst := hbound first (by simp)
    rw [pairwise_cons] at hfalling
    rw [head?_cons, Option.some.injEq, ← Char.toNat_inj]
    rcases mem_cons.mp hmem with heq | hrest
    · rw [heq]
    · have hge := hfalling.1 _ hrest
      have hflute : '龠'.toNat = 0x9fa0 := rfl
      omega

theorem pool_nonempty (h : '龠' ∉ used) : 1 ≤ (unused .cp932 used).length := by
  have hhead := unused_head h
  cases hpool : unused .cp932 used with
  | nil => simp [hpool] at hhead
  | cons r stock => simp

end SceneText.Pool
