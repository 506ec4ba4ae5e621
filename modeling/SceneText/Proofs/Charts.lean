import SceneText.Dialogue.Extraction

/-!
# The chart of code page 932

A charted character is written with the code of one of its places, and every code of the chart is
read as the character at its place. The six characters that are written with the code of a
look-alike are read back as that; all others that a dialogue text can have are read back as they
are. No code of such a text has a zero byte.
-/

namespace SceneText.CodePage

open List
open String (ofList toList_join)
open Dialogue (isForeign)
open Option (map_none map_some none_or some_or)

variable {lead : UInt8} {pieces : List String} {c : Char} {row : UInt8 × List String}
  {n place : Nat} {code : UInt8 × UInt8} {rows : List (UInt8 × List String)} {bytes : List UInt8}
  {text : List Char}

def Charted (lead : UInt8) (place : Nat) (c : Char) : Prop :=
  ∃ pieces, (lead, pieces) ∈ chartRows ∧ (String.join pieces).toList[place]? = some c

theorem charted_of_mem {piece : String} (hrow : (lead, pieces) ∈ chartRows)
    (hpiece : piece ∈ pieces) (hc : c ∈ piece.toList) : ∃ place, Charted lead place c := by
  have hmem : c ∈ (String.join pieces).toList := by
    rw [toList_join]
    exact mem_flatMap.mpr ⟨piece, hpiece, hc⟩
  obtain ⟨place, hplace⟩ := getElem?_of_mem hmem
  exact ⟨place, pieces, hrow, hplace⟩

def aliasPoints : List Nat := [0xa2, 0xa3, 0xac, 0x2016, 0x2212, 0x301c]

def pieceFits (piece : List Char) : Bool :=
  piece.length ≤ 47 && piece.all fun c =>
    (c.toNat.ble 0x9fa0 || Nat.blt 0x9fff c.toNat) && !aliasPoints.any c.toNat.beq

theorem pieceFits_ofList {piece : List Char} (h : pieceFits piece = true) :
    pieceFits (ofList piece).toList = true := by
  rwa [String.toList_ofList]

set_option maxRecDepth 20000 in
theorem chart_fits :
    chartRows.all (fun row => row.2.length ≤ 4 && row.2.all fun piece => pieceFits piece.toList) =
      true := by
  simp only [chartRows, symbolRows, firstKanjiRows, secondKanjiRows, thirdKanjiRows,
    fourthKanjiRows, fifthKanjiRows, extensionRows, all_append, all_cons, all_nil,
    Bool.and_true, Bool.and_eq_true]
  repeat' apply And.intro
  -- A literal is unified with a list of characters; its bytes are never decoded.
  all_goals first
    | apply pieceFits_ofList
      decide +kernel
    | decide

theorem lead_range (h : row ∈ chartRows) :
    0x81 ≤ row.1.toNat ∧ row.1.toNat ≤ 0xfc ∧ cp932.single row.1 = none ∧
      (row.1.toNat < 0xf0 ∨ 0xf9 < row.1.toNat) := by
  have hall : (chartRows.map Prod.fst).all (fun lead =>
      0x81 ≤ lead.toNat && lead.toNat ≤ 0xfc && (cp932.single lead).isNone &&
        (lead.toNat < 0xf0 || 0xf9 < lead.toNat)) = true := by
    decide +kernel
  have hlead := all_eq_true.mp hall row.1 (mem_map_of_mem h)
  simpa [and_assoc] using hlead

theorem length_pieces (pieces : List String) (h : ∀ piece ∈ pieces, piece.toList.length ≤ 47) :
    (String.join pieces).toList.length ≤ 47 * pieces.length := by
  rw [toList_join]
  induction pieces with
  | nil => simp
  | cons piece pieces ih =>
    have hpiece := h piece (by simp)
    have hrest := ih fun p hp => h p (by simp [hp])
    rw [flatMap_cons, length_append, length_cons]
    omega

namespace Charted

variable {lead : UInt8} {place : Nat} {c : Char}

theorem place_lt (h : Charted lead place c) : place < 188 := by
  obtain ⟨pieces, hrow, hplace⟩ := h
  have hfits := List.all_eq_true.mp chart_fits _ hrow
  rw [Bool.and_eq_true, decide_eq_true_eq, all_eq_true] at hfits
  obtain ⟨hcount, hpieces⟩ := hfits
  have hlen := length_pieces pieces fun piece hpiece => by
    have hfit := hpieces piece hpiece
    rw [pieceFits, Bool.and_eq_true, decide_eq_true_eq] at hfit
    exact hfit.1
  have hlt := (List.getElem?_eq_some_iff.mp hplace).1
  dsimp only at hcount
  omega

theorem point (h : Charted lead place c) :
    (c.toNat ≤ 0x9fa0 ∨ 0x9fff < c.toNat) ∧ c.toNat ∉ aliasPoints := by
  obtain ⟨pieces, hrow, hplace⟩ := h
  have hfits := all_eq_true.mp chart_fits _ hrow
  rw [Bool.and_eq_true, all_eq_true] at hfits
  rw [toList_join] at hplace
  obtain ⟨piece, hpiece, hc⟩ := mem_flatMap.mp (mem_of_getElem? hplace)
  have hfit := hfits.2 piece hpiece
  rw [pieceFits, Bool.and_eq_true, all_eq_true] at hfit
  have hchar := hfit.2 c hc
  rw [Bool.and_eq_true, Bool.or_eq_true, Nat.ble_eq, Nat.blt_eq, Bool.not_eq_true',
    any_eq_false] at hchar
  refine ⟨hchar.1, fun hmem => ?_⟩
  exact hchar.2 c.toNat hmem (Nat.beq_refl _)

end Charted

section Codes

theorem insertNew_lookup (codes : List (Char × UInt8 × UInt8))
    (m : Std.HashMap Nat (UInt8 × UInt8)) :
    (codes.foldl (fun m e => m.insertIfNew e.1.toNat e.2) m)[c.toNat]? =
      m[c.toNat]?.or (codes.lookup c) := by
  induction codes generalizing m with
  | nil => simp
  | cons e codes ih =>
    rw [foldl_cons, ih, Std.HashMap.getElem?_insertIfNew, lookup_cons]
    by_cases hc : c = e.1
    · subst hc
      by_cases hmem : e.1.toNat ∈ m <;> simp [hmem]
    · have hpoint : e.1.toNat ≠ c.toNat := fun heq => hc (Char.toNat_inj.mp heq).symm
      simp [hpoint, beq_false_of_ne hc]

theorem codes932_lookup (c : Char) :
    codes932[c.toNat]? = (chartRows.flatMap (rowCodes 0)).lookup c := by
  refine (insertNew_lookup _ ∅).trans ?_
  rw [Std.HashMap.getElem?_empty, none_or]

theorem mem_codes : (c, code) ∈ chartRows.flatMap (rowCodes 0) ↔
    ∃ place, Charted code.1 place c ∧ c ≠ ' ' ∧ code.2 = trailAt place := by
  simp only [rowCodes, mem_flatMap, mem_filterMap, Option.ite_none_left_eq_some, Option.some.injEq,
    Nat.zero_add]
  constructor
  · rintro ⟨row, hrow, p, hp, hblank, hcode⟩
    cases hcode
    exact ⟨p.2, ⟨row.2, hrow, mem_zipIdx_iff_getElem?.mp hp⟩, hblank, rfl⟩
  · rintro ⟨place, ⟨pieces, hrow, hplace⟩, hblank, htrail⟩
    exact ⟨_, hrow, (c, place), mem_zipIdx_iff_getElem?.mpr hplace, hblank, by rw [← htrail]⟩

theorem codes932_sound (h : codes932[c.toNat]? = some code) :
    ∃ place, Charted code.1 place c ∧ c ≠ ' ' ∧ code.2 = trailAt place := by
  rw [codes932_lookup] at h
  obtain ⟨before, after, hcodes, -⟩ := lookup_eq_some_iff.mp h
  exact mem_codes.mp (by simp [hcodes])

theorem codes932_charted (h : Charted lead place c) (hc : c ≠ ' ') :
    ∃ code, codes932[c.toNat]? = some code := by
  rw [codes932_lookup, ← Option.isSome_iff_exists, lookup_isSome_iff]
  have hmem : (c, lead, trailAt place) ∈ chartRows.flatMap (rowCodes 0) :=
    mem_codes.mpr ⟨place, h, hc, rfl⟩
  exact ⟨_, hmem, beq_self_eq_true _⟩

theorem codes932_first (hc : c ≠ ' ') (hchart : chartRows = (lead, pieces) :: rows)
    {front back : List Char} (hrow : (String.join pieces).toList = front ++ c :: back)
    (hfront : c ∉ front) : codes932[c.toNat]? = some (lead, trailAt front.length) := by
  rw [codes932_lookup, hchart, flatMap_cons, lookup_append, rowCodes, hrow, zipIdx_append,
    zipIdx_cons, filterMap_append, lookup_append, lookup_eq_none_iff.mpr]
  · simp [hc]
  · intro entry hentry
    obtain ⟨p, hp, hcode⟩ := mem_filterMap.mp hentry
    rw [Option.ite_none_left_eq_some, Option.some.injEq] at hcode
    rw [← hcode.2, bne_iff_ne]
    exact fun heq => hfront (heq ▸ fst_mem_of_mem_zipIdx hp)

end Codes

theorem trailPlace?_trailAt (h : place < 188) : trailPlace? (trailAt place) = some place := by
  have hnat : (trailAt place).toNat = if place < 63 then 0x40 + place else 0x41 + place := by
    rw [trailAt, UInt8.toNat_ofNat']
    split <;> omega
  by_cases hlow : place < 63
  · rw [if_pos hlow] at hnat
    rw [trailPlace?, hnat, if_pos (by omega)]
    simp
  · rw [if_neg hlow] at hnat
    rw [trailPlace?, hnat, if_neg (by omega), if_pos (by omega)]
    simp

theorem trailAt_ne_zero (h : place < 188) : trailAt place ≠ 0 := by
  intro hzero
  have hplace := trailPlace?_trailAt h
  rw [hzero] at hplace
  revert hplace
  simp [trailPlace?]

theorem insertRows_other {m : Std.HashMap UInt8 (Array Char)} (h : lead ∉ rows.map Prod.fst) :
    (rows.foldl (fun m row => m.insert row.1 (String.join row.2).toList.toArray) m)[lead]? =
      m[lead]? := by
  induction rows generalizing m with
  | nil => rfl
  | cons row rows ih =>
    rw [map_cons, mem_cons, not_or] at h
    rw [foldl_cons, ih h.2, Std.HashMap.getElem?_insert]
    simp [Ne.symm h.1]

theorem insertRows_row {m : Std.HashMap UInt8 (Array Char)} (hnodup : (rows.map Prod.fst).Nodup)
    (h : row ∈ rows) :
    (rows.foldl (fun m row => m.insert row.1 (String.join row.2).toList.toArray) m)[row.1]? =
      some (String.join row.2).toList.toArray := by
  induction rows generalizing m with
  | nil => cases h
  | cons row' rows ih =>
    rw [map_cons, nodup_cons] at hnodup
    rw [foldl_cons]
    rcases mem_cons.mp h with rfl | h
    · rw [insertRows_other hnodup.1]
      simp
    · exact ih hnodup.2 h

theorem Charted.pair (h : Charted lead place c) (hc : c ≠ ' ') :
    cp932.pair lead (trailAt place) = some c := by
  have hlt := h.place_lt
  obtain ⟨pieces, hrow, hplace⟩ := h
  have hlead : ¬(0xf0 ≤ lead.toNat ∧ lead.toNat ≤ 0xf9) := by
    have hrange := (lead_range hrow).2.2.2
    dsimp only at hrange
    omega
  have hchart : chart932[lead]? = _ := insertRows_row (by decide +kernel) hrow
  simp only [cp932, trailPlace?_trailAt hlt, if_neg hlead, hchart, getElem?_toArray, hplace]

theorem cp932_encodeChar (c : Char) : cp932.encodeChar c =
    ((single932? c).map fun b => [b]).or ((double932? c).map fun code => [code.1, code.2]) := by
  rw [cp932]
  dsimp only
  cases single932? c with
  | some b => rw [map_some, some_or]
  | none => rw [map_none, none_or]

theorem ofNat_ne_zero (hlow : 0 < n) (hhigh : n < 256) : UInt8.ofNat n ≠ 0 := by
  intro hzero
  have hnat := congrArg UInt8.toNat hzero
  rw [UInt8.toNat_ofNat', UInt8.toNat_zero] at hnat
  omega

theorem single932?_ne_zero {b : UInt8} (h : single932? c = some b) (hc : c ≠ '\x00') : b ≠ 0 := by
  have hpoint : 0 < c.toNat := Nat.pos_of_ne_zero fun hzero => hc (Char.toNat_inj.mp hzero)
  unfold single932? at h
  by_cases hascii : c.toNat ≤ 0x80
  · rw [if_pos hascii] at h
    exact Option.some.inj h ▸ ofNat_ne_zero hpoint (by omega)
  by_cases hkana : 0xff61 ≤ c.toNat ∧ c.toNat ≤ 0xff9f
  · rw [if_neg hascii, if_pos hkana] at h
    exact Option.some.inj h ▸ ofNat_ne_zero (by omega) (by omega)
  by_cases hblank : c.toNat = 0xf8f0
  · rw [if_neg hascii, if_neg hkana, if_pos hblank] at h
    exact Option.some.inj h ▸ by decide
  by_cases hlast : 0xf8f1 ≤ c.toNat ∧ c.toNat ≤ 0xf8f3
  · rw [if_neg hascii, if_neg hkana, if_neg hblank, if_pos hlast] at h
    exact Option.some.inj h ▸ ofNat_ne_zero (by omega) (by omega)
  · rw [if_neg hascii, if_neg hkana, if_neg hblank, if_neg hlast] at h
    cases h

theorem double932?_ne_zero (h : double932? c = some code) : code.1 ≠ 0 ∧ code.2 ≠ 0 := by
  rw [double932?] at h
  cases hcodes : codes932[c.toNat]? with
  | some charted =>
    rw [hcodes, some_or, Option.some.injEq] at h
    subst h
    obtain ⟨place, hcharted, -, htrail⟩ := codes932_sound hcodes
    have hplace := hcharted.place_lt
    obtain ⟨pieces, hrow, -⟩ := hcharted
    have hlead := (lead_range hrow).1
    constructor
    · intro hzero
      rw [hzero] at hlead
      exact absurd hlead (by decide)
    · rw [htrail]
      exact trailAt_ne_zero hplace
  | none =>
    rw [hcodes, none_or] at h
    cases halias : alias932.lookup c with
    | some aliased =>
      have hall : ∀ sign ∈ alias932, sign.2.1 ≠ 0 ∧ sign.2.2 ≠ 0 := by decide
      obtain ⟨before, after, hsigns, -⟩ := lookup_eq_some_iff.mp halias
      rw [halias, some_or, Option.some.injEq] at h
      exact h ▸ hall (c, aliased) (by simp [hsigns])
    | none =>
      rw [halias, none_or, private932?] at h
      by_cases hprivate : 0xe000 ≤ c.toNat ∧ c.toNat < 0xe000 + 1880
      · rw [if_pos hprivate, Option.some.injEq] at h
        subst h
        exact ⟨ofNat_ne_zero (by omega) (by omega), trailAt_ne_zero (by omega)⟩
      · rw [if_neg hprivate] at h
        cases h

theorem zero_not_mem_code (h : cp932.encodeChar c = some bytes) (hc : c ≠ '\x00') : 0 ∉ bytes := by
  rw [cp932_encodeChar] at h
  cases hsingle : single932? c with
  | some b =>
    rw [hsingle, map_some, some_or, Option.some.injEq] at h
    subst h
    simpa using (single932?_ne_zero hsingle hc).symm
  | none =>
    rw [hsingle, map_none, none_or, Option.map_eq_some_iff] at h
    obtain ⟨code, hdouble, rfl⟩ := h
    obtain ⟨hlead, htrail⟩ := double932?_ne_zero hdouble
    simpa using ⟨hlead.symm, htrail.symm⟩

def wideSigns : List (Char × Char) :=
  [('¢', '￠'), ('£', '￡'), ('¬', '￢'), ('‖', '∥'), ('−', '－'), ('〜', '～')]

def wide (c : Char) : Char :=
  (wideSigns.lookup c).getD c

theorem getElem?_join (l₁ l₂ l₃ l₄ : List Char)
    (h : pieces = [ofList l₁, ofList l₂, ofList l₃, ofList l₄])
    {places : List Nat} {chars : List (Option Char)}
    (hplaces : places.map ((l₁ ++ (l₂ ++ (l₃ ++ l₄)))[·]?) = chars) :
    places.map ((String.join pieces).toList[·]?) = chars := by
  simpa [h] using hplaces

set_option maxRecDepth 2000 in
theorem symbolRow : ∃ pieces rows, chartRows = (0x81, pieces) :: rows ∧
    [80, 81, 137, 33, 60, 32].map ((String.join pieces).toList[·]?) =
      wideSigns.map fun sign => some sign.2 := by
  refine ⟨_, _, rfl, getElem?_join _ _ _ _ rfl ?_⟩
  decide +kernel

theorem charted_wide {w : Char} (h : (c, w) ∈ wideSigns) :
    ∃ place, Charted 0x81 place w ∧ w ≠ ' ' ∧ alias932.lookup c = some (0x81, trailAt place) := by
  obtain ⟨pieces, rows, hchart, hplaces⟩ := symbolRow
  have hrow : (0x81, pieces) ∈ chartRows := by simp [hchart]
  simp only [wideSigns, map_cons, map_nil, List.cons.injEq, and_true] at hplaces
  obtain ⟨h₁, h₂, h₃, h₄, h₅, h₆⟩ := hplaces
  simp only [wideSigns, mem_cons, Prod.mk.injEq, not_mem_nil, or_false] at h
  rcases h with ⟨rfl, rfl⟩ | ⟨rfl, rfl⟩ | ⟨rfl, rfl⟩ | ⟨rfl, rfl⟩ | ⟨rfl, rfl⟩ | ⟨rfl, rfl⟩
  · exact ⟨_, ⟨pieces, hrow, h₁⟩, by decide, by decide⟩
  · exact ⟨_, ⟨pieces, hrow, h₂⟩, by decide, by decide⟩
  · exact ⟨_, ⟨pieces, hrow, h₃⟩, by decide, by decide⟩
  · exact ⟨_, ⟨pieces, hrow, h₄⟩, by decide, by decide⟩
  · exact ⟨_, ⟨pieces, hrow, h₅⟩, by decide, by decide⟩
  · exact ⟨_, ⟨pieces, hrow, h₆⟩, by decide, by decide⟩

theorem wide_of_not_alias (h : c.toNat ∉ aliasPoints) : wide c = c := by
  have hpoints : ∀ sign ∈ wideSigns, sign.1.toNat ∈ aliasPoints := by decide
  rw [wide]
  cases hw : wideSigns.lookup c with
  | none => rfl
  | some w =>
    obtain ⟨before, after, hsigns, -⟩ := lookup_eq_some_iff.mp hw
    exact absurd (hpoints (c, w) (by simp [hsigns])) h

theorem alias_wide (h : alias932.lookup c = some code) : (c, wide c) ∈ wideSigns := by
  have hkeys : ∀ sign ∈ alias932, (sign.1, wide sign.1) ∈ wideSigns := by decide
  obtain ⟨before, after, hsigns, -⟩ := lookup_eq_some_iff.mp h
  exact hkeys (c, code) (by simp [hsigns])

theorem encodeChar_spoken (hc : isForeign c = false)
    (h : cp932.encodeChar c = some bytes) :
    (0x20 ≤ c.toNat ∧ c.toNat < 0x7f ∧ wide c = c ∧ bytes = [UInt8.ofNat c.toNat]) ∨
      0x80 < c.toNat ∧ ∃ lead place, Charted lead place (wide c) ∧ wide c ≠ ' ' ∧
          bytes = [lead, trailAt place] := by
  simp only [isForeign, Bool.or_eq_false_iff, Bool.and_eq_false_iff,
    decide_eq_false_iff_not] at hc
  rw [cp932_encodeChar, double932?] at h
  by_cases hascii : c.toNat ≤ 0x80
  · left
    have hwide : wide c = c := by
      apply wide_of_not_alias
      simp only [aliasPoints, mem_cons, not_mem_nil, or_false]
      omega
    rw [single932?, if_pos hascii, map_some, some_or, Option.some.injEq] at h
    exact ⟨by omega, by omega, hwide, h.symm⟩
  · refine .inr ⟨by omega, ?_⟩
    rw [single932?, if_neg hascii, if_neg (by omega), if_neg (by omega), if_neg (by omega),
      map_none, none_or, Option.map_eq_some_iff] at h
    obtain ⟨⟨lead, trail⟩, hcode, rfl⟩ := h
    cases hcodes : codes932[c.toNat]? with
    | some code =>
      rw [hcodes, some_or, Option.some.injEq] at hcode
      subst hcode
      obtain ⟨place, hcharted, hblank, htrail⟩ := codes932_sound hcodes
      rw [wide_of_not_alias hcharted.point.2]
      exact ⟨lead, place, hcharted, hblank, by rw [← htrail]⟩
    | none =>
      rw [hcodes, none_or, private932?, if_neg (by omega), Option.or_none] at hcode
      obtain ⟨place, hcharted, hblank, hlookup⟩ := charted_wide (alias_wide hcode)
      rw [hcode, Option.some.injEq, Prod.mk.injEq] at hlookup
      exact ⟨0x81, place, hcharted, hblank, by rw [hlookup.1, hlookup.2]⟩

theorem decodeFrom_spoken {rest : List UInt8} {more : List Char} (pos : Nat)
    (hc : isForeign c = false) (h : cp932.encodeChar c = some bytes)
    (hrest : ∀ pos, cp932.decodeFrom pos rest = .ok more) :
    cp932.decodeFrom pos (bytes ++ rest) = .ok (wide c :: more) := by
  rcases encodeChar_spoken hc h with
    ⟨hlow, hhigh, hwide, rfl⟩ | ⟨-, lead, place, hcharted, hblank, rfl⟩
  · have hnat := UInt8.toNat_ofNat_of_lt' (Nat.lt_trans hhigh (by decide))
    have hsingle : cp932.single (UInt8.ofNat c.toNat) = some c := by
      simp only [cp932, hnat, if_pos (show c.toNat ≤ 0x80 by omega), Char.ofNat_toNat]
    rw [singleton_append, hwide, decodeFrom.eq_def]
    simp only [hsingle, hrest]
  · have hpair := hcharted.pair hblank
    obtain ⟨pieces, hrow, -⟩ := hcharted
    have hsingle := (lead_range hrow).2.2.1
    rw [cons_append, singleton_append, decodeFrom, hsingle]
    simp only [hpair, hrest]

theorem encodeFrom_cons {page : CodePage} {pos : Nat}
    (h : page.encodeFrom pos (c :: text) = .ok bytes) :
    ∃ front back, page.encodeChar c = some front ∧ page.encodeFrom (pos + 1) text = .ok back ∧
      bytes = front ++ back := by
  rw [encodeFrom] at h
  cases hc : page.encodeChar c with
  | none => simp [hc] at h
  | some front =>
    cases hrest : page.encodeFrom (pos + 1) text with
    | error defect => simp [hc, hrest] at h
    | ok back =>
      simp only [hc, hrest, Except.ok.injEq] at h
      exact ⟨front, back, rfl, rfl, h.symm⟩

theorem zero_not_mem_encodeFrom {pos : Nat} (hnull : '\x00' ∉ text)
    (h : cp932.encodeFrom pos text = .ok bytes) : 0 ∉ bytes := by
  induction text generalizing bytes pos with
  | nil =>
    cases h
    simp
  | cons c text ih =>
    obtain ⟨front, rest, hc, hrest, rfl⟩ := encodeFrom_cons h
    rw [mem_cons, not_or] at hnull
    rw [mem_append, not_or]
    exact ⟨zero_not_mem_code hc (Ne.symm hnull.1), ih hnull.2 hrest⟩

theorem zero_not_mem_encode (hnull : '\x00' ∉ text) (h : cp932.encode text = .ok bytes) :
    0 ∉ bytes :=
  zero_not_mem_encodeFrom hnull h

theorem decode_encode (hspoken : ∀ c ∈ text, isForeign c = false)
    (h : cp932.encode text = .ok bytes) : cp932.decode bytes = .ok (text.map wide) ∧ 0 ∉ bytes := by
  have hnull : '\x00' ∉ text := fun hmem => absurd (hspoken _ hmem) (by decide)
  refine ⟨?_, zero_not_mem_encode hnull h⟩
  suffices hall : ∀ pos, cp932.encodeFrom pos text = .ok bytes →
      ∀ pos, cp932.decodeFrom pos bytes = .ok (text.map wide) by
    exact hall 0 h 0
  clear h hnull
  induction text generalizing bytes with
  | nil =>
    intro pos h
    cases h
    exact fun _ => rfl
  | cons c text ih =>
    intro pos h
    obtain ⟨front, rest, hc, hrest, rfl⟩ := encodeFrom_cons h
    have hdecode := ih (fun x hx => hspoken x (by simp [hx])) _ hrest
    exact fun pos' => decodeFrom_spoken pos' (hspoken c (by simp)) hc hdecode

theorem encodeFrom_head {pos : Nat} (hc : isForeign c = false)
    (h : cp932.encodeFrom pos (c :: text) = .ok bytes) :
    ∃ b more, bytes = b :: more ∧ ((0x20 ≤ b.toNat ∧ b.toNat < 0x7f ∧ c.toNat = b.toNat ∧
          cp932.encodeFrom (pos + 1) text = .ok more) ∨
        0x81 ≤ b.toNat ∧ b.toNat ≤ 0xfc ∧ 0x80 < c.toNat ∧ more ≠ []) := by
  obtain ⟨front, rest, hchar, hrest, rfl⟩ := encodeFrom_cons h
  rcases encodeChar_spoken hc hchar with
    ⟨hlow, hhigh, -, rfl⟩ | ⟨hwide, lead, place, ⟨pieces, hrow, -⟩, -, rfl⟩
  · have hnat := UInt8.toNat_ofNat_of_lt' (Nat.lt_trans hhigh (by decide))
    exact ⟨_, rest, rfl, .inl ⟨by omega, by omega, hnat.symm, hrest⟩⟩
  · obtain ⟨hlow, hhigh, -⟩ := lead_range hrow
    exact ⟨lead, _, rfl, .inr ⟨hlow, hhigh, hwide, by simp⟩⟩

theorem wide_eq_self_iff : wide c = c ↔ c ∉ wideSigns.map Prod.fst := by
  constructor
  · intro h hmem
    have hall : ∀ sign ∈ wideSigns, wide sign.1 ≠ sign.1 := by decide +kernel
    obtain ⟨sign, hsign, rfl⟩ := mem_map.mp hmem
    exact hall sign hsign h
  · intro h
    rw [wide]
    cases hw : wideSigns.lookup c with
    | none => rfl
    | some w =>
      obtain ⟨before, after, hsigns, -⟩ := lookup_eq_some_iff.mp hw
      exact absurd (by simp [hsigns]) h

end SceneText.CodePage
