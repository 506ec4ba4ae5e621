import Mathlib.Data.Int.Order.Basic
import Mathlib.Data.List.Lex
import Mathlib.Order.Compare
import SceneText.Proofs.Merging
import SceneText.Proofs.Walks

/-!
# The order of files

The keys by which files are ordered have a text and a number by turns, so that two of them can
always be compared, and the order is the lexicographic order of lists of numbers. A listing is
sorted by it, and where no two keys are equal it does not depend on the order in which the files
were found. A path with a piece of digits that have no place value has no key, and a listing fails
on it.
-/

namespace SceneText.NaturalOrder

open List Text

variable {run : List Char} {a b : List Piece}

def Turns : Bool → List Piece → Prop
  | _, [] => True
  | false, .text _ :: rest => Turns true rest
  | true, .number _ :: rest => Turns false rest
  | _, _ => False

/-- Every longest piece without decimal digits, if it is not empty, has a character that is no
digit. -/
def Regular (text : List Char) : Prop :=
  ∀ front piece back, text = front ++ piece ++ back → piece ≠ [] →
    (∀ c ∈ piece, isDecimal c = false) → front.getLast?.all isDecimal = true →
    back.head?.all isDecimal = true → ∃ c ∈ piece, isDigit c = false

theorem pieceKey_text {piece : List Char} (h : piece ≠ [] → ∃ c ∈ piece, isDigit c = false) :
    pieceKey piece = .ok (.text (lowerChars piece)) := by
  refine if_neg fun hdigits => ?_
  rw [Bool.and_eq_true, Bool.not_eq_true', isEmpty_eq_false_iff, all_eq_true] at hdigits
  obtain ⟨c, hc, hno⟩ := h hdigits.1
  rw [hdigits.2 c hc] at hno
  cases hno

theorem decimal_plain {c : Char} (h : isDecimal c = true) : Numeral.isBlank c = false := by
  have hapart : ∀ z ∈ decimalZeros, ∀ r ∈ blankRanges, z + 9 < r.1 ∨ r.2 < z := by decide
  rw [isDecimal, decimalDigit?, Option.isSome_map, find?_isSome] at h
  obtain ⟨z, hz, hc⟩ := h
  rw [Bool.and_eq_true, decide_eq_true_eq, decide_eq_true_eq] at hc
  rw [Numeral.isBlank, Bool.and_eq_false_iff]
  refine .inl (Bool.eq_false_iff.mpr fun hblank => ?_)
  obtain ⟨r, hr, hin⟩ := any_eq_true.mp hblank
  rw [Bool.and_eq_true, decide_eq_true_eq, decide_eq_true_eq] at hin
  have := hapart z hz r hr
  omega

theorem scanDigits_decimals (between : Bool) (h : ∀ c ∈ run, isDecimal c = true)
    (hne : between = true ∨ run ≠ []) :
    ∃ ds, ds.length = run.length ∧ Numeral.scanDigits between run = some (ds, []) := by
  induction run generalizing between with
  | nil =>
    obtain rfl := hne.resolve_right (by simp)
    exact ⟨[], rfl, rfl⟩
  | cons c run ih =>
    obtain ⟨ds, hlength, hscan⟩ := ih true (fun x hx => h x (by simp [hx])) (.inl rfl)
    have hc := h c (by simp)
    have hline : c ≠ '_' := by
      rintro rfl
      exact absurd hc (by decide)
    obtain ⟨d, hd⟩ := Option.isSome_iff_exists.mp hc
    refine ⟨d :: ds, by simp [hlength], ?_⟩
    rw [Numeral.scanDigits, if_neg hline, hd]
    simp [hscan]

theorem read_decimals (hne : run ≠ []) (h : ∀ c ∈ run, isDecimal c = true)
    (hshort : run.length ≤ Numeral.maxDigits) : ∃ n, Numeral.read run = .ok n := by
  obtain ⟨ds, hlength, hscan⟩ := scanDigits_decimals false h (.inr hne)
  obtain ⟨c, rest, rfl⟩ := exists_cons_of_ne_nil hne
  have hc := h c (by simp)
  have hdrop : (c :: rest).dropWhile Numeral.isBlank = c :: rest := by
    rw [dropWhile_cons_of_neg (by rw [decimal_plain hc]; simp)]
  have hunsigned : Numeral.readUnsigned (c :: rest) = .ok (Numeral.ofDigits ds) := by
    rw [Numeral.readUnsigned, hscan]
    dsimp only
    rw [if_neg (by omega)]
    rfl
  unfold Numeral.read
  rw [hdrop]
  split
  · next heq =>
    cases heq
    exact absurd hc (by decide)
  · next heq =>
    cases heq
    exact absurd hc (by decide)
  · rw [hunsigned]
    exact ⟨_, rfl⟩

theorem pieceKey_number (hne : run ≠ []) (h : ∀ c ∈ run, isDecimal c = true)
    (hshort : run.length ≤ Numeral.maxDigits) : ∃ n, pieceKey run = .ok (.number n) := by
  have hdigits : (!run.isEmpty && run.all isDigit) = true := by
    rw [Bool.and_eq_true, Bool.not_eq_true', isEmpty_eq_false_iff, all_eq_true]
    exact ⟨hne, fun c hc => by rw [isDigit, h c hc, Bool.true_or]⟩
  obtain ⟨n, hn⟩ := read_decimals hne h hshort
  rw [pieceKey, if_pos hdigits, hn]
  exact ⟨n, rfl⟩

/-- Nothing but digits without a place value, such as superscripts. -/
def Figured (piece : List Char) : Prop :=
  piece ≠ [] ∧ ∀ c ∈ piece, isDigit c = true ∧ isDecimal c = false

theorem readUnsigned_figures (h : ∀ c ∈ run, isDecimal c = false) :
    Numeral.readUnsigned run = .error .malformed := by
  have hscan : Numeral.scanDigits false run = none := by
    cases run with
    | nil => rfl
    | cons c run =>
      have hc : decimalDigit? c = none := by simpa [isDecimal] using h c mem_cons_self
      rw [Numeral.scanDigits, hc]
      split <;> rfl
  rw [Numeral.readUnsigned, hscan]

theorem pieceKey_figured {piece : List Char} (h : Figured piece) :
    pieceKey piece = .error (.notNumeral (String.ofList piece)) := by
  have hdigits : (!piece.isEmpty && piece.all isDigit) = true := by
    rw [Bool.and_eq_true, Bool.not_eq_true', isEmpty_eq_false_iff, all_eq_true]
    exact ⟨h.1, fun c hc => (h.2 c hc).1⟩
  have hrest : ∀ c ∈ piece.dropWhile Numeral.isBlank, isDecimal c = false :=
    fun c hc => (h.2 c ((dropWhile_sublist _).subset hc)).2
  have hread : Numeral.read piece = .error .malformed := by
    unfold Numeral.read
    split
    · next heq =>
      rw [readUnsigned_figures fun c hc => hrest c (heq ▸ mem_cons_of_mem _ hc)]
      rfl
    · next heq =>
      rw [readUnsigned_figures fun c hc => hrest c (heq ▸ mem_cons_of_mem _ hc)]
      rfl
    · rw [readUnsigned_figures hrest]
      rfl
  rw [pieceKey, if_pos hdigits, hread]

theorem mem_cut {inDigits : Bool} {open_ front piece back : List Char} (hne : piece ≠ [])
    (hpiece : ∀ c ∈ piece, isDecimal c = false)
    (hfront : front.getLast?.all isDecimal = true)
    (hback : back.head?.all isDecimal = true)
    (hstart : inDigits = false → front = [] → open_ = []) :
    piece ∈ cut inDigits open_ (front ++ piece ++ back) := by
  have hrun : ∀ open_, open_ ++ piece ∈ cut false open_ (piece ++ back) := by
    clear hne
    induction piece with
    | nil =>
      cases back with
      | nil => simp [cut]
      | cons c back => simp_all [cut]
    | cons c piece ih =>
      intro open_
      rw [cons_append, cut, if_pos (hpiece c mem_cons_self)]
      simpa using ih (fun x hx => hpiece x (mem_cons_of_mem _ hx)) (open_ ++ [c])
  induction front generalizing inDigits open_ with
  | nil =>
    cases inDigits with
    | false =>
      rw [hstart rfl rfl]
      exact hrun []
    | true =>
      obtain ⟨c, rest, rfl⟩ := exists_cons_of_ne_nil hne
      have hc := hpiece c mem_cons_self
      have hopen := hrun []
      rw [nil_append, cons_append, cut, if_pos hc] at hopen
      rw [nil_append, cons_append, cut, if_neg (by simp [hc])]
      exact mem_cons_of_mem _ hopen
  | cons d front ih =>
    have hfront' : front.getLast?.all isDecimal = true := by
      cases front with
      | nil => rfl
      | cons e front => simpa using hfront
    have hlast : front = [] → isDecimal d = true := by
      rintro rfl
      simpa using hfront
    rw [cons_append, cons_append, cut]
    split
    · next hd =>
      refine ih hfront' fun hdigits hnil => ?_
      rw [hdigits, hlast hnil] at hd
      cases hd
    · next hd =>
      refine mem_cons_of_mem _ (ih hfront' fun hdigits hnil => ?_)
      simp_all

structure Cut (text front piece rest : List Char) (inDigits : Bool) : Prop where
  whole : text = front ++ piece ++ rest
  kind : ∀ c ∈ piece, isDecimal c = inDigits
  filled : inDigits = true → piece ≠ []
  border : inDigits = false → front.getLast?.all isDecimal = true

section Keys

variable {text front piece rest : List Char} {inDigits : Bool}
  (hshort : ∀ run, run <:+: text → (∀ c ∈ run, isDecimal c = true) →
    run.length ≤ Numeral.maxDigits)

include hshort

theorem Cut.pieceKey (h : Cut text front piece rest inDigits)
    (hrest : rest.head?.all (isDecimal · != inDigits) = true) :
    (∃ k, pieceKey piece = .ok k ∧ ∀ key, Turns (!inDigits) key → Turns inDigits (k :: key)) ∨
      ¬Regular text ∧ Figured piece := by
  cases inDigits with
  | true =>
    obtain ⟨n, hn⟩ := pieceKey_number (h.filled rfl) h.kind
      (hshort piece ⟨front, rest, h.whole.symm⟩ h.kind)
    exact .inl ⟨.number n, hn, fun key hkey => hkey⟩
  | false =>
    by_cases hother : piece ≠ [] → ∃ c ∈ piece, isDigit c = false
    · exact .inl ⟨_, pieceKey_text hother, fun key hkey => hkey⟩
    · refine .inr ⟨fun hregular => hother fun hne => ?_, fun hnil => hother (absurd hnil),
        fun c hc => ?_⟩
      · exact hregular front piece rest h.whole hne h.kind (h.border rfl) (by simpa using hrest)
      · refine ⟨Bool.of_not_eq_false fun hno => hother fun _ => ⟨c, hc, hno⟩, h.kind c hc⟩

theorem Cut.key (h : Cut text front piece rest inDigits) :
    (∃ key, (cut inDigits piece rest).mapM NaturalOrder.pieceKey = .ok key ∧ Turns inDigits key) ∨
    ¬Regular text ∧ ∃ figures, Figured figures ∧
      (cut inDigits piece rest).mapM NaturalOrder.pieceKey =
        .error (.notNumeral (String.ofList figures)) := by
  induction rest generalizing front piece inDigits with
  | nil =>
    rcases h.pieceKey hshort rfl with ⟨k, hk, hturns⟩ | ⟨hregular, hfigured⟩
    · refine .inl ?_
      cases inDigits with
      | true => exact ⟨[k, .text []], by simp [cut, hk, pieceKey_text]; rfl, hturns _ trivial⟩
      | false => exact ⟨[k], by simp [cut, hk], hturns _ trivial⟩
    · refine .inr ⟨hregular, piece, hfigured, ?_⟩
      rw [cut]
      split <;> rw [mapM_cons, pieceKey_figured hfigured] <;> rfl
  | cons c rest ih =>
    rw [cut]
    split
    · next hc =>
      have hkind := forall_mem_append.mpr ⟨h.kind, forall_mem_singleton.mpr hc⟩
      exact ih ⟨by simp [h.whole], hkind, by simp, h.border⟩
    · next hc =>
      have hnext : Cut text (front ++ piece) [c] rest (!inDigits) := by
        refine ⟨by simp [h.whole], by simpa using Bool.eq_not.mpr hc, by simp, fun hdigits => ?_⟩
        obtain rfl : inDigits = true := by simpa using hdigits
        rw [getLast?_append_of_ne_nil _ (h.filled rfl), getLast?_eq_some_getLast (h.filled rfl)]
        exact h.kind _ (getLast_mem _)
      rw [mapM_cons]
      rcases h.pieceKey hshort (by simpa using hc) with ⟨k, hk, hturns⟩ | ⟨hregular, hfigured⟩
      · rw [hk]
        rcases ih hnext with ⟨key, hkey, hrest⟩ | ⟨hregular, figures, hfigured, hkey⟩
        · exact .inl ⟨k :: key, by rw [hkey]; rfl, hturns key hrest⟩
        · exact .inr ⟨hregular, figures, hfigured, by rw [hkey]; rfl⟩
      · exact .inr ⟨hregular, piece, hfigured, by rw [pieceKey_figured hfigured]; rfl⟩

theorem pieces_key :
    (Regular text → ∃ key, (pieces text).mapM NaturalOrder.pieceKey = .ok key ∧ Turns false key) ∧
      (¬Regular text → ∃ figures, Figured figures ∧ (pieces text).mapM NaturalOrder.pieceKey =
        .error (.notNumeral (String.ofList figures))) := by
  have hcut : Cut text [] [] text false := ⟨rfl, by simp, by simp, fun _ => rfl⟩
  rcases hcut.key hshort with hkey | ⟨hregular, hfigures⟩
  · refine ⟨fun _ => hkey, fun hregular => absurd ?_ hregular⟩
    obtain ⟨key, hkey, -⟩ := hkey
    rintro front piece back rfl hne hpiece hfront hback
    by_contra hno
    have hfigured : Figured piece :=
      ⟨hne, fun c hc => ⟨Bool.of_not_eq_false fun hdigit => hno ⟨c, hc, hdigit⟩, hpiece c hc⟩⟩
    obtain ⟨k, hk⟩ := Fault.ok_of_mapM hkey (mem_cut hne hpiece hfront hback fun _ _ => rfl)
    rw [pieceKey_figured hfigured] at hk
    cases hk
  · exact ⟨fun h => absurd h hregular, fun _ => hfigures⟩

end Keys

def code : Piece → List Int
  | .text t => 0 :: t.map fun c => (c.toNat : Int)
  | .number n => [1, n]

theorem compares_cons {α : Type} [LT α] {o : Ordering} {a b : List α}
    (h : o.Compares a b) (x : α) : o.Compares (x :: a) (x :: b) := by
  cases o with
  | lt => exact cons_lt_cons_iff.mpr (.inr ⟨rfl, h⟩)
  | eq => exact congrArg (x :: ·) h
  | gt => exact cons_lt_cons_iff.mpr (.inr ⟨rfl, h⟩)

theorem compareText_compares (a b : List Char) : (compareText a b).Compares
    (a.map fun c => (c.toNat : Int)) (b.map fun c => (c.toNat : Int)) := by
  induction a generalizing b with
  | nil =>
    cases b with
    | nil => rfl
    | cons d b => exact nil_lt_cons _ _
  | cons c a ih =>
    cases b with
    | nil => exact nil_lt_cons _ _
    | cons d b =>
      rw [compareText, map_cons, map_cons]
      split
      · exact cons_lt_cons_iff.mpr (.inl (by omega))
      split
      · exact cons_lt_cons_iff.mpr (.inl (by omega))
      · have heq : c.toNat = d.toNat := by omega
        rw [heq]
        exact compares_cons (ih b) _

theorem compareNumber_compares (m n : Int) :
    (if m < n then Ordering.lt else if n < m then .gt else .eq).Compares
      (code (.number m)) (code (.number n)) := by
  refine compares_cons ?_ 1
  split
  · next h => exact cons_lt_cons_iff.mpr (.inl h)
  split
  · next h => exact cons_lt_cons_iff.mpr (.inl h)
  · exact congrArg (fun k => [k]) (by omega)

theorem code_injective : Function.Injective code := by
  intro p q h
  cases p with
  | text a =>
    cases q with
    | text b =>
      have hchars : Function.Injective fun c : Char => (c.toNat : Int) :=
        fun c d hcd => Char.toNat_inj.mp (Int.ofNat_inj.mp hcd)
      rw [hchars.list_map (List.cons.inj h).2]
    | number n => exact absurd (List.cons.inj h).1 (by decide)
  | number n =>
    cases q with
    | text b => exact absurd (List.cons.inj h).1 (by decide)
    | number m => rw [singleton_inj.mp (List.cons.inj h).2]

theorem compare?_cons {p q : Piece} {o : Ordering} (h : p.compare? q = some o)
    (hcode : o.Compares (code p) (code q))
    (hrest : ∃ o, compare? a b = some o ∧ o.Compares (a.map code) (b.map code)) :
    ∃ o, compare? (p :: a) (q :: b) = some o ∧
      o.Compares ((p :: a).map code) ((q :: b).map code) := by
  rw [compare?, h]
  cases o with
  | lt => exact ⟨.lt, rfl, cons_lt_cons_iff.mpr (.inl hcode)⟩
  | gt => exact ⟨.gt, rfl, cons_lt_cons_iff.mpr (.inl hcode)⟩
  | eq =>
    obtain ⟨o, ho, hrest⟩ := hrest
    rw [map_cons, map_cons, show code p = code q from hcode]
    exact ⟨o, ho, compares_cons hrest _⟩

theorem compare?_turns {number : Bool} (ha : Turns number a) (hb : Turns number b) :
    ∃ o, compare? a b = some o ∧ o.Compares (a.map code) (b.map code) := by
  induction a generalizing b number with
  | nil =>
    cases b with
    | nil => exact ⟨.eq, rfl, rfl⟩
    | cons q b => exact ⟨.lt, rfl, nil_lt_cons _ _⟩
  | cons p a ih =>
    cases b with
    | nil => exact ⟨.gt, rfl, nil_lt_cons _ _⟩
    | cons q b =>
      cases number with
      | false =>
        cases p with
        | number m => exact ha.elim
        | text t =>
          cases q with
          | number n => exact hb.elim
          | text u =>
            exact compare?_cons rfl (compares_cons (compareText_compares t u) 0) (ih ha hb)
      | true =>
        cases p with
        | text t => exact ha.elim
        | number m =>
          cases q with
          | text u => exact hb.elim
          | number n => exact compare?_cons rfl (compareNumber_compares m n) (ih ha hb)

theorem atMost_iff {number : Bool} (ha : Turns number a) (hb : Turns number b) :
    atMost a b = decide (a.map code ≤ b.map code) := by
  obtain ⟨o, ho, hcompares⟩ := compare?_turns ha hb
  rw [atMost, decide_eq_decide, ho, ← Ordering.Compares.ne_gt hcompares, Ne, Option.some.injEq]

theorem pairwise_sorted {keyed : List (List Piece × String)} (h : ∀ e ∈ keyed, Turns false e.1) :
    (keyed.mergeSort fun a b => atMost a.1 b.1).Pairwise
      fun a b => a.1.map code ≤ b.1.map code := by
  have hcodes : keyed.mergeSort (fun a b => atMost a.1 b.1) =
      keyed.mergeSort fun a b => decide (a.1.map code ≤ b.1.map code) := by
    have hmap := @map_mergeSort _ _ (fun a b => atMost a.1 b.1)
      (fun a b : List Piece × String => decide (a.1.map code ≤ b.1.map code)) id keyed
      fun a ha b hb => atMost_iff (h a ha) (h b hb)
    rwa [map_id, map_id] at hmap
  rw [hcodes]
  refine (pairwise_mergeSort (fun a b c => ?_) (fun a b => ?_) keyed).imp
    fun hab => of_decide_eq_true hab
  · simpa using le_trans
  · simpa using le_total _ _

theorem sortKeyed_perm_eq {keyed keyed' : List (List Piece × String)}
    (h : ∀ e ∈ keyed, Turns false e.1) (hdistinct : (keyed.map Prod.fst).Nodup)
    (hperm : keyed'.Perm keyed) : sortKeyed keyed' = sortKeyed keyed := by
  have h' : ∀ e ∈ keyed', Turns false e.1 := fun e he => h e (hperm.mem_iff.mp he)
  refine congrArg (List.map Prod.snd) (List.Perm.eq_of_pairwise (fun a b ha hb hab hba => ?_)
    (pairwise_sorted h') (pairwise_sorted h) ?_)
  · have hkeys : a.1 = b.1 := code_injective.list_map (le_antisymm hab hba)
    rw [mem_mergeSort] at ha hb
    exact inj_on_of_nodup_map hdistinct (hperm.mem_iff.mp ha) hb hkeys
  · exact (mergeSort_perm _ _).trans (hperm.trans (mergeSort_perm _ _).symm)

end SceneText.NaturalOrder

namespace SceneText.Run

open NaturalOrder MergeSplitTool List SceneText.Path

variable {s : Session} {path : String} {suffix : Option String} {run : List Char}

theorem infix_part {a b : List Char} (h : run <:+: a ++ '/' :: b) (hrun : '/' ∉ run) :
    run <:+: a ∨ run <:+: b := by
  have hnil {back : List Char} (hback : back <+: '/' :: b) (hsub : back ⊆ run) : back = [] := by
    rcases prefix_cons_iff.mp hback with hnil | ⟨rest, rfl, -⟩
    · exact hnil
    · exact absurd (hsub mem_cons_self) hrun
  rw [infix_append_iff, infix_cons_iff] at h
  rcases h with h | (h | h) | ⟨front, back, rfl, hfront, hback⟩
  · exact .inl h
  · rw [hnil h (Subset.refl _)]
    exact .inl nil_infix
  · exact .inr h
  · rw [hnil hback (subset_append_right _ _), append_nil]
    exact .inl hfront.isInfix

theorem length_run_le {p : List String} (hp : ∀ y ∈ p, IsName y)
    (h : run <:+: ("/".intercalate p).toList) (hrun : '/' ∉ run) : run.length ≤ 255 := by
  have hname : ∀ x, IsName x → run <:+: x.toList → run.length ≤ 255 := by
    intro x hx hpiece
    have hsize := Text.length_le_size x.toList
    rw [String.ofList_toList] at hsize
    exact (hpiece.length_le.trans hsize).trans hx.short
  induction p with
  | nil => simp [infix_nil.mp h]
  | cons x p ih =>
    cases p with
    | nil => exact hname x (hp x (by simp)) (by simpa using h)
    | cons y p =>
      have hchars : ("/".intercalate (x :: y :: p)).toList =
          x.toList ++ '/' :: ("/".intercalate (y :: p)).toList := by
        simp [String.intercalate_cons_cons]
      rcases infix_part (hchars ▸ h) hrun with h | h
      · exact hname x (hp x (by simp)) h
      · exact ih (fun z hz => hp z (by simp [hz])) h

theorem place_of_regular (hproper : s.tree.Proper) {file : String}
    (hfile : file ∈ filesBelow s.tree s.workDir path suffix) :
    (Regular (between (absoluteParts s.workDir path) (absoluteParts s.workDir file)).toList →
      ∃ key, placeOf s.workDir path file = .ok key ∧ Turns false key) ∧
    (¬Regular (between (absoluteParts s.workDir path) (absoluteParts s.workDir file)).toList →
      ∃ figures, Figured figures ∧
        placeOf s.workDir path file = .error (.notNumeral (String.ofList figures))) := by
  obtain ⟨-, p, hne, hp, rfl⟩ := below_of_mem_filesBelow hproper.toSound hfile
  rw [placeOf, between_below s.workDir hp hne]
  refine pieces_key fun run hpiece hdigits => ?_
  have hrun : '/' ∉ run := fun hslash => absurd (hdigits _ hslash) (by decide)
  exact (length_run_le hp hpiece hrun).trans (by decide)

/-- Files whose paths are regular have places that can be compared. A listing has the files whose
names end in the suffix, whatever the case of the letters, and is sorted by place; where no two
places are equal, it is the same for every order in which the files are found. -/
theorem collectFiles_in_order (hproper : s.tree.Proper) (hzero : '\x00' ∉ path.toList)
    (hdir : s.tree.isDirectory s.workDir path = true)
    (hregular : ∀ file ∈ filesBelow s.tree s.workDir path suffix,
      Regular (between (absoluteParts s.workDir path) (absoluteParts s.workDir file)).toList) :
    (∀ a ∈ filesBelow s.tree s.workDir path suffix, ∀ b ∈ filesBelow s.tree s.workDir path suffix,
        ∃ k l o, placeOf s.workDir path a = .ok k ∧ placeOf s.workDir path b = .ok l ∧
          compare? k l = some o) ∧
    ∃ files, eval (collectFiles path suffix) s = (.ok files, s) ∧
      files.Perm (filesBelow s.tree s.workDir path suffix) ∧
      (∀ file, file ∈ files ↔ file ∈ filesBelow s.tree s.workDir path none ∧ ∀ t, suffix = some t →
        Text.lowerChars t.toList <:+ Text.lowerChars (base file).toList) ∧
      files.Pairwise (fun a b => ∀ k l, placeOf s.workDir path a = .ok k →
        placeOf s.workDir path b = .ok l → compare? k l ≠ some .gt) ∧
      (((filesBelow s.tree s.workDir path suffix).map (placeOf s.workDir path)).Nodup →
        ∀ listed, listed.Perm (filesBelow s.tree s.workDir path suffix) →
          eval (sortListed path listed) s = (.ok files, s)) := by
  have hplaces := fun file hfile => (place_of_regular hproper hfile).1 (hregular file hfile)
  have hkeys : ∀ e ∈ placed s.workDir path (filesBelow s.tree s.workDir path suffix),
      placeOf s.workDir path e.2 = .ok e.1 ∧ Turns false e.1 := by
    intro e he
    obtain ⟨file, hfile, rfl⟩ := mem_map.mp he
    obtain ⟨key, hkey, hturns⟩ := hplaces file hfile
    simpa [hkey, Except.toOption] using hturns
  have hrun : ∀ listed, listed.Perm (filesBelow s.tree s.workDir path suffix) →
      eval (sortListed path listed) s = (.ok (sortKeyed (placed s.workDir path listed)), s) := by
    refine fun listed hperm => eval_sortListed (fun file hfile => ?_) fun file hfile => ?_
    · exact filled_of_mem_filesBelow hproper.toSound (hperm.mem_iff.mp hfile)
    · obtain ⟨key, hkey, -⟩ := hplaces file (hperm.mem_iff.mp hfile)
      exact ⟨key, hkey⟩
  have hperm : (sortKeyed (placed s.workDir path (filesBelow s.tree s.workDir path suffix))).Perm
      (filesBelow s.tree s.workDir path suffix) := by
    refine (sortKeyed_perm _).trans (.of_eq ?_)
    rw [placed, map_map]
    exact map_id _
  refine ⟨fun a ha b hb => ?_, _, (eval_collectFiles_eq hzero hdir).trans (hrun _ (.refl _)),
    hperm, fun file => hperm.mem_iff.trans (mem_filesBelow_iff hproper.toSound), ?_,
    fun hdistinct listed hperm => ?_⟩
  · obtain ⟨k, hk, hk'⟩ := hplaces a ha
    obtain ⟨l, hl, hl'⟩ := hplaces b hb
    obtain ⟨o, ho, -⟩ := compare?_turns hk' hl'
    exact ⟨k, l, o, hk, hl, ho⟩
  · rw [sortKeyed, pairwise_map]
    refine (pairwise_sorted fun e he => (hkeys e he).2).imp_of_mem
      fun {a b} ha hb hle k l hk hl => ?_
    obtain ⟨ha, ha'⟩ := hkeys a (mem_mergeSort.mp ha)
    obtain ⟨hb, hb'⟩ := hkeys b (mem_mergeSort.mp hb)
    obtain rfl := Except.ok.inj (ha.symm.trans hk)
    obtain rfl := Except.ok.inj (hb.symm.trans hl)
    simpa [atMost] using (atMost_iff ha' hb').trans (decide_eq_true hle)
  · rw [hrun listed hperm]
    refine congrArg (fun files => (Except.ok files, s)) ?_
    refine sortKeyed_perm_eq (fun e he => (hkeys e he).2) ?_ (hperm.map _)
    rw [placed, map_map]
    refine (List.Nodup.of_map _ hdistinct).map_on fun a ha b hb heq => ?_
    obtain ⟨k, hk, -⟩ := hplaces a ha
    obtain ⟨l, hl, -⟩ := hplaces b hb
    refine inj_on_of_nodup_map hdistinct ha hb ?_
    simp only [Function.comp_apply, hk, hl] at heq ⊢
    exact congrArg _ heq

theorem collectFiles_in_order_library : ∃ files,
    eval (collectFiles "in" (some "JSON")) library = (.ok files, library) ∧
      eval (sortListed "in" ["in/more/1.json", "in/10.json", "in/2.json"]) library =
        (.ok files, library) := by
  have hproper : library.tree.Proper := ⟨FileTree.sound_of_entries (by decide +kernel), by decide⟩
  have hfiles : filesBelow library.tree library.workDir "in" (some "JSON") =
      ["in/10.json", "in/2.json", "in/more/1.json"] := by
    rw [filesBelow, walk_library]
    decide
  have hdigits : ∀ file ∈ ["in/10.json", "in/2.json", "in/more/1.json"],
      (between (absoluteParts library.workDir "in")
        (absoluteParts library.workDir file)).toList.all
        (fun c => Text.isDecimal c || !Text.isDigit c) = true := by decide +kernel
  have hplaces : ((["in/10.json", "in/2.json", "in/more/1.json"].map
      (placeOf library.workDir "in")).map Except.toOption).Nodup := by decide +kernel
  obtain ⟨-, files, hrun, -, -, -, hsame⟩ := @collectFiles_in_order library "in" (some "JSON")
    hproper (by decide) (by decide +kernel) (by
      rw [hfiles]
      intro file hfile front piece back htext hne hpiece _ _
      obtain ⟨c, hc⟩ := exists_mem_of_ne_nil piece hne
      have hplain := all_eq_true.mp (hdigits file hfile) c (by simp [htext, hc])
      exact ⟨c, hc, by simpa [hpiece c hc] using hplain⟩)
  rw [hfiles] at hsame
  exact ⟨files, hrun, hsame (.of_map _ hplaces) _ (by decide)⟩

/-- A listing fails if some path has a piece of digits without a place value, and only then. -/
theorem collectFiles_fails_on_figures (hproper : s.tree.Proper) (hzero : '\x00' ∉ path.toList)
    (hdir : s.tree.isDirectory s.workDir path = true) :
    ((∀ file ∈ filesBelow s.tree s.workDir path suffix,
      Regular (between (absoluteParts s.workDir path) (absoluteParts s.workDir file)).toList) →
      ∃ files, eval (collectFiles path suffix) s = (.ok files, s) ∧
        files.Perm (filesBelow s.tree s.workDir path suffix)) ∧
    ((∃ file ∈ filesBelow s.tree s.workDir path suffix,
      ¬Regular (between (absoluteParts s.workDir path) (absoluteParts s.workDir file)).toList) →
      ∃ figures, Figured figures ∧ eval (collectFiles path suffix) s =
        (.error (.fault (.notNumeral (String.ofList figures))), s)) := by
  constructor
  · refine fun hregular => eval_collectFiles hproper.toSound hzero hdir fun file hfile => ?_
    obtain ⟨key, hkey, -⟩ := (place_of_regular hproper hfile).1 (hregular file hfile)
    exact ⟨key, hkey⟩
  · rintro ⟨bad, hbad, hirregular⟩
    have hplaces : ∀ file ∈ filesBelow s.tree s.workDir path suffix,
        (∃ entry, (placeOf s.workDir path file).map (·, file) = .ok entry) ∨
          ∃ fault, (placeOf s.workDir path file).map (·, file) = .error fault ∧
            ∃ figures, Figured figures ∧ fault = .notNumeral (String.ofList figures) := by
      intro file hfile
      by_cases hregular :
          Regular (between (absoluteParts s.workDir path) (absoluteParts s.workDir file)).toList
      · obtain ⟨key, hkey, -⟩ := (place_of_regular hproper hfile).1 hregular
        exact .inl ⟨(key, file), by rw [hkey]; rfl⟩
      · obtain ⟨figures, hfigured, hkey⟩ := (place_of_regular hproper hfile).2 hregular
        exact .inr ⟨_, by rw [hkey]; rfl, figures, hfigured, rfl⟩
    obtain ⟨figures, -, hkey⟩ := (place_of_regular hproper hbad).2 hirregular
    obtain ⟨fault, hfault, figures, hfigured, rfl⟩ :=
      Fault.mapM_error _ _ _ hplaces ⟨bad, hbad, _, by rw [hkey]; rfl⟩
    rw [eval_collectFiles_eq hzero hdir,
      eval_sortListed_lift fun file hfile => filled_of_mem_filesBelow hproper.toSound hfile, hfault]
    exact ⟨figures, hfigured, rfl⟩

def squared : Session where
  tree := ⟨[(["d"], .directory), (["d", "2"], .file [] false), (["d", "²"], .file [] false)]⟩
  workDir := []

theorem files_squared : filesBelow squared.tree squared.workDir "d" none = ["d/2", "d/²"] := by
  have hnames : squared.tree.names ["d"] = ["2", "²"] :=
    (mergeSort_of_pairwise (by decide +kernel)).trans (by decide +kernel)
  have hlist : squared.tree.list squared.workDir "d" = .ok ["2", "²"] := by
    rw [← hnames]
    rfl
  rw [filesBelow_none, FileTree.filesWithin_succ hlist]
  decide +kernel

theorem collectFiles_fails_on_figures_squared : ∃ figures, Figured figures ∧
    eval (collectFiles "d" none) squared =
      (.error (.fault (.notNumeral (String.ofList figures))), squared) := by
  have hproper : squared.tree.Proper :=
    ⟨FileTree.sound_of_entries (by decide +kernel), by decide +kernel⟩
  refine (collectFiles_fails_on_figures hproper (by decide) (by decide +kernel)).2
    ⟨"d/²", by rw [files_squared]; decide, fun hregular => ?_⟩
  have hdigit := hregular [] ['²'] [] (by decide +kernel) (by simp)
    (forall_mem_singleton.mpr rfl) rfl rfl
  obtain ⟨c, hc, hno⟩ := hdigit
  rw [mem_singleton.mp hc] at hno
  cases hno

/-- A superscript is a digit but no numeral. -/
theorem collectFiles_squared : eval (collectFiles "d" none) squared =
    (.error (.fault (.notNumeral "²")), squared) := by
  rw [eval_collectFiles_eq (by decide) (by decide +kernel), files_squared]
  rfl

end SceneText.Run
