import SceneText.Proofs.Longest

/-!
# Fields that move on

A field of a library reader ends at or behind the place where it begins, as long as no byte slice
asks for a negative length. Integers and texts end inside the image. A byte slice takes what is
there and moves on by what it asked for, so the reading stays inside the image exactly as long as
every slice comes out in its full length.
-/

namespace SceneText

open FieldSpec Operand

variable {size n : Nat} {next : Int} {spec : FieldSpec} {v : Json}

namespace FieldSpec

def isForward : FieldSpec → Bool
  | .given [.whole length] .slice => 0 ≤ length
  | .given _ spec | .repeated _ spec | .repeatedBy _ spec => spec.isForward
  | _ => true

def isWhole : FieldSpec → Json → Bool
  | .given [.whole length] .slice, v =>
    match ofJson v with
    | .ok (.bytes data) => data.length = length
    | _ => false
  | .given _ spec, v => spec.isWhole v
  | .repeated _ spec, .arr items | .repeatedBy _ spec, .arr items => items.all spec.isWhole
  | _, _ => true

def isAnchored : FieldSpec → Bool
  | .int _ | .text => true
  | _ => false

def isBounded : FieldSpec → Bool
  | .slice => false
  | .given _ spec | .repeated _ spec | .repeatedBy _ spec => spec.isBounded
  | _ => true

/-- Whether directly behind every field with a byte slice there is an integer or a text. -/
def slicesGuarded : List FieldSpec → Bool
  | [] => true
  | spec :: rest => (spec.isBounded || rest.head?.any isAnchored) && slicesGuarded rest

end FieldSpec

structure Stride (size start stop : Nat) (whole : Bool) : Prop where
  on : start ≤ stop
  within : start ≤ size → (stop ≤ size ↔ whole = true)

namespace Stride

variable {a b : Nat}

theorem refl (size n : Nat) : Stride size n n true :=
  ⟨Nat.le_refl n, fun h => by simp [h]⟩

theorem trans {c : Nat} {p q : Bool} (hab : Stride size a b p) (hbc : Stride size b c q) :
    Stride size a c (p && q) := by
  have hon := hbc.on
  refine ⟨Nat.le_trans hab.on hon, fun ha => ?_⟩
  rw [Bool.and_eq_true, ← hab.within ha]
  constructor
  · intro hc
    have hb : b ≤ size := by omega
    exact ⟨hb, (hbc.within hb).mp hc⟩
  · rintro ⟨hb, hq⟩
    exact (hbc.within hb).mpr hq

end Stride

namespace Field

variable {image : Image}

theorem readInt_le {w : Width} {v : Int} (h : readInt w image n = .ok (v, next)) :
    ∃ m : Nat, next = m ∧ n ≤ m ∧ m ≤ image.size := by
  rw [readInt_eq] at h
  split at h
  · next hsize =>
    cases h
    exact ⟨n + w.size, rfl, Nat.le_add_right n _, hsize⟩
  · cases h

end Field

namespace FieldSpec

variable {page : CodePage} {image : Image} {operands : List Json}
  {read : Int → Except FieldHalt (Json × Int)}

theorem read_anchored (ha : spec.isAnchored = true)
    (h : spec.readWith page image operands [] n = .ok (v, next)) :
    ∃ m : Nat, next = m ∧ n ≤ m ∧ m ≤ image.size := by
  cases spec with
  | int w =>
    obtain ⟨value, -, hr⟩ := read_int h
    exact Field.readInt_le hr
  | text =>
    obtain ⟨s, -, hr⟩ := read_text h
    obtain ⟨m, bytes, hm, hn, hsize, -⟩ := Field.readText_spec page image n s next hr
    exact ⟨m, hm, hn, hsize⟩
  | _ => simp [isAnchored] at ha

theorem read_slice {k : Nat} (h : (bytes k).readWith page image operands [] n = .ok (v, next)) :
    ∃ m : Nat, next = m ∧ Stride image.size n m ((bytes k).isWhole v) := by
  simp only [bytes, readWith, textResult, readSlice, Field.bytesOperand_eq, Except.ok.injEq,
    Prod.mk.injEq] at h
  obtain ⟨rfl, rfl⟩ := h
  refine ⟨n + k, by simp, Nat.le_add_right n k, fun hn => ?_⟩
  have hlen : (image.span n (n + k)).length = min k (image.size - n) := by simp [Image.span]
  rw [← Int.natCast_add, Image.slice_eq_span]
  simp only [bytes, isWhole, ofJson, read_bytes, hlen, decide_eq_true_eq,
    Int.natCast_inj]
  omega

theorem repeatRead_stride {whole : Json → Bool}
    (hread : ∀ {n : Nat} {v : Json} {next : Int}, read n = .ok (v, next) →
      ∃ m : Nat, next = m ∧ Stride size n m (whole v)) (k n : Nat) {items : List Json}
    (h : repeatRead read k n = .ok (items, next)) :
    ∃ m : Nat, next = m ∧ Stride size n m (items.all whole) := by
  induction k generalizing n items with
  | zero =>
    obtain ⟨rfl, rfl⟩ := h
    exact ⟨n, rfl, .refl size n⟩
  | succ k ih =>
    obtain ⟨v, stop, rest, hr, hrest, rfl⟩ := repeatRead_succ h
    obtain ⟨b, rfl, hb⟩ := hread hr
    obtain ⟨m, rfl, hm⟩ := ih b hrest
    exact ⟨m, rfl, hb.trans hm⟩

theorem readWith_arguments {a : FieldArgument} {more : List FieldArgument} {offset : Int}
    {r : Json × Int} (h : spec.readWith page image operands (a :: more) offset = .ok r) :
    spec = .slice ∧ ∃ length, a :: more = [.whole length] := by
  cases spec with
  | slice =>
    refine ⟨rfl, ?_⟩
    rw [readWith] at h
    unfold readSlice at h
    split at h
    · simp_all
    · next length hargs => exact ⟨length, hargs⟩
    · cases h
    · cases h
    · cases h
  | _ => simp [readWith] at h

theorem readWith_stride (hf : spec.isForward = true)
    (h : spec.readWith page image operands [] n = .ok (v, next)) :
    ∃ m : Nat, next = m ∧ Stride image.size n m (spec.isWhole v) := by
  induction spec generalizing n v next with
  | int w =>
    have ha : (int w).isAnchored = true := rfl
    obtain ⟨m, hm, hn, hsize⟩ := read_anchored ha h
    exact ⟨m, hm, hn, fun _ => by simp [isWhole, hsize]⟩
  | text =>
    have ha : text.isAnchored = true := rfl
    obtain ⟨m, hm, hn, hsize⟩ := read_anchored ha h
    exact ⟨m, hm, hn, fun _ => by simp [isWhole, hsize]⟩
  | slice => simp [readWith, readSlice, textResult] at h
  | stop => simp [readWith] at h
  | key kind => simp [readWith] at h
  | repeated count spec ih =>
    rw [readWith] at h
    cases hc : statedCount count with
    | error fault => simp [hc] at h
    | ok k =>
      simp only [hc] at h
      obtain ⟨items, rfl, hr⟩ := listResult_ok h
      exact repeatRead_stride (ih hf) k n hr
  | repeatedBy index spec ih =>
    rw [readWith] at h
    cases hc : readCount operands index with
    | error fault => simp [hc] at h
    | ok k =>
      simp only [hc] at h
      obtain ⟨items, rfl, hr⟩ := listResult_ok h
      exact repeatRead_stride (ih hf) k n hr
  | given arguments spec ih =>
    cases arguments with
    | nil => exact ih hf h
    | cons a more =>
      obtain ⟨rfl, length, hargs⟩ := readWith_arguments h
      rw [hargs] at hf h ⊢
      obtain ⟨k, rfl⟩ := Int.eq_ofNat_of_zero_le (of_decide_eq_true hf)
      exact read_slice h

theorem isWhole_of_isBounded (hb : spec.isBounded = true) (v : Json) : spec.isWhole v = true := by
  induction spec generalizing v with
  | given arguments spec ih =>
    by_cases hslice : spec = .slice
    · rw [hslice] at hb
      cases hb
    · rw [isWhole]
      · exact ih hb v
      · intro _ _ h
        exact absurd h hslice
  | repeated count spec ih =>
    cases v with
    | arr items => exact List.all_eq_true.mpr fun x _ => ih hb x
    | _ => rfl
  | repeatedBy index spec ih =>
    cases v with
    | arr items => exact List.all_eq_true.mpr fun x _ => ih hb x
    | _ => rfl
  | _ => rfl

end FieldSpec

def readValues (page : CodePage) (image : Image) (operands : List Json) (offset : Int) :
    List FieldSpec → List (FieldSpec × Json)
  | [] => []
  | spec :: rest =>
    match spec.read page image operands offset with
    | .ok (v, next) =>
      (spec, v) :: readValues page image (operands ++ spread v) next rest
    | .error _ => []

section Fields

variable {page : CodePage} {image : Image}

theorem readFields_operands (specs : List FieldSpec) (operands : List Json) (offset : Int) :
    (readFields page image operands offset specs).operands =
      operands ++ (readValues page image operands offset specs).flatMap fun p => spread p.2 := by
  induction specs generalizing operands offset with
  | nil => simp [readFields, readValues]
  | cons spec rest ih =>
    cases hr : spec.read page image operands offset with
    | error halt => simp [readFields, readValues, hr]
    | ok r => simp [readFields, readValues, hr, ih]

theorem readFields_stride {specs : List FieldSpec} (hs : ∀ spec ∈ specs, spec.isForward = true)
    (operands : List Json) (n : Nat) :
    ∃ m : Nat, (readFields page image operands n specs).offset = m ∧ Stride image.size n m
        ((readValues page image operands n specs).all fun p => p.1.isWhole p.2) := by
  induction specs generalizing operands n with
  | nil => exact ⟨n, rfl, .refl _ n⟩
  | cons spec rest ih =>
    cases hr : spec.read page image operands n with
    | error halt =>
      simp only [readFields, readValues, hr]
      exact ⟨n, rfl, .refl _ n⟩
    | ok r =>
      obtain ⟨v, next⟩ := r
      obtain ⟨b, rfl, hb⟩ := readWith_stride (hs spec (by simp)) hr
      obtain ⟨m, hm, hbm⟩ := ih (fun s hmem => hs s (by simp [hmem])) (operands ++ spread v) b
      simp only [readFields, readValues, hr]
      exact ⟨m, hm, hb.trans hbm⟩

theorem readFields_halted {specs : List FieldSpec} {operands : List Json} {offset : Int}
    {halt : FieldHalt} (h : (readFields page image operands offset specs).halt = some halt) :
    ∃ before spec after, specs = before ++ spec :: after ∧
      readFields page image operands offset before =
        { readFields page image operands offset specs with halt := none } ∧
      spec.read page image (readFields page image operands offset specs).operands
        (readFields page image operands offset specs).offset = .error halt := by
  induction specs generalizing operands offset with
  | nil => simp [readFields] at h
  | cons spec rest ih =>
    cases hr : spec.read page image operands offset with
    | error halt' =>
      simp only [readFields, hr, Option.some.injEq] at h ⊢
      exact ⟨[], spec, rest, rfl, rfl, by rw [hr, h]⟩
    | ok r =>
      simp only [readFields, hr] at h ⊢
      obtain ⟨before, spec', after, rfl, hbefore, hspec⟩ := ih h
      exact ⟨spec :: before, spec', after, rfl, by rw [readFields, hr]; exact hbefore, hspec⟩

theorem readFields_within {specs : List FieldSpec} (hs : ∀ spec ∈ specs, spec.isForward = true)
    (hguarded : slicesGuarded specs = true) (operands : List Json) (n : Nat)
    (hstart : n ≤ image.size ∨ specs.head?.any isAnchored = true)
    (hhalt : ∀ fault, (readFields page image operands n specs).halt ≠ some (.failed fault)) :
    (readFields page image operands n specs).offset ≤ image.size := by
  induction specs generalizing operands n with
  | nil => simpa [readFields] using hstart
  | cons spec rest ih =>
    rw [slicesGuarded, Bool.and_eq_true, Bool.or_eq_true] at hguarded
    cases hr : spec.read page image operands n with
    | error halt =>
      simp only [readFields, hr, ne_eq, Option.some.injEq] at hhalt ⊢
      cases halt with
      | failed fault => exact absurd rfl (hhalt fault)
      | stopped =>
        -- neither an integer nor a text stops the reading
        have hstops := (readWith_stopped_iff spec n).mp hr
        rcases hstart with hn | ha
        · omega
        · cases spec <;> simp [isAnchored, Stops] at ha hstops
    | ok r =>
      obtain ⟨v, next⟩ := r
      obtain ⟨b, rfl, hb⟩ := readWith_stride (hs spec (by simp)) hr
      simp only [readFields, hr] at hhalt ⊢
      apply ih (fun s hmem => hs s (by simp [hmem])) hguarded.2 _ b _ hhalt
      rcases hstart with hn | ha
      · rcases hguarded.1 with hbounded | hnext
        · exact .inl ((hb.within hn).mpr (isWhole_of_isBounded hbounded v))
        · exact .inr hnext
      · obtain ⟨m, hm, -, hsize⟩ := read_anchored ha hr
        exact .inl (by omega)

end Fields
end SceneText
