import SceneText.Proofs.Operands
import SceneText.Script.Disassembly

/-!
# Where operands come from

Every operand of an instruction is read from a stretch of the image. The stretches of one field's
operands follow one another without a gap, each operand tells its stretch again when it is stored,
and texts, which alone may be written in a different way, are kept apart by their field.
-/

namespace SceneText

open List Except FieldSpec Operand

variable {spec : FieldSpec} {n : Nat} {v : Json} {next : Int}
  {read : Int → Except FieldHalt (Json × Int)} {items : List Json}

namespace Image

def span (image : Image) (start stop : Nat) : List UInt8 :=
  (image.toList.drop start).take (stop - start)

variable (image : Image)

theorem slice_eq_span (start stop : Nat) : image.slice start stop = image.span start stop := by
  have hclip : ∀ n : Nat, clip image.size n = min n image.size := fun n => by
    rw [clip, if_neg (by omega), Int.toNat_natCast]
  rw [slice, hclip, hclip, Array.toList_extract, extract_eq_take_drop, span]
  by_cases hstart : start ≤ image.size
  · rw [Nat.min_eq_left hstart]
    by_cases hstop : stop ≤ image.size
    · rw [Nat.min_eq_left hstop]
    · rw [Nat.min_eq_right (by omega)]
      rw [take_of_length_le (by simp), take_of_length_le (by simp; omega)]
  · have hend : image.toList.drop start = [] := drop_eq_nil_of_le (by simp; omega)
    rw [hend, drop_eq_nil_of_le (by simp; omega), take_nil, take_nil]

theorem span_append (a b c : Nat) (hab : a ≤ b) (hbc : b ≤ c) :
    image.span a b ++ image.span b c = image.span a c := by
  have hc : c - a = (b - a) + (c - b) := by omega
  rw [span, span, span, hc, take_add, drop_drop]
  congr 3
  omega

theorem span_self (a : Nat) : image.span a a = [] := by
  simp [span]

theorem length_span (a b : Nat) (hb : b ≤ image.size) : (image.span a b).length = b - a := by
  simp [span]
  omega

theorem span_one (a : Nat) (b : UInt8) (h : image[a]? = some b) : image.span a (a + 1) = [b] := by
  rw [← Array.getElem?_toList] at h
  obtain ⟨ha, hb⟩ := List.getElem?_eq_some_iff.mp h
  rw [span, List.drop_eq_getElem_cons ha]
  simp [hb]

theorem span_of_startsAt (signature : List UInt8) (start : Nat)
    (h : image.startsAt signature start = true) :
    image.span start (start + signature.length) = signature := by
  induction signature generalizing start with
  | nil => simp [span]
  | cons b rest ih =>
    simp only [startsAt, Bool.and_eq_true, beq_iff_eq] at h
    have hrest := ih (start + 1) h.2
    rw [← span_append image start (start + 1) _ (by omega) (by simp), span_one image start b h.1]
    rw [length_cons, show start + (rest.length + 1) = start + 1 + rest.length by omega, hrest]
    rfl

theorem zeroFrom_spec (start z : Nat) (h : zeroFrom? image start = some z) :
    start ≤ z ∧ image[z]? = some 0 := by
  induction start using zeroFrom?.induct image with
  | case1 start hlt hz =>
    rw [zeroFrom?, dif_pos hlt, if_pos hz, Option.some.injEq] at h
    subst h
    exact ⟨Nat.le_refl _, by rw [Array.getElem?_eq_getElem hlt, hz]⟩
  | case2 start hlt hz ih =>
    rw [zeroFrom?, dif_pos hlt, if_neg hz] at h
    have := ih h
    exact ⟨by omega, this.2⟩
  | case3 start hlt => simp [zeroFrom?, hlt] at h

end Image

namespace Field

theorem readInt_eq (w : Width) (image : Image) (n : Nat) :
    readInt w image n =
      if n + w.size ≤ image.size then
        .ok (w.decode (image.span n (n + w.size)), (n + w.size : Nat))
      else .error (.refused (.shortField w)) := by
  unfold readInt
  by_cases hsize : n + w.size ≤ image.size
  · rw [if_neg (by omega), if_pos hsize]
    have hlen := image.length_span n (n + w.size) hsize
    rw [Nat.add_sub_cancel_left] at hlen
    have hslice : image.slice n (n + w.size) = image.span n (n + w.size) :=
      image.slice_eq_span n (n + w.size)
    cases w with
    | u8 =>
      have hget : image[n]? = some image[n] := Array.getElem?_eq_getElem hsize
      have hb : image.byteAt? n = some image[n] := by simpa [Image.byteAt?] using hget
      simp [hb, Image.span_one image n _ hget, Width.decode, Width.signed, Width.size, ofLowBytes]
    | _ =>
      simp only [hslice, hlen, if_true]
      rfl
  · rw [if_pos (by omega), if_neg hsize]

theorem readInt_spec (w : Width) (image : Image) (n : Nat) (v next : Int)
    (h : readInt w image n = .ok (v, next)) :
    next = (n + w.size : Nat) ∧ w.fits v = true ∧
      w.encode .little v = image.span n (n + w.size) := by
  rw [readInt_eq] at h
  split at h
  · next hsize =>
    cases h
    have hlen : (image.span n (n + w.size)).length = w.size := by
      rw [image.length_span n _ hsize, Nat.add_sub_cancel_left]
    exact ⟨rfl, w.decode_fits _ hlen, w.encode_decode _ hlen⟩
  · cases h

/-- A number that was read fits its field, so it is never refused as an operand. -/
theorem intOperand_eq (w : Width) (image : Image) (n : Nat) :
    intOperand w image n =
      (readInt w image n).map fun r => (write (.int w r.1), r.2) := by
  rw [intOperand]
  cases hr : readInt w image n with
  | error fault => rfl
  | ok r =>
    obtain ⟨-, hfits, -⟩ := readInt_spec w image n r.1 r.2 hr
    show (writeAs w.name (.plain (.int r.1)) >>= fun s => pure (s, r.2)) = _
    rw [writeAs_int w r.1 hfits]
    rfl

theorem bytesOperand_eq (image : Image) (offset length : Int) :
    bytesOperand image offset length =
      .ok (write (.bytes (image.slice offset (offset + length))), offset + length) :=
  rfl

theorem readText_spec (page : CodePage) (image : Image) (n : Nat) (s : String) (next : Int)
    (h : readText page image n = .ok (s, next)) :
    ∃ m : Nat, ∃ bytes, next = m ∧ n ≤ m ∧ m ≤ image.size ∧ image.span n m = bytes ++ [0] ∧
      page.decode bytes = .ok s.toList := by
  unfold readText readTerminated at h
  cases hz : image.zero? n with
  | none => simp [hz] at h
  | some z =>
    have hspec : n ≤ z ∧ image[z]? = some 0 := by
      apply Image.zeroFrom_spec
      rwa [Image.zero?, if_neg (by omega), Int.toNat_natCast] at hz
    simp only [hz, Image.slice_eq_span] at h
    cases hd : page.decode (image.span n z) with
    | error defect => simp [hd] at h
    | ok cs =>
      simp only [hd, ok.injEq, Prod.mk.injEq] at h
      have hlt : z < image.size := (Array.getElem?_eq_some_iff.mp hspec.2).1
      refine ⟨z + 1, image.span n z, by rw [← h.2]; rfl, by omega, hlt, ?_, ?_⟩
      · rw [← Image.span_append image n z (z + 1) hspec.1 (by omega),
          Image.span_one image z 0 hspec.2]
      · rw [hd, ← h.1, String.toList_ofList]

end Field

/-- An operand with its field and the bytes that it was read from. -/
structure Origin where
  field : FieldSpec
  operand : Json
  bytes : List UInt8

def Origin.Read (page : CodePage) (r : Origin) : Prop :=
  match r.field with
  | .int w => ∃ v, r.operand = .str (write (.int w v)) ∧ w.fits v = true ∧
      r.bytes = w.encode .little v
  | .text => ∃ s bytes, r.operand = .str s ∧ r.bytes = bytes ++ [0] ∧
      page.decode bytes = .ok s.toList
  | _ => r.operand = .str (write (.bytes r.bytes))

def Origin.Whole (r : Origin) : Prop :=
  ∀ length, r.field = .given [.whole length] .slice → length = r.bytes.length

namespace FieldSpec

def isScalar : FieldSpec → Bool
  | .int _ | .text => true
  | .given [.whole length] .slice => 0 ≤ length
  | _ => false

def isPlain : FieldSpec → Bool
  | .repeated (.whole _) spec | .repeatedBy (.whole _) spec => spec.isScalar
  | spec => spec.isScalar

def originsTimes (page : CodePage) (image : Image) (operands : List Json) (spec : FieldSpec) :
    Nat → Int → List Origin
  | 0, _ => []
  | n + 1, offset =>
    match spec.read page image operands offset with
    | .error _ => []
    | .ok (v, next) =>
      ⟨spec, v, image.slice offset next⟩ :: originsTimes page image operands spec n next

def origins (page : CodePage) (image : Image) (operands : List Json) (spec : FieldSpec)
    (offset : Int) : List Origin :=
  match spec with
  | .repeated count spec => spec.originsTimes page image operands count.times offset
  | .repeatedBy index spec =>
    match readCount operands index with
    | .error _ => []
    | .ok n => spec.originsTimes page image operands n offset
  | spec => spec.originsTimes page image operands 1 offset

end FieldSpec

def fieldOrigins (page : CodePage) (image : Image) (operands : List Json) (offset : Int) :
    List FieldSpec → List Origin
  | [] => []
  | spec :: rest =>
    match spec.read page image operands offset with
    | .error _ => []
    | .ok (v, next) =>
      spec.origins page image operands offset ++
        fieldOrigins page image (operands ++ spread v) next rest

structure Traced (page : CodePage) (image : Image) (start stop : Nat) (operands : List Json)
    (origins : List Origin) : Prop where
  operands_eq : origins.map Origin.operand = operands
  bytes_eq : origins.flatMap Origin.bytes = image.span start stop
  read : ∀ r ∈ origins, r.Read page

namespace Traced

variable {page : CodePage} {image : Image}

theorem nil (n : Nat) : Traced page image n n [] [] :=
  ⟨rfl, by simp [Image.span_self], by simp⟩

theorem append {a b c : Nat} {xs ys : List Json} {rs ss : List Origin} (hab : a ≤ b) (hbc : b ≤ c)
    (hx : Traced page image a b xs rs) (hy : Traced page image b c ys ss) :
    Traced page image a c (xs ++ ys) (rs ++ ss) := by
  refine ⟨by rw [map_append, hx.operands_eq, hy.operands_eq], ?_, ?_⟩
  · rw [flatMap_append, hx.bytes_eq, hy.bytes_eq, Image.span_append image a b c hab hbc]
  · exact forall_mem_append.mpr ⟨hx.read, hy.read⟩

end Traced

structure Passed (page : CodePage) (image : Image) (n : Nat) (next : Int) (operands : List Json)
    (origins : List Origin) : Prop where
  traced : ∃ m : Nat, next = m ∧ n ≤ m ∧ Traced page image n m operands origins
  whole : next ≤ image.size → ∀ r ∈ origins, r.Whole

namespace FieldSpec

def Takes (operands : List Json) : FieldSpec → List FieldSpec → Prop
  | .repeated count spec, fields =>
    statedCount count = .ok fields.length ∧ ∀ f ∈ fields, f = spec
  | .repeatedBy index spec, fields =>
    readCount operands index = .ok fields.length ∧ ∀ f ∈ fields, f = spec
  | spec, fields => fields = [spec]

def Fits : List Json → List FieldSpec → List Origin → Prop
  | _, [], rs => rs = []
  | operands, spec :: rest, rs =>
    ∃ front back, rs = front ++ back ∧ spec.Takes operands (front.map Origin.field) ∧
      Fits (operands ++ front.map Origin.operand) rest back

variable {page : CodePage} {image : Image} {operands : List Json}

theorem isPlain_cases (hs : spec.isPlain = true) :
    spec.isScalar = true ∨ (∃ c inner, spec = .repeated (.whole c) inner ∧ inner.isScalar = true) ∨
      ∃ i inner, spec = .repeatedBy (.whole i) inner ∧ inner.isScalar = true := by
  unfold isPlain at hs
  split at hs
  · exact .inr (.inl ⟨_, _, rfl, hs⟩)
  · exact .inr (.inr ⟨_, _, rfl, hs⟩)
  · exact .inl hs

theorem read_int {w : Width} (h : (int w).read page image operands n = .ok (v, next)) :
    ∃ value, v = .str (write (.int w value)) ∧
      Field.readInt w image n = .ok (value, next) := by
  cases hr : Field.readInt w image n with
  | error fault => simp [read, readWith, textResult, Field.intOperand_eq, Except.map, hr] at h
  | ok r =>
    simp only [read, readWith, textResult, Field.intOperand_eq, Except.map, hr, ok.injEq,
      Prod.mk.injEq] at h
    exact ⟨r.1, h.1.symm, by rw [← h.2]⟩

theorem read_text (h : text.read page image operands n = .ok (v, next)) :
    ∃ s, v = .str s ∧ Field.readText page image n = .ok (s, next) := by
  cases hr : Field.readText page image n with
  | error fault => simp [read, readWith, textResult, hr] at h
  | ok r =>
    simp only [read, readWith, textResult, hr, ok.injEq, Prod.mk.injEq] at h
    exact ⟨r.1, h.1.symm, by rw [← h.2]⟩

theorem repeatRead_succ {k : Nat} {offset : Int}
    (h : repeatRead read (k + 1) offset = .ok (items, next)) :
    ∃ v stop rest, read offset = .ok (v, stop) ∧ repeatRead read k stop = .ok (rest, next) ∧
      items = v :: rest := by
  rw [repeatRead] at h
  split at h
  · cases h
  · next hr =>
    split at h
    · cases h
    · next hrest =>
      cases h
      exact ⟨_, _, _, hr, hrest, rfl⟩

theorem listResult_ok {r : Except FieldHalt (List Json × Int)} (h : listResult r = .ok (v, next)) :
    ∃ items, v = .arr items ∧ r = .ok (items, next) := by
  cases r with
  | error halt => simp [listResult] at h
  | ok r =>
    simp only [listResult, ok.injEq, Prod.mk.injEq] at h
    exact ⟨r.1, h.1.symm, by rw [← h.2]⟩

section

variable (hs : spec.isScalar = true)
include hs

theorem read_scalar (h : spec.read page image operands n = .ok (v, next)) :
    Passed page image n next [v] [⟨spec, v, image.slice n next⟩] := by
  have one : ∀ m : Nat, next = m → n ≤ m → Origin.Read page ⟨spec, v, image.span n m⟩ →
      (m ≤ image.size → Origin.Whole ⟨spec, v, image.span n m⟩) →
      Passed page image n next [v] [⟨spec, v, image.slice n next⟩] := by
    rintro m rfl hn hr hwhole
    rw [Image.slice_eq_span]
    exact ⟨⟨m, rfl, hn, rfl, by simp, by simpa using hr⟩, by simpa using hwhole⟩
  unfold isScalar at hs
  split at hs
  · next w =>
    obtain ⟨value, rfl, hr⟩ := read_int h
    obtain ⟨hstop, hfits, henc⟩ := Field.readInt_spec w image n value next hr
    exact one (n + w.size) hstop (by omega) ⟨value, rfl, hfits, henc.symm⟩ fun _ => nofun
  · obtain ⟨s, rfl, hr⟩ := read_text h
    obtain ⟨m, bytes, hm, hn, -, hspan, hdec⟩ := Field.readText_spec page image n s next hr
    exact one m hm hn ⟨s, bytes, rfl, hspan, hdec⟩ fun _ => nofun
  · next length =>
    obtain ⟨k, rfl⟩ := Int.eq_ofNat_of_zero_le (of_decide_eq_true hs)
    simp only [read, readWith, textResult, readSlice, Field.bytesOperand_eq, ok.injEq,
      Prod.mk.injEq] at h
    refine one (n + k) (by rw [← h.2]; simp) (by omega) ?_ fun hsize => ?_
    · rw [← Int.natCast_add, Image.slice_eq_span] at h
      exact h.1.symm
    · rintro _ ⟨⟩
      simp [Image.length_span _ _ _ hsize]
  · cases hs

theorem read_times (k n : Nat)
    (h : repeatRead (spec.readWith page image operands []) k n = .ok (items, next)) :
    Passed page image n next items (spec.originsTimes page image operands k n) ∧
      (spec.originsTimes page image operands k n).map Origin.field = List.replicate k spec := by
  induction k generalizing n items with
  | zero =>
    obtain ⟨rfl, rfl⟩ := h
    exact ⟨⟨⟨n, rfl, Nat.le_refl n, .nil n⟩, by simp [originsTimes]⟩, rfl⟩
  | succ k ih =>
    obtain ⟨v, stop, rest, hr, hrest, rfl⟩ := repeatRead_succ h
    obtain ⟨⟨b, rfl, hb, hv⟩, hwhole⟩ := read_scalar hs hr
    obtain ⟨⟨⟨m, rfl, hm, htail⟩, hwholes⟩, hfields⟩ := ih b hrest
    have horigins : spec.originsTimes page image operands (k + 1) n =
        ⟨spec, v, image.slice n b⟩ :: spec.originsTimes page image operands k b := by
      simp [originsTimes, read, hr]
    rw [horigins]
    refine ⟨⟨⟨m, rfl, by omega, Traced.append hb hm hv htail⟩, fun hsize => ?_⟩, ?_⟩
    · exact forall_mem_cons.mpr ⟨hwhole (by omega) _ (mem_singleton_self _), hwholes hsize⟩
    · simp [hfields, replicate_succ]

theorem read_repeated (k n : Nat)
    (h : listResult (repeatRead (spec.readWith page image operands []) k n) = .ok (v, next)) :
    Passed page image n next (spread v) (spec.originsTimes page image operands k n) ∧
      (spec.originsTimes page image operands k n).map Origin.field = List.replicate k spec := by
  obtain ⟨items, rfl, hr⟩ := listResult_ok h
  exact read_times hs k n hr

theorem spread_of_read_scalar (h : spec.read page image operands n = .ok (v, next)) :
    spread v = [v] := by
  obtain ⟨m, -, -, ht⟩ := (read_scalar hs h).traced
  have hr := ht.read _ (mem_singleton_self _)
  unfold Origin.Read at hr
  dsimp only at hr
  split at hr
  · obtain ⟨value, rfl, -⟩ := hr
    rfl
  · obtain ⟨s, bytes, rfl, -⟩ := hr
    rfl
  · rw [hr]
    rfl

end

theorem read_plain (hs : spec.isPlain = true)
    (h : spec.read page image operands n = .ok (v, next)) :
    Passed page image n next (spread v) (spec.origins page image operands n) ∧
      spec.Takes operands ((spec.origins page image operands n).map Origin.field) := by
  rcases isPlain_cases hs with hs | ⟨c, inner, rfl, hs⟩ | ⟨i, inner, rfl, hs⟩
  · have horigins : spec.origins page image operands n = [⟨spec, v, image.slice n next⟩] := by
      cases spec with
      | repeated | repeatedBy => cases hs
      | _ => simp [origins, originsTimes, h]
    rw [horigins, spread_of_read_scalar hs h]
    refine ⟨read_scalar hs h, ?_⟩
    cases spec with
    | repeated | repeatedBy => cases hs
    | _ => exact rfl
  · obtain ⟨hpassed, hfields⟩ := read_repeated hs c.toNat n h
    refine ⟨hpassed, ?_⟩
    rw [origins, FieldArgument.times, hfields]
    exact ⟨by rw [length_replicate]; rfl, fun _ => eq_of_mem_replicate⟩
  · simp only [read, readWith] at h
    cases hc : readCount operands (.whole i) with
    | error fault => simp [hc] at h
    | ok k =>
      simp only [hc] at h
      obtain ⟨hpassed, hfields⟩ := read_repeated hs k n h
      simp only [origins, hc, hfields]
      exact ⟨hpassed, by rw [length_replicate, hc], fun _ => eq_of_mem_replicate⟩

theorem textResult_ne_stopped (r : Except Fault (String × Int)) :
    textResult r ≠ .error .stopped := by
  cases r <;> simp [textResult]

def Stops (operands : List Json) : FieldSpec → Prop
  | .stop => True
  | .given [] spec => spec.Stops operands
  | .repeated count spec => 0 < count.times ∧ spec.Stops operands
  | .repeatedBy index spec =>
    (∃ k, readCount operands index = .ok (k + 1)) ∧ spec.Stops operands
  | _ => False

theorem repeatRead_stopped_iff {P : Prop} (hread : ∀ offset, read offset = .error .stopped ↔ P)
    (k : Nat) (offset : Int) :
    listResult (repeatRead read k offset) = .error .stopped ↔ 0 < k ∧ P := by
  induction k generalizing offset with
  | zero => simp [repeatRead, listResult]
  | succ k ih =>
    rw [repeatRead]
    cases hr : read offset with
    | error halt =>
      rw [← hread offset, hr]
      simp [listResult]
    | ok r =>
      have hP : ¬ P := by
        rw [← hread offset, hr]
        simp
      have hrest := ih r.2
      dsimp only
      cases hq : repeatRead read k r.2 with
      | error halt =>
        rw [hq] at hrest
        simpa [listResult, hP] using hrest
      | ok q => simp [listResult, hP]

theorem readWith_stopped_iff (spec : FieldSpec) (offset : Int) :
    spec.readWith page image operands [] offset = .error .stopped ↔ spec.Stops operands := by
  induction spec generalizing offset with
  | int w => simpa [readWith, Stops] using textResult_ne_stopped _
  | text => simpa [readWith, Stops] using textResult_ne_stopped _
  | slice => simpa [readWith, Stops] using textResult_ne_stopped _
  | stop => simp [readWith, Stops]
  | key kind => simp [readWith, Stops]
  | repeated count spec ih =>
    rw [readWith, Stops]
    cases count with
    | other kind => simp [statedCount, FieldArgument.times]
    | whole c => exact repeatRead_stopped_iff ih c.toNat offset
  | repeatedBy index spec ih =>
    rw [readWith, Stops]
    cases hc : readCount operands index with
    | error fault => simp
    | ok k =>
      have hpos : (∃ m, (ok k : Except Fault Nat) = .ok (m + 1)) ↔ 0 < k := by
        simp only [ok.injEq]
        constructor
        · omega
        · intro hk
          exact ⟨k - 1, by omega⟩
      rw [hpos]
      exact repeatRead_stopped_iff ih k offset
  | given arguments spec ih =>
    cases arguments with
    | nil => exact ih offset
    | cons a more =>
      cases spec with
      | slice => simpa [readWith, Stops] using textResult_ne_stopped _
      | _ => simp [readWith, Stops]

theorem not_stops_of_isScalar (hs : spec.isScalar = true) : ¬ spec.Stops operands := by
  unfold isScalar at hs
  split at hs
  · exact id
  · exact id
  · exact id
  · cases hs

theorem read_ne_stopped (hs : spec.isPlain = true) (offset : Int) :
    spec.read page image operands offset ≠ .error .stopped := by
  rw [read, ne_eq, readWith_stopped_iff]
  rcases isPlain_cases hs with hs | ⟨c, inner, rfl, hs⟩ | ⟨i, inner, rfl, hs⟩
  · exact not_stops_of_isScalar hs
  · exact fun h => not_stops_of_isScalar hs h.2
  · exact fun h => not_stops_of_isScalar hs h.2

end FieldSpec

theorem readFields_spec {page : CodePage} {image : Image} (specs : List FieldSpec)
    (hs : ∀ spec ∈ specs, spec.isPlain = true) (operands : List Json) (n : Nat)
    (h : (readFields page image operands n specs).halt = none) :
    ∃ more, (readFields page image operands n specs).operands = operands ++ more ∧
      Passed page image n (readFields page image operands n specs).offset more
        (fieldOrigins page image operands n specs) ∧
      Fits operands specs (fieldOrigins page image operands n specs) := by
  induction specs generalizing operands n with
  | nil =>
    exact ⟨[], by simp [readFields], ⟨⟨n, rfl, Nat.le_refl n, .nil n⟩, by simp [fieldOrigins]⟩, rfl⟩
  | cons spec rest ih =>
    cases hr : spec.read page image operands n with
    | error halt => simp [readFields, hr] at h
    | ok r =>
      obtain ⟨v, next⟩ := r
      simp only [readFields, fieldOrigins, hr] at h ⊢
      obtain ⟨⟨⟨b, rfl, hb, hv⟩, hwhole⟩, htakes⟩ := read_plain (hs spec (by simp)) hr
      obtain ⟨more, hmore, ⟨⟨m, hm, hbm, ht⟩, hwholes⟩, hfits⟩ :=
        ih (fun s hmem => hs s (by simp [hmem])) (operands ++ spread v) b h
      refine ⟨spread v ++ more, by rw [hmore, append_assoc], ⟨⟨m, hm, by omega,
        Traced.append hb hbm hv ht⟩, fun hsize => ?_⟩, _, _, rfl, htakes, ?_⟩
      · exact forall_mem_append.mpr ⟨hwhole (by omega), hwholes hsize⟩
      · rwa [hv.operands_eq]

theorem readFields_ne_stopped {page : CodePage} {image : Image} (specs : List FieldSpec)
    (hs : ∀ spec ∈ specs, spec.isPlain = true) (operands : List Json) (offset : Int) :
    (readFields page image operands offset specs).halt ≠ some .stopped := by
  induction specs generalizing operands offset with
  | nil => simp [readFields]
  | cons spec rest ih =>
    have hne := @read_ne_stopped spec page image operands (hs spec (by simp)) offset
    rw [readFields]
    cases hr : spec.read page image operands offset with
    | error halt =>
      rw [hr] at hne
      simpa using hne
    | ok r => exact ih (fun s hmem => hs s (by simp [hmem])) _ _

end SceneText
