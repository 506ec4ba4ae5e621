import SceneText.Json.Nesting
import SceneText.Proofs.Scalars

/-!
# Documents read back

A document whose keys differ and whose whole numbers are not too long is read back from its indented
layout, and every document that has been read is one of these. Its text has no carriage return, so
that nothing changes when it goes through a file.
-/

namespace SceneText.Json

open List

variable {items : List Json} {fields : Fields} {c : Char} {v value : Json}
  {digits rest : List Char}

theorem induction {motive : Json → Prop} (null : motive .null) (bool : ∀ b, motive (.bool b))
    (int : ∀ n, motive (.int n)) (real : ∀ x, motive (.real x)) (str : ∀ s, motive (.str s))
    (arr : ∀ items, (∀ x ∈ items, motive x) → motive (.arr items))
    (obj : ∀ fields, (∀ f ∈ fields, motive f.2) → motive (.obj fields)) : ∀ v, motive v
  | .null => null
  | .bool b => bool b
  | .int n => int n
  | .real x => real x
  | .str s => str s
  | .arr items => arr items fun x _ => induction null bool int real str arr obj x
  | .obj fields => obj fields fun f _ => induction null bool int real str arr obj f.2
termination_by v => sizeOf v
decreasing_by
  · have := sizeOf_lt_of_mem ‹x ∈ items›
    simp only [Json.arr.sizeOf_spec]
    omega
  · have := sizeOf_lt_of_mem ‹f ∈ fields›
    have : sizeOf f.2 < sizeOf f := by
      cases f
      simp only [Prod.mk.sizeOf_spec]
      omega
    simp only [Json.obj.sizeOf_spec]
    omega

mutual

def Regular : Json → Prop
  | .int v => v.natAbs < 10 ^ maxDigits
  | .arr items => RegularItems items
  | .obj fields => (fields.map Prod.fst).Nodup ∧ RegularFields fields
  | _ => True
termination_by structural v => v

def RegularItems : List Json → Prop
  | [] => True
  | x :: rest => Regular x ∧ RegularItems rest
termination_by structural items => items

def RegularFields : Fields → Prop
  | [] => True
  | (_, v) :: rest => Regular v ∧ RegularFields rest
termination_by structural fields => fields

end

theorem regularItems_iff : RegularItems items ↔ ∀ x ∈ items, x.Regular := by
  induction items with
  | nil => simp [RegularItems]
  | cons x items ih => rw [RegularItems, ih, forall_mem_cons]

theorem regularFields_iff : RegularFields fields ↔ ∀ f ∈ fields, f.2.Regular := by
  induction fields with
  | nil => simp [RegularFields]
  | cons f fields ih => rw [RegularFields, ih, forall_mem_cons]

theorem depthItems_le_iff {n : Nat} : depthItems items ≤ n ↔ ∀ x ∈ items, x.depth ≤ n := by
  induction items with
  | nil => simp [depthItems]
  | cons x items ih => rw [depthItems, Nat.max_le, ih, forall_mem_cons]

theorem depthFields_le_iff {n : Nat} : depthFields fields ≤ n ↔ ∀ f ∈ fields, f.2.depth ≤ n := by
  induction fields with
  | nil => simp [depthFields]
  | cons f fields ih => rw [depthFields, Nat.max_le, ih, forall_mem_cons]

theorem skipBlanks_other (pos : Nat) (hc : isBlank c = false) (rest : List Char) :
    skipBlanks pos (c :: rest) = (pos, c :: rest) := by
  simp [skipBlanks, hc]

theorem skipBlanks_replicate (n pos : Nat) (hc : isBlank c = false) (rest : List Char) :
    ∃ pos', skipBlanks pos (List.replicate n ' ' ++ c :: rest) = (pos', c :: rest) := by
  induction n generalizing pos with
  | zero => exact ⟨pos, skipBlanks_other pos hc rest⟩
  | succ n ih =>
    obtain ⟨pos', h⟩ := ih (pos + 1)
    refine ⟨pos', ?_⟩
    rw [replicate_succ, cons_append, skipBlanks, if_pos (by decide), h]

theorem skipBlanks_newline (depth pos : Nat) (hc : isBlank c = false) (rest : List Char) :
    ∃ pos', skipBlanks pos (newline depth ++ c :: rest) = (pos', c :: rest) := by
  obtain ⟨pos', h⟩ := skipBlanks_replicate (2 * depth) (pos + 1) hc rest
  refine ⟨pos', ?_⟩
  rw [newline, cons_append, skipBlanks, if_pos (by decide), h]

def startsScalar (c : Char) : Bool :=
  c = 'n' || c = 't' || c = 'f' || c = 'N' || c = 'I' || c = '-' || isDigit c

theorem startsScalar_other (h : startsScalar c = true) :
    isBlank c = false ∧ c ∉ ['"', '[', '{', ']', '}', '\ufeff'] := by
  have hnone : ∀ d ∈ [' ', '\t', '\n', '\r', '"', '[', '{', ']', '}', '\ufeff'],
      startsScalar d = false := by simp [startsScalar, isDigit]
  have hne : c ∉ [' ', '\t', '\n', '\r', '"', '[', '{', ']', '}', '\ufeff'] := by
    intro hc
    rw [hnone c hc] at h
    cases h
  simp only [mem_cons, not_mem_nil, or_false, not_or] at hne ⊢
  refine ⟨?_, hne.2.2.2.2⟩
  simp [isBlank, hne]

theorem startsScalar_number {text : List Char} {r : NumberToken × Nat × List Char}
    (h : scanNumber text = some r) : ∃ c rest, text = c :: rest ∧ startsScalar c = true := by
  obtain ⟨c, rest, hc, rfl | rfl⟩ := scanNumber_head h
  · exact ⟨c, rest, rfl, by simp [startsScalar, hc]⟩
  · exact ⟨'-', c :: rest, rfl, by decide⟩

def isBare : Json → Bool
  | .null | .bool _ | .int _ | .real _ => true
  | _ => false

theorem writeScalar_head (h : v.isBare = true) :
    ∃ c rest, writeScalar v = c :: rest ∧ startsScalar c = true := by
  cases v with
  | null => exact ⟨'n', _, rfl, by decide⟩
  | bool b =>
    cases b with
    | true => exact ⟨'t', _, rfl, by decide⟩
    | false => exact ⟨'f', _, rfl, by decide⟩
  | int n =>
    obtain ⟨width, hscan⟩ := scanNumber_toString n
    exact startsScalar_number hscan
  | real x =>
    obtain ⟨value, named⟩ := x
    cases value with
    | nan => exact ⟨'N', _, rfl, by decide⟩
    | infinite negative =>
      cases negative with
      | true => exact ⟨'-', _, rfl, by decide⟩
      | false => exact ⟨'I', _, rfl, by decide⟩
    | finite negative m e =>
      obtain ⟨width, hscan⟩ := scanNumber_writeReal ⟨_, named⟩ rfl
      exact startsScalar_number hscan
  | str s => cases h
  | arr items => cases h
  | obj fields => cases h

theorem indentedChars_head (depth : Nat) (v : Json) :
    ∃ c rest, indentedChars depth v = c :: rest ∧ isBlank c = false ∧ c ≠ ']' ∧ c ≠ '\ufeff' := by
  have bare : ∀ v : Json, v.isBare = true →
      ∃ c rest, writeScalar v = c :: rest ∧ isBlank c = false ∧ c ≠ ']' ∧ c ≠ '\ufeff' := by
    intro v h
    obtain ⟨c, rest, htext, hc⟩ := writeScalar_head h
    obtain ⟨hblank, hother⟩ := startsScalar_other hc
    exact ⟨c, rest, htext, hblank, fun h => hother (by simp [h]), fun h => hother (by simp [h])⟩
  cases v with
  | null => exact bare .null rfl
  | bool b => exact bare (.bool b) rfl
  | int n => exact bare (.int n) rfl
  | real x => exact bare (.real x) rfl
  | str s => exact ⟨'"', _, rfl, by decide⟩
  | arr items =>
    cases items with
    | nil => exact ⟨'[', _, rfl, by decide⟩
    | cons x rest => exact ⟨'[', _, rfl, by decide⟩
  | obj fields =>
    cases fields with
    | nil => exact ⟨'{', _, rfl, by decide⟩
    | cons f rest => exact ⟨'{', _, rfl, by decide⟩

def ReadBack (v : Json) : Prop :=
  ∀ (depth fuel pos : Nat) (rest : List Char), Ends rest → (indentedChars depth v).length < fuel →
    ∃ pos', readValue fuel pos (indentedChars depth v ++ rest) = .ok (v, pos', rest)

theorem readValue_bare (h : v.isBare = true) (fuel pos : Nat) (rest : List Char) :
    readValue (fuel + 1) pos (writeScalar v ++ rest) = readScalar pos (writeScalar v ++ rest) := by
  obtain ⟨c, more, htext, hc⟩ := writeScalar_head h
  have hother := (startsScalar_other hc).2
  rw [htext, cons_append, readValue]
  · exact fun _ heq => hother (by simp [(List.cons.inj heq).1])
  · exact fun _ heq => hother (by simp [(List.cons.inj heq).1])
  · exact fun _ heq => hother (by simp [(List.cons.inj heq).1])

theorem readBack_bare (h : v.isBare = true)
    (hchars : ∀ depth, indentedChars depth v = writeScalar v)
    (hscalar : ∀ (pos : Nat) (rest : List Char), Ends rest →
      ∃ pos', readScalar pos (writeScalar v ++ rest) = .ok (v, pos', rest)) : ReadBack v := by
  intro depth fuel pos rest hrest hfuel
  obtain _ | fuel := fuel
  · omega
  rw [hchars, readValue_bare h]
  exact hscalar pos rest hrest

theorem readBack_str (s : String) : ReadBack (.str s) := by
  intro depth fuel pos rest _ hfuel
  obtain _ | fuel := fuel
  · omega
  obtain ⟨pos', h⟩ := readText_text pos s rest
  refine ⟨pos', ?_⟩
  have htext : indentedChars depth (.str s) ++ rest =
      '"' :: (s.toList.flatMap escapedChar ++ '"' :: rest) := by
    simp [indentedChars, writeScalar, writeText]
  rw [htext, readValue, h]

theorem ends_items (depth : Nat) (items : List Json) (rest : List Char) :
    Ends (indentedItems depth items ++ rest) := by
  cases items with
  | nil => simp [Ends, indentedItems, newline]
  | cons x items => simp [Ends, indentedItems]

theorem ends_fields (depth : Nat) (fields : Fields) (rest : List Char) :
    Ends (indentedFields depth fields ++ rest) := by
  cases fields with
  | nil => simp [Ends, indentedFields, newline]
  | cons f fields => simp [Ends, indentedFields]

theorem readItems_indented (depth : Nat) (x : Json) (items : List Json)
    (h : ∀ y ∈ x :: items, ReadBack y) (fuel pos : Nat) (rest : List Char)
    (hfuel : (indentedChars (depth + 1) x ++ indentedItems depth items).length < fuel) :
    ∃ pos', readItems fuel pos
      (indentedChars (depth + 1) x ++ (indentedItems depth items ++ rest)) =
        .ok (x :: items, pos', rest) := by
  -- The reader looks for a comma behind every item, so the first one is taken out of the list.
  induction items generalizing x fuel pos with
  | nil =>
    obtain _ | fuel := fuel
    · omega
    rw [length_append, indentedItems, length_append, length_singleton] at hfuel
    obtain ⟨pos₁, h₁⟩ := h x (by simp) (depth + 1) fuel pos _ (ends_items depth [] rest) (by omega)
    obtain ⟨pos₂, h₂⟩ := @skipBlanks_newline ']' depth pos₁ (by decide) rest
    refine ⟨pos₂ + 1, ?_⟩
    rw [readItems, h₁]
    simp [indentedItems, h₂]
  | cons y items ih =>
    obtain _ | fuel := fuel
    · omega
    rw [length_append, indentedItems, length_cons, append_assoc, length_append] at hfuel
    obtain ⟨pos₁, h₁⟩ :=
      h x (by simp) (depth + 1) fuel pos _ (ends_items depth (y :: items) rest) (by omega)
    obtain ⟨c, more, hy, hblank, -⟩ := indentedChars_head (depth + 1) y
    obtain ⟨pos₂, h₂⟩ := skipBlanks_newline (depth + 1) (pos₁ + 1) hblank
      (more ++ (indentedItems depth items ++ rest))
    obtain ⟨pos₃, h₃⟩ := ih y (fun z hz => h z (by simp [hz])) fuel pos₂ (by omega)
    refine ⟨pos₃, ?_⟩
    have htext : indentedItems depth (y :: items) ++ rest =
        ',' :: (newline (depth + 1) ++ c :: (more ++ (indentedItems depth items ++ rest))) := by
      simp [indentedItems, hy]
    rw [hy, cons_append] at h₃
    rw [readItems, h₁, htext]
    simp only [skipBlanks_other pos₁ (show isBlank ',' = false by decide), h₂, h₃]

theorem setField_new (key : String) (value : Json) (fields : Fields)
    (h : key ∉ fields.map Prod.fst) : setField key value fields = fields ++ [(key, value)] := by
  induction fields with
  | nil => rfl
  | cons f fields ih =>
    rw [map_cons, mem_cons, not_or] at h
    rw [setField, if_neg (Ne.symm h.1), ih h.2, cons_append]

def fieldChars (depth : Nat) (f : String × Json) : List Char :=
  writeText f.1 ++ [':', ' '] ++ indentedChars depth f.2

theorem indentedFields_cons (depth : Nat) (f : String × Json) (fields : Fields) :
    indentedFields depth (f :: fields) =
      ',' :: (newline (depth + 1) ++
        (fieldChars (depth + 1) f ++ indentedFields depth fields)) := by
  simp [indentedFields, fieldChars]

def readMore (fuel : Nat) (fields : Fields) : Nat × List Char → Step Json
  | (pos, '}' :: rest) => .ok (.obj fields, pos + 1, rest)
  | (pos, ',' :: rest) =>
    readFields fuel fields (skipBlanks (pos + 1) rest).1 (skipBlanks (pos + 1) rest).2
  | (pos, _) => .error ⟨.expectingComma, pos⟩

theorem readFields_field (depth : Nat) (f : String × Json) (h : ReadBack f.2)
    (done : Fields) (fuel pos : Nat) (rest : List Char) (hrest : Ends rest)
    (hfuel : (fieldChars depth f).length < fuel + 2) :
    ∃ pos', readFields (fuel + 1) done pos (fieldChars depth f ++ rest) =
      readMore fuel (setField f.1 f.2 done) (skipBlanks pos' rest) := by
  obtain ⟨key, value⟩ := f
  obtain ⟨c, more, hvalue, hblank, -⟩ := indentedChars_head depth value
  obtain ⟨pos₁, h₁⟩ := readText_text pos key (':' :: ' ' :: (indentedChars depth value ++ rest))
  have h₂ := skipBlanks_other pos₁ (show isBlank ':' = false by decide)
    (' ' :: (indentedChars depth value ++ rest))
  obtain ⟨pos₂, h₃⟩ := skipBlanks_replicate 1 (pos₁ + 1) hblank (more ++ rest)
  have hlength : (indentedChars depth value).length < fuel := by
    simp only [fieldChars, writeText, length_append, length_cons] at hfuel
    omega
  obtain ⟨pos₃, h₄⟩ := h depth fuel pos₂ rest hrest hlength
  refine ⟨pos₃, ?_⟩
  have htext : fieldChars depth (key, value) ++ rest = '"' :: (key.toList.flatMap escapedChar ++
        '"' :: ':' :: ' ' :: (indentedChars depth value ++ rest)) := by
    simp [fieldChars, writeText]
  rw [htext, readFields, h₁]
  simp only [h₂]
  rw [hvalue, cons_append] at h₄ ⊢
  simp only [replicate_one, singleton_append] at h₃
  simp only [h₃, h₄]
  rfl

theorem readFields_indented (depth : Nat) (f : String × Json) (fields done : Fields)
    (h : ∀ g ∈ f :: fields, ReadBack g.2)
    (hkeys : ((done ++ f :: fields).map Prod.fst).Nodup) (fuel pos : Nat) (rest : List Char)
    (hfuel : (fieldChars (depth + 1) f ++ indentedFields depth fields).length < fuel) :
    ∃ pos', readFields fuel done pos
      (fieldChars (depth + 1) f ++ (indentedFields depth fields ++ rest)) =
        .ok (.obj (done ++ f :: fields), pos', rest) := by
  induction fields generalizing f done fuel pos with
  | nil =>
    obtain _ | fuel := fuel
    · omega
    rw [length_append] at hfuel
    obtain ⟨pos₁, h₁⟩ := readFields_field (depth + 1) f (h f (by simp)) done fuel pos _
      (ends_fields depth [] rest) (by omega)
    obtain ⟨pos₂, h₂⟩ := @skipBlanks_newline '}' depth pos₁ (by decide) rest
    refine ⟨pos₂ + 1, ?_⟩
    have hnew : f.1 ∉ done.map Prod.fst := by
      rw [map_append, nodup_append] at hkeys
      exact fun hmem => hkeys.2.2 f.1 hmem f.1 (by simp) rfl
    rw [h₁, indentedFields, append_assoc, singleton_append, h₂, setField_new _ _ _ hnew]
    rfl
  | cons g fields ih =>
    obtain _ | fuel := fuel
    · omega
    rw [indentedFields_cons, length_append, length_cons, length_append] at hfuel
    obtain ⟨pos₁, h₁⟩ := readFields_field (depth + 1) f (h f (by simp)) done fuel pos _
      (ends_fields depth (g :: fields) rest) (by omega)
    have hnew : f.1 ∉ done.map Prod.fst := by
      rw [map_append, nodup_append] at hkeys
      exact fun hmem => hkeys.2.2 f.1 hmem f.1 (by simp) rfl
    obtain ⟨more, hg⟩ : ∃ more, fieldChars (depth + 1) g = '"' :: more := ⟨_, rfl⟩
    obtain ⟨pos₂, h₂⟩ := @skipBlanks_newline '"' (depth + 1) (pos₁ + 1) (by decide)
      (more ++ (indentedFields depth fields ++ rest))
    obtain ⟨pos₃, h₃⟩ := ih g (done ++ [f]) (fun k hk => h k (by simp [hk])) (by simpa using hkeys)
      fuel pos₂ (by omega)
    refine ⟨pos₃, ?_⟩
    have htext : indentedFields depth (g :: fields) ++ rest =
        ',' :: (newline (depth + 1) ++ '"' :: (more ++ (indentedFields depth fields ++ rest))) := by
      simp [indentedFields_cons, hg]
    rw [hg, cons_append] at h₃
    rw [h₁, htext, skipBlanks_other pos₁ (show isBlank ',' = false by decide), readMore]
    simp only [h₂, setField_new _ _ _ hnew, h₃, append_assoc, singleton_append]

theorem readBack_arr (items : List Json) (h : ∀ x ∈ items, ReadBack x) : ReadBack (.arr items) := by
  intro depth fuel pos rest _ hfuel
  obtain _ | fuel := fuel
  · omega
  cases items with
  | nil =>
    refine ⟨pos + 2, ?_⟩
    simp [indentedChars, readValue, skipBlanks_other _ (show isBlank ']' = false by decide)]
  | cons x items =>
    obtain ⟨c, more, hx, hblank, hc, -⟩ := indentedChars_head (depth + 1) x
    obtain ⟨pos₁, h₁⟩ := skipBlanks_newline (depth + 1) (pos + 1) hblank
      (more ++ (indentedItems depth items ++ rest))
    simp only [indentedChars, length_cons, length_append] at hfuel
    obtain ⟨pos₂, h₂⟩ := readItems_indented depth x items h fuel pos₁ rest
      (by rw [length_append]; omega)
    refine ⟨pos₂, ?_⟩
    have htext : indentedChars depth (.arr (x :: items)) ++ rest =
        '[' :: (newline (depth + 1) ++ c :: (more ++ (indentedItems depth items ++ rest))) := by
      simp [indentedChars, hx]
    rw [hx, cons_append] at h₂
    rw [htext, readValue, h₁]
    simp [h₂, hc]

theorem readBack_obj (fields : Fields) (hkeys : (fields.map Prod.fst).Nodup)
    (h : ∀ f ∈ fields, ReadBack f.2) : ReadBack (.obj fields) := by
  intro depth fuel pos rest _ hfuel
  obtain _ | fuel := fuel
  · omega
  cases fields with
  | nil =>
    refine ⟨pos + 2, ?_⟩
    simp [indentedChars, readValue, skipBlanks_other _ (show isBlank '}' = false by decide)]
  | cons f fields =>
    obtain ⟨more, hf⟩ : ∃ more, fieldChars (depth + 1) f = '"' :: more := ⟨_, rfl⟩
    obtain ⟨pos₁, h₁⟩ := @skipBlanks_newline '"' (depth + 1) (pos + 1) (by decide)
      (more ++ (indentedFields depth fields ++ rest))
    have hchars : indentedChars depth (.obj (f :: fields)) =
        '{' :: (newline (depth + 1) ++
          (fieldChars (depth + 1) f ++ indentedFields depth fields)) := by
      simp [indentedChars, fieldChars]
    simp only [hchars, length_cons, length_append] at hfuel
    obtain ⟨pos₂, h₂⟩ := readFields_indented depth f fields [] h hkeys fuel pos₁ rest
      (by rw [length_append]; omega)
    refine ⟨pos₂, ?_⟩
    have htext : indentedChars depth (.obj (f :: fields)) ++ rest =
        '{' :: (newline (depth + 1) ++ '"' :: (more ++ (indentedFields depth fields ++ rest))) := by
      simp [hchars, hf]
    rw [hf, cons_append] at h₂
    rw [htext, readValue, h₁]
    simp [h₂]

theorem readBack (v : Json) (hv : v.Regular) : ReadBack v := by
  induction v using induction with
  | null => exact readBack_bare rfl (fun _ => rfl) fun pos rest _ => readScalar_word pos rest rfl
  | bool b =>
    refine readBack_bare rfl (fun _ => rfl) fun pos rest _ => ?_
    cases b with
    | true => exact readScalar_word pos rest rfl
    | false => exact readScalar_word pos rest rfl
  | int n =>
    exact readBack_bare rfl (fun _ => rfl) fun pos _ h => readScalar_int n hv pos h
  | real x => exact readBack_bare rfl (fun _ => rfl) fun pos _ h => readScalar_real x pos h
  | str s => exact readBack_str s
  | arr items ih =>
    exact readBack_arr items fun x hx => ih x hx (regularItems_iff.mp hv x hx)
  | obj fields ih =>
    exact readBack_obj fields hv.1 fun f hf => ih f hf (regularFields_iff.mp hv.2 f hf)

theorem read_indented (v : Json) (hv : v.Regular) : read v.indented.toList = .ok v := by
  obtain ⟨c, more, htext, hblank, -, hmark⟩ := indentedChars_head 0 v
  have hne : ¬c.toNat = 0xfeff := fun h => hmark (Char.toNat_inj.mp h)
  have hlength : (indentedChars 0 v).length < 2 * (indentedChars 0 v).length + 2 := by omega
  obtain ⟨pos, hread⟩ := readBack v hv 0 _ 0 [] (by simp [Ends]) hlength
  rw [append_nil, htext] at hread
  rw [indented, String.toList_ofList, htext]
  simp only [read, hne, if_false, read.readWhole, skipBlanks_other 0 hblank, hread]
  rfl

theorem natOf_lt (h : ∀ c ∈ digits, isDigit c = true) : natOf digits < 10 ^ digits.length := by
  have hfold : ∀ (digits : List Char) (init : Nat), (∀ c ∈ digits, isDigit c = true) →
      digits.foldl (fun n c => 10 * n + (c.toNat - 48)) init < (init + 1) * 10 ^ digits.length := by
    intro digits
    induction digits with
    | nil => simp
    | cons c digits ih =>
      intro init h
      have hc : c.toNat ≤ 57 := by
        have hdigit := h c (by simp)
        simp only [isDigit, Bool.and_eq_true, decide_eq_true_eq] at hdigit
        exact hdigit.2
      calc _ < (10 * init + (c.toNat - 48) + 1) * 10 ^ digits.length :=
            ih _ fun d hd => h d (by simp [hd])
        _ ≤ ((init + 1) * 10) * 10 ^ digits.length := Nat.mul_le_mul_right _ (by omega)
        _ = (init + 1) * 10 ^ (digits.length + 1) := by
            rw [Nat.pow_succ, Nat.mul_assoc, Nat.mul_comm 10]
  simpa [natOf] using hfold digits 0 h

theorem digitsOf_isDigit (body : List Char) : ∀ c ∈ (digitsOf body).1, isDigit c = true := by
  unfold digitsOf
  split
  · simp [isDigit]
  · exact all_eq_true.mp all_takeWhile

theorem scanNumber_whole {text : List Char} {negative : Bool} {width : Nat}
    (h : scanNumber text = some (.whole negative digits, width, rest)) :
    ∀ c ∈ digits, isDigit c = true := by
  rw [scanNumber_eq, numberIn] at h
  split at h
  · cases h
  · dsimp only at h
    split at h
    · cases h
      exact digitsOf_isDigit _
    · cases h

theorem readScalar_regular {pos pos' : Nat} {text : List Char}
    (h : readScalar pos text = .ok (v, pos', rest)) : v.Regular := by
  have hwords : ∀ w ∈ words, w.2.Regular := by
    simp [words, Regular]
  unfold readScalar at h
  split at h
  · next word value hfind =>
    cases h
    exact hwords _ (mem_of_find?_eq_some hfind)
  · split at h
    · cases h
    · next negative digits width rest hscan =>
      split at h
      · cases h
      · next hlen =>
        cases h
        have hlt := natOf_lt (scanNumber_whole hscan)
        have hpow : 10 ^ digits.length ≤ 10 ^ maxDigits :=
          Nat.pow_le_pow_right (by decide) (Nat.le_of_not_lt hlen)
        rw [Regular]
        split <;> omega
    · cases h
      trivial

theorem keys_setField (key : String) (value : Json) (fields : Fields) :
    (setField key value fields).map Prod.fst =
      if key ∈ fields.map Prod.fst then fields.map Prod.fst else fields.map Prod.fst ++ [key] := by
  induction fields with
  | nil => rfl
  | cons f fields ih =>
    obtain ⟨k, v⟩ := f
    rw [setField]
    by_cases hk : k = key
    · simp [hk]
    · rw [if_neg hk, map_cons, ih]
      by_cases hmem : key ∈ fields.map Prod.fst
      · simp [hmem]
      · simp [hmem, Ne.symm hk]

theorem regularFields_setField {key : String} (hvalue : value.Regular) (h : RegularFields fields) :
    RegularFields (setField key value fields) := by
  induction fields with
  | nil => exact ⟨hvalue, trivial⟩
  | cons f fields ih =>
    rw [setField]
    split
    · exact ⟨hvalue, h.2⟩
    · exact ⟨h.1, ih h.2⟩

theorem regular_setField (key : String) (hvalue : value.Regular) (h : (Json.obj fields).Regular) :
    (Json.obj (setField key value fields)).Regular := by
  refine ⟨?_, regularFields_setField hvalue h.2⟩
  rw [keys_setField]
  split
  · exact h.1
  · next hkey => exact nodup_append.mpr ⟨h.1, by simp, by grind⟩

theorem depthFields_setField {key : String} {n : Nat} (hvalue : value.depth ≤ n)
    (h : depthFields fields ≤ n) : depthFields (setField key value fields) ≤ n := by
  induction fields with
  | nil => exact Nat.max_le.mpr ⟨hvalue, h⟩
  | cons f fields ih =>
    obtain ⟨hfirst, hrest⟩ := Nat.max_le.mp h
    rw [setField]
    split
    · exact Nat.max_le.mpr ⟨hvalue, hrest⟩
    · exact Nat.max_le.mpr ⟨hfirst, ih hrest⟩

theorem depth_setText (key : String) {text : String} :
    (obj (setField key (.str text) fields)).depth ≤ (obj fields).depth :=
  Nat.succ_le_succ (depthFields_setField (Nat.zero_le _) (Nat.le_refl _))

structure ReadsRegular (fuel : Nat) : Prop where
  value : ∀ {pos text r}, readValue fuel pos text = .ok r → r.1.Regular
  items : ∀ {pos text r}, readItems fuel pos text = .ok r → RegularItems r.1
  fields : ∀ {fields pos text r}, (Json.obj fields).Regular →
    readFields fuel fields pos text = .ok r → r.1.Regular

namespace ReadsRegular

open List

variable {fuel pos : Nat} {text : List Char} {r : Json × Nat × List Char}

theorem value_succ (ih : ReadsRegular fuel) (h : readValue (fuel + 1) pos text = .ok r) :
    r.1.Regular := by
  rw [readValue.eq_def] at h
  dsimp only at h
  split at h
  · split at h
    · cases h
    · cases h
      trivial
  · split at h
    · cases h
      trivial
    · split at h
      · cases h
      · next hitems =>
        cases h
        exact ih.items hitems
  · split at h
    · cases h
      exact ⟨by simp, trivial⟩
    · have hnone : (Json.obj []).Regular := ⟨by simp, trivial⟩
      exact ih.fields hnone h
  · exact readScalar_regular h

theorem items_succ (ih : ReadsRegular fuel) {r : List Json × Nat × List Char}
    (h : readItems (fuel + 1) pos text = .ok r) : RegularItems r.1 := by
  rw [readItems] at h
  split at h
  · cases h
  · next hvalue =>
    split at h
    · cases h
      exact ⟨ih.value hvalue, trivial⟩
    · dsimp only at h
      split at h
      · cases h
      · next hrest =>
        cases h
        exact ⟨ih.value hvalue, ih.items hrest⟩
    · cases h

theorem fields_succ (ih : ReadsRegular fuel) (hdone : (Json.obj fields).Regular)
    (h : readFields (fuel + 1) fields pos text = .ok r) : r.1.Regular := by
  rw [readFields.eq_def] at h
  dsimp only at h
  split at h
  · split at h
    · cases h
    · split at h
      · split at h
        · cases h
        · next hvalue =>
          have hset := fun key => regular_setField key (ih.value hvalue) hdone
          split at h
          · cases h
            exact hset _
          · exact ih.fields (hset _) h
          · cases h
      · cases h
  · cases h

end ReadsRegular

theorem readsRegular (fuel : Nat) : ReadsRegular fuel := by
  induction fuel with
  | zero =>
    constructor
    · intro pos text r h
      cases h
    · intro pos text r h
      cases h
    · intro fields pos text r _ h
      cases h
  | succ fuel ih => exact ⟨ih.value_succ, ih.items_succ, ih.fields_succ⟩

theorem read_regular {text : List Char} (h : read text = .ok v) : v.Regular := by
  have hwhole : read.readWhole text = .ok v → v.Regular := by
    intro h
    unfold read.readWhole at h
    dsimp only at h
    split at h
    · cases h
    · next hread =>
      split at h
      · cases h
        exact (readsRegular _).value hread
      · cases h
  unfold read at h
  split at h
  · split at h
    · cases h
    · exact hwhole h
  · exact hwhole h

theorem return_not_mem_escaped (c : Char) : '\r' ∉ escapedChar c := by
  by_cases hc : c.toNat < 32
  · have hcontrols : ∀ n < 32, '\r' ∉ escapedChar (Char.ofNat n) := by decide
    rw [← Char.ofNat_toNat c]
    exact hcontrols _ hc
  · have hne : '\r' ≠ c := fun h => hc (by rw [← h]; decide)
    unfold escapedChar
    repeat' split
    all_goals first | contradiction | decide | simpa using hne

theorem return_not_mem_writeText (s : String) : '\r' ∉ writeText s := by
  simp [writeText, return_not_mem_escaped]

theorem return_not_mem_newline (depth : Nat) : '\r' ∉ newline depth := by
  simp [newline]

theorem return_not_mem_items (depth : Nat) (items : List Json)
    (h : ∀ x ∈ items, '\r' ∉ indentedChars (depth + 1) x) : '\r' ∉ indentedItems depth items := by
  induction items with
  | nil => simp [indentedItems, return_not_mem_newline]
  | cons x items ih =>
    simp [indentedItems, return_not_mem_newline, h x, ih fun y hy => h y (by simp [hy])]

theorem return_not_mem_fields (depth : Nat) (fields : Fields)
    (h : ∀ f ∈ fields, '\r' ∉ indentedChars (depth + 1) f.2) :
    '\r' ∉ indentedFields depth fields := by
  induction fields with
  | nil => simp [indentedFields, return_not_mem_newline]
  | cons f fields ih =>
    obtain ⟨key, value⟩ := f
    simp [indentedFields, return_not_mem_newline, return_not_mem_writeText, h (key, value),
      ih fun g hg => h g (by simp [hg])]

theorem return_not_mem_indented (depth : Nat) (v : Json) : '\r' ∉ indentedChars depth v := by
  induction v using induction generalizing depth with
  | null => simp [indentedChars, writeScalar]
  | bool b => cases b <;> simp [indentedChars, writeScalar]
  | int n =>
    obtain ⟨width, hscan⟩ := scanNumber_toString n
    exact return_not_mem_number hscan
  | real x => exact return_not_mem_real x
  | str s => exact return_not_mem_writeText s
  | arr items ih =>
    cases items with
    | nil => simp [indentedChars]
    | cons x items =>
      have hitems := return_not_mem_items depth items fun y hy => ih y (by simp [hy]) _
      simp [indentedChars, return_not_mem_newline, ih x, hitems]
  | obj fields ih =>
    cases fields with
    | nil => simp [indentedChars]
    | cons f fields =>
      have hfields := return_not_mem_fields depth fields fun g hg => ih g (by simp [hg]) _
      simp [indentedChars, return_not_mem_newline, return_not_mem_writeText, ih f, hfields]

end SceneText.Json
