import SceneText.Proofs.Assembly
import SceneText.Proofs.Sentences

/-!
# What putting dialogue back changes

Of a listing only line breaks go, and only the texts of sentences and choices change. Each of these
becomes empty or takes a message between the first one used and the next one. Signatures, offsets
and all other operands remain. Where every sentence has one text, no text is left empty. The line
breaks that go all stand behind a text or a wait, or behind other line breaks.
-/

namespace SceneText.Dialogue

open List Instruction Json
open Fault (bind_ok)

variable {texts v op : Json} {low high low' high' next : Int} {i : Instruction}
  {i' : Instruction} {xs ys : List Instruction} {last : List UInt8} {start : Int}
  {listing : List Json} {single : Prop}

def textPlaces (i : Instruction) : List Nat :=
  if i.opcode = Role.text.signature then [0]
  else if i.opcode = Role.choice.signature then
    List.range' choiceTexts (i.operands.length - choiceTexts)
  else []

def Supplied (texts : Json) (low high : Int) (v : Json) : Prop :=
  v = .str "" ∨ ∃ k, low ≤ k ∧ k < high ∧ messageAt texts k = .ok v

theorem Supplied.mono (h : Supplied texts low high v) (hl : low' ≤ low) (hh : high ≤ high') :
    Supplied texts low' high' v := by
  rcases h with h | ⟨k, hk, hk', h⟩
  · exact .inl h
  · exact .inr ⟨k, by omega, by omega, h⟩

def Said (texts : Json) (low high : Int) (v : Json) : Prop :=
  ∃ k, low ≤ k ∧ k < high ∧ messageAt texts k = .ok v

theorem Said.mono (h : Said texts low high v) (hl : low' ≤ low) (hh : high ≤ high') :
    Said texts low' high' v := by
  obtain ⟨k, hk, hk', h⟩ := h
  exact ⟨k, by omega, by omega, h⟩

structure Refilled (texts : Json) (low high : Int) (i i' : Instruction) : Prop where
  signature_eq : i'.signature = i.signature
  offset_eq : i'.offset = i.offset
  length_eq : i'.operands.length = i.operands.length
  unchanged : ∀ k, k ∉ textPlaces i → i'.operands[k]? = i.operands[k]?
  filled : ∀ k ∈ textPlaces i, ∃ v, i'.operands[k]? = some v ∧ Supplied texts low high v

theorem Refilled.mono (h : Refilled texts low high i i') (hl : low' ≤ low)
    (hh : high ≤ high') : Refilled texts low' high' i i' where
  signature_eq := h.signature_eq
  offset_eq := h.offset_eq
  length_eq := h.length_eq
  unchanged := h.unchanged
  filled k hk := by
    obtain ⟨v, hv, hs⟩ := h.filled k hk
    exact ⟨v, hv, hs.mono hl hh⟩

/-- No text of the instruction is left empty if `single` holds. -/
structure Retold (single : Prop) (texts : Json) (low high : Int) (i i' : Instruction) : Prop
    extends Refilled texts low high i i' where
  told : single → ∀ k ∈ textPlaces i, ∃ v, i'.operands[k]? = some v ∧ Said texts low high v

theorem Retold.mono (h : Retold single texts low high i i') (hl : low' ≤ low) (hh : high ≤ high') :
    Retold single texts low' high' i i' := by
  refine ⟨h.toRefilled.mono hl hh, fun hsingle k hk => ?_⟩
  obtain ⟨v, hv, hsaid⟩ := h.told hsingle k hk
  exact ⟨v, hv, hsaid.mono hl hh⟩

theorem Retold.same (single : Prop) (texts : Json) (low high : Int) (h : textPlaces i = []) :
    Retold single texts low high i i :=
  ⟨⟨rfl, rfl, rfl, fun _ _ => rfl, by simp [h]⟩, by simp [h]⟩

theorem setOperand_ok {k : Nat} (h : setOperand i.toJson k v = .ok op) :
    k < i.operands.length ∧ op = toJson { i with operands := i.operands.set k v } := by
  by_cases hk : k < i.operands.length
  · refine ⟨hk, ?_⟩
    simp [setOperand, i.field_value, putItem, place?, hk, bind, Except.bind,
      i.put_value] at h
    exact h.symm
  · simp [setOperand, i.field_value, putItem, place?, hk, bind, Except.bind] at h

theorem fillChoice_ok {count k : Nat} {next' : Int}
    (h : fillChoice texts count k next i.toJson = .ok (op, next')) :
    next' = next + count ∧ ∃ operands : List Json, op = toJson { i with operands := operands } ∧
      operands.length = i.operands.length ∧
      (∀ j, j ∉ List.range' k count → operands[j]? = i.operands[j]?) ∧
      ∀ j ∈ List.range' k count, ∃ v, operands[j]? = some v ∧ Said texts next next' v := by
  induction count generalizing k next i with
  | zero =>
    obtain ⟨rfl, rfl⟩ := h
    exact ⟨by simp, i.operands, rfl, rfl, fun _ _ => rfl, by simp⟩
  | succ count ih =>
    obtain ⟨v, hm, h⟩ := bind_ok h
    obtain ⟨op', hs, h⟩ := bind_ok h
    obtain ⟨hk, rfl⟩ := setOperand_ok hs
    obtain ⟨hnext, operands, hop, hlen, hsame, hnew⟩ := ih (k := k + 1) h
    have hrange : ∀ j, j ∈ List.range' k (count + 1) ↔ j = k ∨ j ∈ List.range' (k + 1) count :=
      fun j => by rw [range'_succ, mem_cons]
    refine ⟨by omega, operands, hop, by simpa using hlen, ?_, ?_⟩
    · intro j hj
      rw [hrange, not_or] at hj
      rw [hsame j hj.2, getElem?_set_ne (Ne.symm hj.1)]
    · intro j hj
      rcases (hrange j).mp hj with rfl | hj
      · have hout : j ∉ List.range' (j + 1) count := by
          rw [mem_range'_1]
          omega
        refine ⟨v, ?_, next, by omega, by omega, hm⟩
        rw [hsame j hout, getElem?_set_self hk]
      · obtain ⟨w, hw, hsup⟩ := hnew j hj
        exact ⟨w, hw, hsup.mono (by omega) (by omega)⟩

theorem ofSignature_some {s : String} {role : Role} (h : Role.ofSignature? (.str s) = some role) :
    s = role.signature := by
  simpa [isText] using find?_some h

theorem ofSignature_signature (role : Role) :
    Role.ofSignature? (.str role.signature) = some role := by
  cases role <;> decide

theorem textPlaces_text (h : i.opcode = Role.text.signature) : textPlaces i = [0] := by
  simp [textPlaces, h]

theorem textPlaces_choice (h : i.opcode = Role.choice.signature) :
    textPlaces i = List.range' choiceTexts (i.operands.length - choiceTexts) := by
  rw [textPlaces, h, if_neg (by decide), if_pos rfl]

theorem textPlaces_other {i : Instruction} (ht : i.opcode ≠ Role.text.signature)
    (hc : i.opcode ≠ Role.choice.signature) : textPlaces i = [] := by
  rw [textPlaces, if_neg ht, if_neg hc]

theorem refilled_text (h : i.opcode = Role.text.signature) (hlen : 0 < i.operands.length)
    (hv : Supplied texts low high v) :
    Refilled texts low high i { i with operands := i.operands.set 0 v } where
  signature_eq := rfl
  offset_eq := rfl
  length_eq := by simp
  unchanged k hk := by
    rw [textPlaces_text h, mem_singleton] at hk
    exact getElem?_set_ne (Ne.symm hk)
  filled k hk := by
    rw [textPlaces_text h, mem_singleton] at hk
    subst hk
    exact ⟨v, getElem?_set_self hlen, hv⟩

namespace Rebuild

variable {texts : Json} {r r' : Rebuild} {i : Instruction}

inductive Turn (texts : Json) (r : Rebuild) (i : Instruction) : Rebuild → Prop
  | lineBreak {last : Json} (op : i.opcode = Role.lineBreak.signature)
      (behind : r.kept.getLast? = some last) (allowed : breakMayFollow last = .ok true) :
      Turn texts r i r
  | silenced (op : i.opcode = Role.text.signature) (inside : r.inside = true)
      (filled : 0 < i.operands.length) :
      Turn texts r i (r.keep (toJson { i with operands := i.operands.set 0 (.str "") }))
  | first {v : Json} (op : i.opcode = Role.text.signature) (inside : r.inside = false)
      (filled : 0 < i.operands.length) (message : messageAt texts r.next = .ok v) :
      Turn texts r i ⟨true, r.next + 1,
        r.kept ++ [toJson { i with operands := i.operands.set 0 v }]⟩
  | choice {op : Json} {next : Int} (op_eq : i.opcode = Role.choice.signature)
      (inside : r.inside = false)
      (filled : fillChoice texts (i.operands.drop choiceTexts).length choiceTexts r.next i.toJson =
        .ok (op, next)) :
      Turn texts r i ⟨r.inside, next, r.kept ++ [op]⟩
  | sentenceEnd (op : i.opcode = Role.sentenceEnd.signature) :
      Turn texts r i ⟨false, r.next, r.kept ++ [i.toJson]⟩
  | plain (text : i.opcode ≠ Role.text.signature) (choice : i.opcode ≠ Role.choice.signature)
      (lineBreak : i.opcode ≠ Role.lineBreak.signature)
      (sentenceEnd : i.opcode ≠ Role.sentenceEnd.signature) :
      Turn texts r i (r.keep i.toJson)

theorem step_turn (h : r.step texts i.toJson = .ok r') : Turn texts r i r' := by
  obtain ⟨signature, hsig, h⟩ := bind_ok h
  cases i.field_op.symm.trans hsig
  split at h
  · next hrole =>
    have hop := ofSignature_some hrole
    split at h
    · next hinside =>
      obtain ⟨op, hs, h⟩ := bind_ok h
      obtain ⟨hlen, rfl⟩ := setOperand_ok (k := 0) hs
      cases h
      exact .silenced hop hinside hlen
    · next hinside =>
      obtain ⟨v, hm, h⟩ := bind_ok h
      obtain ⟨op, hs, h⟩ := bind_ok h
      obtain ⟨hlen, rfl⟩ := setOperand_ok (k := 0) hs
      cases h
      exact .first hop (by simpa using hinside) hlen hm
  · next hrole =>
    cases h
    exact .sentenceEnd (ofSignature_some hrole)
  · next hrole =>
    split at h
    · cases h
    · next hinside =>
      obtain ⟨value, hvalue, h⟩ := bind_ok h
      cases i.field_value.symm.trans hvalue
      obtain ⟨items, hitems, h⟩ := bind_ok h
      cases hitems
      obtain ⟨result, hf, h⟩ := bind_ok h
      cases h
      exact .choice (ofSignature_some hrole) (by simpa using hinside) hf
  · next hrole =>
    split at h
    · cases h
    · next last hlast =>
      obtain ⟨allowed, hb, h⟩ := bind_ok h
      cases allowed with
      | false => cases h
      | true =>
        cases h
        exact .lineBreak (ofSignature_some hrole) hlast hb
  · next htext hend hchoice hbreak =>
    cases h
    have hne : ∀ role : Role, Role.ofSignature? (.str i.opcode) ≠ some role →
        i.opcode ≠ role.signature := by
      intro role hrole hop
      rw [hop] at hrole
      exact hrole (ofSignature_signature role)
    exact .plain (hne _ htext) (hne _ hchoice) (hne _ hbreak) (hne _ hend)

theorem refilled_choice (hop : i.opcode = Role.choice.signature)
    (h : fillChoice texts (i.operands.drop choiceTexts).length choiceTexts r.next i.toJson =
      .ok (op, next)) :
    r.next ≤ next ∧ ∃ i', op = i'.toJson ∧ Refilled texts r.next next i i' ∧
      ∀ k ∈ textPlaces i, ∃ v, i'.operands[k]? = some v ∧ Said texts r.next next v := by
  obtain ⟨hnext, operands, rfl, hlen, hsame, hnew⟩ := fillChoice_ok h
  rw [length_drop, ← textPlaces_choice hop] at hsame hnew
  refine ⟨by omega, { i with operands := operands }, rfl, ⟨rfl, rfl, hlen, hsame, ?_⟩, hnew⟩
  intro k hk
  obtain ⟨v, hv, hsaid⟩ := hnew k hk
  exact ⟨v, hv, .inr hsaid⟩

def Last (r : Rebuild) (last : List UInt8) : Prop :=
  ∀ op, r.kept.getLast? = some op → ∃ i : Instruction, op = i.toJson ∧ i.signature = last

theorem last_concat {kept : List Json} (hkept : r.kept = kept ++ [i'.toJson])
    (hsig : i'.signature = i.signature) : r.Last i.signature := by
  intro op hop
  rw [hkept, getLast?_concat, Option.some.injEq] at hop
  exact ⟨i', hop.symm, hsig⟩

theorem breakMayFollow_toJson (h : breakMayFollow i.toJson = .ok true) :
    i.signature = [0x08] ∨ i.signature = [0x00] := by
  simp only [breakMayFollow, i.field_op, bind, Except.bind, pure, Except.pure, isText,
    Except.ok.injEq, Bool.or_eq_true, decide_eq_true_eq] at h
  rcases h with h | h
  · exact .inl ((i.opcode_eq_iff [0x08]).mp h)
  · exact .inr ((i.opcode_eq_iff [0x00]).mp h)

theorem step_retold (h : r.step texts i.toJson = .ok r') (hlast : r.Last last)
    (hahead : single → Ahead r.inside (i :: xs)) :
    (single → Ahead r'.inside xs) ∧ r.next ≤ r'.next ∧
      (i.opcode = Role.lineBreak.signature ∧ (last = [0x08] ∨ last = [0x00]) ∧ r' = r ∨
        i.opcode ≠ Role.lineBreak.signature ∧ ∃ i', Retold single texts r.next r'.next i i' ∧
          r'.kept = r.kept ++ [i'.toJson]) := by
  cases step_turn h with
  | lineBreak hop hbehind hallowed =>
    obtain ⟨j, rfl, rfl⟩ := hlast _ hbehind
    exact ⟨fun hsingle => (hahead hsingle).other (by rw [hop]; decide), Int.le_refl _,
      .inl ⟨hop, breakMayFollow_toJson hallowed, rfl⟩⟩
  | silenced hop hinside hlen =>
    have hmany : ¬single := fun hsingle => by simp [((hahead hsingle).text hop).1] at hinside
    exact ⟨fun hsingle => absurd hsingle hmany, Int.le_refl _, .inr ⟨by rw [hop]; decide, _,
      ⟨refilled_text hop hlen (.inl rfl), fun hsingle => absurd hsingle hmany⟩, rfl⟩⟩
  | @first v hop hinside hlen hm =>
    have hsaid : Said texts r.next (r.next + 1) v := ⟨r.next, Int.le_refl _, by omega, hm⟩
    refine ⟨fun hsingle => ((hahead hsingle).text hop).2, by dsimp only; omega,
      .inr ⟨by rw [hop]; decide, _, ⟨refilled_text hop hlen (.inr hsaid), fun _ k hk => ?_⟩, rfl⟩⟩
    rw [textPlaces_text hop, mem_singleton] at hk
    subst hk
    exact ⟨v, getElem?_set_self hlen, hsaid⟩
  | choice hop _ hf =>
    obtain ⟨hle, i', rfl, hfill, htold⟩ := refilled_choice hop hf
    exact ⟨fun hsingle => (hahead hsingle).other (by rw [hop]; decide), hle,
      .inr ⟨by rw [hop]; decide, i', ⟨hfill, fun _ => htold⟩, rfl⟩⟩
  | sentenceEnd hop =>
    have hplaces := @textPlaces_other i (by rw [hop]; decide) (by rw [hop]; decide)
    exact ⟨fun hsingle => (hahead hsingle).sentenceEnd, Int.le_refl _,
      .inr ⟨by rw [hop]; decide, i, .same _ _ _ _ hplaces, rfl⟩⟩
  | plain htext hchoice hbreak hend =>
    exact ⟨fun hsingle => (hahead hsingle).other hend, Int.le_refl _,
      .inr ⟨hbreak, i, .same _ _ _ _ (textPlaces_other htext hchoice), rfl⟩⟩

end Rebuild

def spoken (xs : List Instruction) : List Instruction :=
  xs.filter fun i => i.opcode ≠ Role.lineBreak.signature

inductive Kept (single : Prop) (texts : Json) (low high : Int) :
    List UInt8 → List Instruction → List Instruction → Prop
  | nil (last : List UInt8) : Kept single texts low high last [] []
  | gone {last : List UInt8} {i : Instruction} {xs ys : List Instruction}
      (op : i.opcode = Role.lineBreak.signature) (behind : last = [0x08] ∨ last = [0x00])
      (rest : Kept single texts low high last xs ys) : Kept single texts low high last (i :: xs) ys
  | cons {last : List UInt8} {i i' : Instruction} {xs ys : List Instruction}
      (op : i.opcode ≠ Role.lineBreak.signature) (told : Retold single texts low high i i')
      (rest : Kept single texts low high i.signature xs ys) :
      Kept single texts low high last (i :: xs) (i' :: ys)

theorem Kept.mono (h : Kept single texts low high last xs ys) (hl : low' ≤ low)
    (hh : high ≤ high') :
    Kept single texts low' high' last xs ys := by
  induction h with
  | nil last => exact .nil last
  | gone op behind _ ih => exact .gone op behind ih
  | cons op told _ ih => exact .cons op (told.mono hl hh) ih

theorem Kept.refilled (h : Kept single texts low high last xs ys) :
    List.Forall₂ (Refilled texts low high) (spoken xs) ys := by
  induction h with
  | nil last => exact .nil
  | gone op _ _ ih => rwa [spoken, filter_cons_of_neg (by simpa using op)]
  | cons op told _ ih =>
    rw [spoken, filter_cons_of_pos (by simpa using op)]
    exact .cons told.toRefilled ih

theorem rebuildAll_kept {r r' : Rebuild} (hlast : r.Last last)
    (hahead : single → Ahead r.inside xs)
    (h : rebuildAll texts r (xs.map toJson) = .ok r') :
    r.next ≤ r'.next ∧ ∃ ys : List Instruction, r'.kept = r.kept ++ ys.map toJson ∧
      Kept single texts r.next r'.next last xs ys := by
  induction xs generalizing r last with
  | nil =>
    simp only [map_nil, rebuildAll, Except.ok.injEq] at h
    subst h
    exact ⟨Int.le_refl _, [], by simp, .nil last⟩
  | cons i rest ih =>
    obtain ⟨middle, hs, hrun⟩ := bind_ok h
    obtain ⟨hrest, hle, hstep⟩ := Rebuild.step_retold hs hlast hahead
    rcases hstep with ⟨hop, hbehind, rfl⟩ | ⟨hop, i', htold, hkeep⟩
    · obtain ⟨hle, ys, hkept, hall⟩ := ih hlast hrest hrun
      exact ⟨hle, ys, hkept, .gone hop hbehind hall⟩
    · obtain ⟨hle', ys, hkept, hall⟩ := ih (Rebuild.last_concat hkeep htold.signature_eq) hrest hrun
      refine ⟨by omega, i' :: ys, by rw [hkept, hkeep]; simp, .cons hop ?_ ?_⟩
      · exact htold.mono (Int.le_refl _) hle'
      · exact hall.mono hle (Int.le_refl _)

theorem rebuildAll_of_replace {ops : List Json}
    (h : replace (.arr ops) texts start = .ok (listing, next)) :
    ∃ r, rebuildAll texts { next := start } ops = .ok r ∧ r.kept = listing ∧ r.next = next := by
  obtain ⟨items, hitems, h⟩ := bind_ok h
  cases hitems
  obtain ⟨r, hr, h⟩ := bind_ok h
  cases h
  exact ⟨r, hr, rfl, rfl⟩

theorem replace_kept (h : replace (.arr (xs.map toJson)) texts start = .ok (listing, next)) :
    ∃ ys : List Instruction, listing = ys.map toJson ∧
      Kept (SingleTexts xs) texts start next [] xs ys := by
  obtain ⟨r, hr, rfl, rfl⟩ := rebuildAll_of_replace h
  have hlast : Rebuild.Last { next := start } [] := fun op hop => by cases hop
  obtain ⟨-, ys, hkept, hall⟩ := rebuildAll_kept hlast (fun hsingle => ⟨hsingle, nofun⟩) hr
  exact ⟨ys, by simpa using hkept, hall⟩

end SceneText.Dialogue
