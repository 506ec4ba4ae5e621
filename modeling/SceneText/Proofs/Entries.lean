import SceneText.Proofs.Assembly
import SceneText.Script.Rebuild

/-!
# Entries of a listing

An entry is a record with a signature text, an offset and operands, in any order and among any other
fields. It is stored as its signature and a piece for each operand. Moving its jumps sets operands,
each to the new offset of what it pointed at, and leaves all else in the entry alone; it is refused
at the first operand that points at nothing.
-/

namespace SceneText

open List Json Opcodes Width
open Operand (datum ofJson storeJson writeAs)

variable {op : String} {v entry : Json} {operands : List Json} {pieces : List (List UInt8)}
  {head : List UInt8} {k n p : Nat}

namespace Dialogue

variable {op : Json} {key : String}

def withOperands (op : Json) (operands : List Json) : Json :=
  match op with
  | .obj fields => .obj (setField "value" (.arr operands) fields)
  | v => v

theorem field_withOperands (operands : List Json) (h : key ≠ "value") :
    (withOperands op operands).field key = op.field key := by
  cases op with
  | obj fields => simp only [withOperands, field, lookup_setField, if_neg h]
  | _ => rfl

theorem obj_of_field (h : op.field key = .ok v) :
    ∃ fields, op = .obj fields ∧ fields.lookup key = some v := by
  cases op with
  | obj fields =>
    cases hl : fields.lookup key with
    | none => simp [field, hl] at h
    | some w =>
      simp only [field, hl, Except.ok.injEq] at h
      exact ⟨fields, rfl, by rw [hl, h]⟩
  | _ => cases h

theorem field_value_withOperands (operands : List Json) (h : op.field "value" = .ok v) :
    (withOperands op operands).field "value" = .ok (.arr operands) := by
  obtain ⟨fields, rfl, -⟩ := obj_of_field h
  simp [withOperands, field, lookup_setField]

theorem withOperands_withOperands (op : Json) (operands operands' : List Json) :
    withOperands (withOperands op operands) operands' = withOperands op operands' := by
  cases op with
  | obj fields => simp only [withOperands, setField_setField]
  | _ => rfl

theorem withOperands_same (h : op.field "value" = .ok (.arr operands)) :
    withOperands op operands = op := by
  obtain ⟨fields, rfl, hl⟩ := obj_of_field h
  rw [withOperands, setField_same hl]

end Dialogue

namespace Listing

open Dialogue

structure Made (entry : Json) (head : List UInt8) (operands : List Json)
    (pieces : List (List UInt8)) : Prop where
  signature : signatureOf entry = .ok head
  value : ∃ v, entry.get "value" (.arr []) = .ok v ∧ v.elements = .ok operands
  stored : Stored .script operands pieces

theorem stored_getElem (h : Stored .script operands pieces) (k : Nat) (hk : k < operands.length)
    (hk' : k < pieces.length) : storeJson .script .little operands[k] = .ok pieces[k] :=
  (forall₂_iff_get.mp h).2 k hk hk'

theorem stored_of_storeAll {code : TextCode} {bytes : List UInt8}
    (h : storeAll (storeJson code .little) operands = .ok bytes) :
    ∃ pieces, Stored code operands pieces ∧ bytes = pieces.flatten := by
  induction operands generalizing bytes with
  | nil =>
    cases h
    exact ⟨[], .nil, rfl⟩
  | cons v rest ih =>
    rw [storeAll] at h
    split at h
    · cases h
    · next piece hpiece =>
      split at h
      · cases h
      · next more hmore =>
        cases h
        obtain ⟨pieces, hstored, rfl⟩ := ih hmore
        exact ⟨piece :: pieces, .cons hpiece hstored, flatten_cons.symm⟩

theorem Made.assembleEntry_eq (h : Made entry head operands pieces) :
    assembleEntry .script .little entry = .ok (head ++ pieces.flatten) := by
  obtain ⟨v, hget, helements⟩ := h.value
  simp only [assembleEntry, assembleWith, h.signature, hget, helements, storeAll_pieces h.stored]

theorem made_of_assembleEntry {bytes : List UInt8}
    (h : assembleEntry .script .little entry = .ok bytes) :
    ∃ head operands pieces, Made entry head operands pieces ∧ bytes = head ++ pieces.flatten := by
  unfold assembleEntry assembleWith at h
  split at h
  · cases h
  · next head hhead =>
    split at h
    · cases h
    · next v hget =>
      split at h
      · cases h
      · next operands helements =>
        split at h
        · cases h
        · next stored hstored =>
          cases h
          obtain ⟨pieces, hpieces, rfl⟩ := stored_of_storeAll hstored
          exact ⟨head, operands, pieces, ⟨hhead, ⟨v, hget, helements⟩, hpieces⟩, rfl⟩

theorem Made.exists_opcode (h : Made entry head operands pieces) :
    ∃ op, entry.field "op" = .ok (.str op) := by
  have hsignature := h.signature
  unfold signatureOf at hsignature
  split at hsignature
  · cases hsignature
  · next op hop => exact ⟨op, hop⟩
  · cases hsignature

theorem Made.operands_eq {items : List Json} (h : Made entry head operands pieces)
    (hvalue : entry.field "value" = .ok (.arr items)) : operands = items := by
  obtain ⟨v, hget, helements⟩ := h.value
  obtain ⟨fields, rfl, hlookup⟩ := obj_of_field hvalue
  simp only [Json.get, hlookup, Option.getD_some, Except.ok.injEq] at hget
  subst hget
  exact (Except.ok.inj helements).symm

theorem Made.withOperands {operands' : List Json} {pieces' : List (List UInt8)}
    (h : Made entry head operands pieces) (hvalue : entry.field "value" = .ok v)
    (hstored : Stored .script operands' pieces') :
    Made (withOperands entry operands') head operands' pieces' := by
  obtain ⟨fields, rfl, -⟩ := obj_of_field hvalue
  refine ⟨?_, ⟨.arr operands', ?_, rfl⟩, hstored⟩
  · rw [signatureOf, field_withOperands _ (by decide)]
    exact h.signature
  · simp [Dialogue.withOperands, Json.get, lookup_setField]

def isMoving (op : String) : Bool :=
  op ∈ jumps || op = choice || op = guardedJump

def jumpPlaces (op : String) (count : Nat) : List Nat :=
  if op ∈ jumps then List.range count
  else if op = choice then [0, 3]
  else if op = guardedJump then [0]
  else []

def numberAt? (operands : List Json) (k : Nat) : Option Int :=
  match operands[k]?.map ofJson with
  | some (.ok (.int _ n)) => some n
  | _ => none

/-- The operand at a place holds a number of 32 bits, in whatever spelling. -/
def WordAt (operands : List Json) (k n : Nat) : Prop :=
  ∃ v, operands[k]? = some v ∧ ofJson v = .ok (.int .u32 n)

/-- The jumps of an entry, if it can have any, stand in a list and are numbers of 32 bits. -/
def JumpsTyped (entry : Json) : Prop :=
  ∀ op, entry.field "op" = .ok (.str op) → isMoving op = true →
    ∃ operands, entry.field "value" = .ok (.arr operands) ∧
      ∀ k ∈ jumpPlaces op operands.length, ∃ n, WordAt operands k n

theorem jumpPlaces_nodup (op : String) (count : Nat) : (jumpPlaces op count).Nodup := by
  unfold jumpPlaces
  split
  · exact nodup_range
  · split
    · decide
    · split <;> decide

theorem jumpPlaces_eq_nil (h : isMoving op = false) (count : Nat) : jumpPlaces op count = [] := by
  simp only [isMoving, Bool.or_eq_false_iff, decide_eq_false_iff_not] at h
  rw [jumpPlaces, if_neg h.1.1, if_neg h.1.2, if_neg h.2]

theorem WordAt.lt (h : WordAt operands k n) : n < 2 ^ 32 := by
  obtain ⟨v, -, hread⟩ := h
  exact fits_u32.mp (Operand.fits_of_ofJson hread)

theorem WordAt.numberAt (h : WordAt operands k n) : numberAt? operands k = some (n : Int) := by
  obtain ⟨v, hv, hread⟩ := h
  simp [numberAt?, hv, hread]

theorem WordAt.unique {m : Nat} (h : WordAt operands k n) (h' : WordAt operands k m) : n = m := by
  have heq := h.numberAt.symm.trans h'.numberAt
  exact Int.ofNat.inj (Option.some.inj heq)

theorem wordAt_set {j : Nat} (hne : k ≠ j) (v : Json) :
    WordAt (operands.set k v) j n ↔ WordAt operands j n := by
  rw [WordAt, WordAt, getElem?_set_ne hne]

abbrev Places := Int → Option Nat

def Moves.Follows (moves : Moves) (place : Places) : Prop :=
  ∀ n : Int, moves.target? (.plain (.int n)) = (place n).map fun p => int p

def movedOperand (place : Places) (v : Json) : Json :=
  match ofJson v with
  | .ok (.int w n) => ((place n).map fun p => str (Operand.write (.int w p))).getD v
  | _ => v

def movedAt (place : Places) (ks : List Nat) (operands : List Json) : List Json :=
  operands.mapIdx fun k v => if k ∈ ks then movedOperand place v else v

theorem movedOperand_word {place : Places} {n : Int} (hv : ofJson v = .ok (.int .u32 n))
    (hp : place n = some p) : movedOperand place v = .str (Operand.write (.int .u32 p)) := by
  simp [movedOperand, hv, hp]

theorem movedAt_nil (place : Places) (operands : List Json) :
    movedAt place [] operands = operands := by
  apply ext_getElem <;> simp [movedAt]

theorem movedAt_cons (place : Places) (ks : List Nat) (hk : k ∉ ks) (operands : List Json)
    (h : WordAt operands k n) (hplace : place n = some p) :
    movedAt place ks (operands.set k (.str (Operand.write (.int .u32 p)))) =
      movedAt place (k :: ks) operands := by
  obtain ⟨v, hv, hread⟩ := h
  obtain ⟨hlt, hget⟩ := List.getElem?_eq_some_iff.mp hv
  apply List.ext_getElem
  · simp [movedAt]
  · intro j hj hj'
    by_cases hjk : j = k
    · subst hjk
      simp [movedAt, hk, hget, movedOperand_word hread hplace]
    · simp [movedAt, hjk, Ne.symm hjk]

theorem select_nat (operands : List Json) (k : Nat) (v : Json) (h : operands[k]? = some v) :
    (arr operands).select (.int k) = .ok v := by
  obtain ⟨hk, hv⟩ := List.getElem?_eq_some_iff.mp h
  simp [select, toInt?, item, place?, hk, hv]

theorem assign_nat (operands : List Json) (k : Nat) (v x : Json) (h : operands[k]? = some v) :
    (arr operands).assign (.int k) x = .ok (.arr (operands.set k x)) := by
  obtain ⟨hk, -⟩ := List.getElem?_eq_some_iff.mp h
  simp [assign, toInt?, putItem, place?, hk]

section entry

variable {file : String} {moves : Moves} {place : Places} {entry : Json} {operands : List Json}

section operand

variable {k n : Nat} (hm : moves.Follows place) (hvalue : entry.field "value" = .ok (.arr operands))
  (h : WordAt operands k n)
include hm hvalue h

theorem moveOperand_found (hplace : place n = some p) (hp : p < 2 ^ 32) :
    moveOperand file moves entry (.int k) =
      .ok (withOperands entry (operands.set k (.str (Operand.write (.int .u32 p))))) := by
  obtain ⟨v, hv, hread⟩ := h
  have htarget : moves.target? (.plain (.int n)) = some (.int p) := by
    rw [hm, hplace]
    rfl
  have hwrite := Operand.writeAs_int .u32 p (fits_u32.mpr hp)
  simp only [moveOperand, hvalue, select_nat _ _ _ hv, hread, assign_nat _ _ _ _ hv, bind,
    Except.bind, datum, Operand.tag, htarget, hwrite]
  obtain ⟨fields, rfl, -⟩ := obj_of_field hvalue
  rfl

theorem moveOperand_lost (hplace : place n = none) :
    moveOperand file moves entry (.int k) =
      .error (.refused (.lostJump file entry.literal (int n).shown)) := by
  obtain ⟨v, hv, hread⟩ := h
  have htarget : moves.target? (.plain (.int n)) = none := by
    rw [hm, hplace]
    rfl
  simp only [moveOperand, hvalue, select_nat _ _ _ hv, hread, bind, Except.bind, datum,
    htarget, Datum.shown]

theorem moveOperand_beyond {p : Nat} (hplace : place n = some p) (hp : ¬p < 2 ^ 32) :
    ∃ fault, moveOperand file moves entry (.int k) = .error fault := by
  obtain ⟨v, hv, hread⟩ := h
  have htarget : moves.target? (.plain (.int n)) = some (.int p) := by
    rw [hm, hplace]
    rfl
  have hfits : u32.fits p = false := by
    rw [← Bool.not_eq_true, fits_u32]
    exact hp
  have hwrite : ∃ fault, writeAs u32.name (.plain (.int p)) = .error fault := by
    simp [writeAs, toInt?, ofName_name, hfits]
  obtain ⟨fault, hwrite⟩ := hwrite
  refine ⟨fault, ?_⟩
  simp only [moveOperand, hvalue, select_nat _ _ _ hv, hread, bind, Except.bind, datum,
    Operand.tag, htarget, hwrite]

end operand

/-- Either all the operands point at something near enough and are moved, or the first that does not
has them refused. -/
theorem moveOperands_cases (file : String) (hm : moves.Follows place) (ks : List Nat)
    (hnodup : ks.Nodup) (hvalue : entry.field "value" = .ok (.arr operands))
    (h : ∀ k ∈ ks, ∃ n, WordAt operands k n) :
    (∀ k ∈ ks, ∃ n p : Nat, WordAt operands k n ∧ place n = some p ∧ p < 2 ^ 32) ∧
        moveOperands file moves (ks.map fun k : Nat => int k) entry =
          .ok (withOperands entry (movedAt place ks operands)) ∨
      ∃ k ∈ ks, ∃ (n : Nat) (fault : Fault), WordAt operands k n ∧
        moveOperands file moves (ks.map fun k : Nat => int k) entry = .error fault ∧
        (place n = none ∧ (∃ shown target, fault = .refused (.lostJump file shown target)) ∨
          ∃ p, place n = some p ∧ ¬p < 2 ^ 32) := by
  induction ks generalizing entry operands with
  | nil =>
    refine .inl ⟨by simp, ?_⟩
    rw [movedAt_nil, withOperands_same hvalue]
    rfl
  | cons k ks ih =>
    rw [nodup_cons] at hnodup
    obtain ⟨n, hword⟩ := h k (by simp)
    rw [map_cons, moveOperands]
    cases hp : place n with
    | none =>
      rw [moveOperand_lost hm hvalue hword hp]
      exact .inr ⟨k, by simp, n, _, hword, rfl, .inl ⟨hp, _, _, rfl⟩⟩
    | some p =>
      by_cases hsmall : p < 2 ^ 32
      · have hset : ∀ j ∈ ks, ∀ v m, WordAt (operands.set k v) j m ↔ WordAt operands j m := by
          intro j hj v m
          have hne : k ≠ j := fun e => hnodup.1 (e ▸ hj)
          exact wordAt_set hne v
        rw [moveOperand_found hm hvalue hword hp hsmall]
        rcases ih hnodup.2 (field_value_withOperands (operands.set k _) hvalue) (fun j hj => by
          simpa only [hset j hj] using h j (by simp [hj])) with
          ⟨hall, hrun⟩ | ⟨j, hj, m, fault, hword', hrest⟩
        · refine .inl ⟨forall_mem_cons.mpr ⟨⟨n, p, hword, hp, hsmall⟩, fun j hj => ?_⟩, ?_⟩
          · simpa only [hset j hj] using hall j hj
          · rw [withOperands_withOperands, movedAt_cons place ks hnodup.1 operands hword hp] at hrun
            exact hrun
        · exact .inr ⟨j, by simp [hj], m, fault, (hset j hj _ m).mp hword', hrest⟩
      · obtain ⟨fault, hfault⟩ := @moveOperand_beyond file _ _ _ _ _ _ hm hvalue hword p hp hsmall
        rw [hfault]
        exact .inr ⟨k, by simp, n, fault, hword, rfl, .inr ⟨p, hp, hsmall⟩⟩

theorem fixJumps_text (file : String) (moves : Moves) (hop : entry.field "op" = .ok (.str op)) :
    fixJumps file moves entry =
      if op ∈ jumps then
        (entry.field "value").bind fun value => value.size.bind fun count =>
          moveOperands file moves (indicesBelow count) entry
      else if op = choice then moveOperands file moves [.int 0, .int 3] entry
      else if op = guardedJump then moveOperands file moves [.int 0] entry
      else .ok entry := by
  have hsame (text : String) : (str op).sameKey (.str text) = decide (op = text) := rfl
  have hany : (jumps.any fun text => decide (op = text)) = decide (op ∈ jumps) := by
    simp [any_eq]
  rw [fixJumps, hop]
  simp only [bind, Except.bind, hsame, hany, decide_eq_true_eq]
  rfl

theorem fixJumps_eq (file : String) (moves : Moves) (hop : entry.field "op" = .ok (.str op))
    (hvalue : isMoving op = true → entry.field "value" = .ok (.arr operands)) :
    fixJumps file moves entry =
      moveOperands file moves ((jumpPlaces op operands.length).map fun k : Nat => int k)
        entry := by
  rw [fixJumps_text file moves hop, jumpPlaces]
  split
  · next hjump =>
    rw [hvalue (by simp [isMoving, hjump])]
    rfl
  · split
    · rfl
    · split <;> rfl

end entry
end Listing
end SceneText
