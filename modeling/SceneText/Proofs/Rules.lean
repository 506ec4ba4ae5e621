import SceneText.Proofs.Entries

/-!
# Jump rules

The jumps of scene scripts are moved by a chain of tests on the signature text, and those of any
script by a table of rules. With the rules of scene scripts both move the same operands in the same
order, and where one ends with a fault the other ends with the same. An operand without a new offset
is refused exactly where all moves before it have succeeded; what is shown is its entry with these
moves made.
-/

namespace SceneText

open Json Opcodes Fault Operand

variable {v entry : Json} {fault : Fault}

def Fault.isLostJump : Fault → Bool
  | .refused (.lostJump _ _ _) => true
  | _ => false

theorem Json.field_fault {key : String} (h : v.field key = .error fault) :
    fault.isLostJump = false := by
  unfold field at h
  split at h
  · split at h
    · cases h
    · cases h
      rfl
  all_goals
    cases h
    rfl

theorem Json.item_fault {i : Int} (h : v.item i = .error fault) : fault.isLostJump = false := by
  unfold item at h
  split at h
  · split at h
    · cases h
    · cases h
      rfl
  · split at h
    · cases h
    · cases h
      rfl
  all_goals
    cases h
    rfl

theorem Json.select_fault {key : Json} (h : v.select key = .error fault) :
    fault.isLostJump = false := by
  unfold select at h
  split at h
  · exact field_fault h
  case h_5 => exact item_fault h
  all_goals
    cases h
    rfl

theorem Json.put_fault {x : Json} {key : String} (h : v.put key x = .error fault) :
    fault.isLostJump = false := by
  unfold put at h
  split at h <;> cases h <;> rfl

theorem Json.assign_fault {key x : Json} (h : v.assign key x = .error fault) :
    fault.isLostJump = false := by
  unfold assign at h
  split at h
  · exact put_fault h
  · unfold putItem at h
    split at h
    · split at h
      · cases h
      · cases h
        rfl
    · cases h
    · cases h
      rfl
  · cases h
    rfl

theorem Operand.ofJson_fault (h : ofJson v = .error fault) : fault.isLostJump = false := by
  cases v with
  | str s =>
    rw [ofJson, read] at h
    split at h
    · cases h
    · split at h
      · split at h
        · split at h
          · cases h
          · cases h
            rfl
        · cases h
          rfl
      · split at h
        · split at h
          · cases h
          · cases h
            rfl
        · cases h
  | _ =>
    cases h
    rfl

theorem Operand.writeAs_fault {tag : String} {d : Datum} (h : writeAs tag d = .error fault) :
    fault.isLostJump = false := by
  unfold writeAs at h
  split at h
  · split at h <;> cases h
    rfl
  · split at h <;> cases h
    rfl
  · split at h
    · split at h <;> cases h
      rfl
    · cases h
      rfl

namespace Listing

def operandAt (entry index : Json) : Except Fault Operand := do
  let value ← entry.field "value"
  ofJson (← value.select index)

theorem JumpRule.indices_fault {rule : JumpRule} (h : rule.indices entry = .error fault) :
    fault.isLostJump = false := by
  cases rule with
  | «at» items =>
    change items.elements = _ at h
    unfold elements at h
    split at h <;> cases h
    rfl
  | all =>
    rcases bind_error h with hfield | ⟨value, -, hsize⟩
    · exact field_fault hfield
    · rcases bind_error hsize with hsize | ⟨count, -, hpure⟩
      · unfold size at hsize
        split at hsize <;> cases hsize
        rfl
      · cases hpure

section refusal

variable {file name shown target : String} {moves : Moves} {rules : List (String × JumpRule)}

theorem moveOperand_lost_iff {index : Json} :
    moveOperand file moves entry index = .error (.refused (.lostJump name shown target)) ↔
      name = file ∧ ∃ operand, operandAt entry index = .ok operand ∧
        moves.target? operand.datum = none ∧ shown = entry.literal ∧
        target = operand.datum.shown := by
  have hlost : (refused (.lostJump name shown target)).isLostJump = true := rfl
  constructor
  · intro h
    rcases bind_error h with hfield | ⟨value, hvalue, h⟩
    · cases hlost.symm.trans (field_fault hfield)
    rcases bind_error h with hselect | ⟨v, hv, h⟩
    · cases hlost.symm.trans (select_fault hselect)
    rcases bind_error h with hread | ⟨operand, hoperand, h⟩
    · cases hlost.symm.trans (ofJson_fault hread)
    have hat : operandAt entry index = .ok operand := by
      simp only [operandAt, hvalue, hv, hoperand, bind, Except.bind]
    cases htarget : moves.target? operand.datum with
    | none =>
      simp only [htarget, Except.error.injEq, refused.injEq, Refusal.lostJump.injEq] at h
      obtain ⟨rfl, rfl, rfl⟩ := h
      exact ⟨rfl, operand, hat, htarget, rfl, rfl⟩
    | some new =>
      simp only [htarget] at h
      rcases bind_error h with hwrite | ⟨text, -, h⟩
      · cases hlost.symm.trans (writeAs_fault hwrite)
      rcases bind_error h with hassign | ⟨changed, -, hput⟩
      · cases hlost.symm.trans (assign_fault hassign)
      · cases hlost.symm.trans (put_fault hput)
  · rintro ⟨rfl, operand, hat, htarget, rfl, rfl⟩
    obtain ⟨value, hvalue, hat⟩ := bind_ok hat
    obtain ⟨v, hv, hoperand⟩ := bind_ok hat
    simp only [moveOperand, hvalue, hv, hoperand, htarget, bind, Except.bind]

theorem moveOperands_append (done rest : List Json) (entry : Json) :
    moveOperands file moves (done ++ rest) entry =
      (moveOperands file moves done entry).bind (moveOperands file moves rest) := by
  induction done generalizing entry with
  | nil => rfl
  | cons index done ih =>
    rw [List.cons_append, moveOperands, moveOperands]
    cases moveOperand file moves entry index with
    | error fault => rfl
    | ok moved => exact ih moved

structure StuckAt (file : String) (moves : Moves) (indices : List Json) (entry partly : Json)
    (operand : Operand) : Prop where
  reached : ∃ done index rest, indices = done ++ index :: rest ∧
    moveOperands file moves done entry = .ok partly ∧ operandAt partly index = .ok operand
  lost : moves.target? operand.datum = none

theorem moveOperands_lost_iff {indices : List Json} :
    moveOperands file moves indices entry = .error (.refused (.lostJump name shown target)) ↔
      name = file ∧ ∃ partly operand, StuckAt file moves indices entry partly operand ∧
        shown = partly.literal ∧ target = operand.datum.shown := by
  constructor
  · intro h
    induction indices generalizing entry with
    | nil => cases h
    | cons index rest ih =>
      rw [moveOperands] at h
      cases hmove : moveOperand file moves entry index with
      | error fault =>
        rw [hmove] at h
        cases h
        obtain ⟨rfl, operand, hat, hnone, rfl, rfl⟩ := moveOperand_lost_iff.mp hmove
        exact ⟨rfl, entry, operand, ⟨⟨[], index, rest, rfl, rfl, hat⟩, hnone⟩, rfl, rfl⟩
      | ok moved =>
        rw [hmove] at h
        obtain ⟨rfl, partly, operand, ⟨⟨done, j, more, rfl, hdone, hat⟩, hnone⟩, rfl, rfl⟩ := ih h
        refine ⟨rfl, partly, operand, ⟨⟨index :: done, j, more, rfl, ?_, hat⟩, hnone⟩, rfl, rfl⟩
        rw [moveOperands, hmove]
        exact hdone
  · rintro ⟨rfl, partly, operand, ⟨⟨done, index, rest, rfl, hdone, hat⟩, hnone⟩, rfl, rfl⟩
    have hlost : moveOperand name moves partly index =
        .error (.refused (.lostJump name partly.literal operand.datum.shown)) :=
      moveOperand_lost_iff.mpr ⟨rfl, operand, hat, hnone, rfl, rfl⟩
    rw [moveOperands_append, hdone]
    change moveOperands name moves (index :: rest) partly = _
    rw [moveOperands, hlost]

theorem relocateEntry_of_rule {op : String} {rule : JumpRule}
    (hop : entry.field "op" = .ok (.str op)) (hrule : rules.lookup op = some rule) :
    relocateEntry file moves rules entry =
      (rule.indices entry).bind fun indices => moveOperands file moves indices entry := by
  simp only [relocateEntry, hop, hrule, asKey, bind, Except.bind]

/-- Moving the jumps of a listing comes to an operand without a new offset, in an entry before which
all jumps have been moved. -/
structure Stuck (file : String) (moves : Moves) (rules : List (String × JumpRule))
    (entries : List Json) (partly : Json) (operand : Operand) : Prop where
  reached : ∃ front entry back op rule indices, entries = front ++ entry :: back ∧
    (∀ e ∈ front, ∃ moved, relocateEntry file moves rules e = .ok moved) ∧
    entry.field "op" = .ok (.str op) ∧ rules.lookup op = some rule ∧
    rule.indices entry = .ok indices ∧ StuckAt file moves indices entry partly operand

theorem relocateEntry_lost_iff :
    relocateEntry file moves rules entry = .error (.refused (.lostJump name shown target)) ↔
      ∃ op rule indices, entry.field "op" = .ok (.str op) ∧ rules.lookup op = some rule ∧
        rule.indices entry = .ok indices ∧
        moveOperands file moves indices entry =
          .error (.refused (.lostJump name shown target)) := by
  have hlost : (refused (.lostJump name shown target)).isLostJump = true := rfl
  constructor
  · intro h
    rcases bind_error h with hfield | ⟨v, hop, h'⟩
    · cases hlost.symm.trans (field_fault hfield)
    cases v with
    | str op =>
      cases hrule : rules.lookup op with
      | none => simp [asKey, hrule, bind, Except.bind, pure, Except.pure] at h'
      | some rule =>
        rw [relocateEntry_of_rule hop hrule] at h
        rcases bind_error h with hindices | ⟨indices, hindices, h⟩
        · cases hlost.symm.trans (JumpRule.indices_fault hindices)
        · exact ⟨op, rule, indices, hop, hrule, hindices, h⟩
    | _ => simp [asKey, bind, Except.bind, pure, Except.pure] at h'
  · rintro ⟨op, rule, indices, hop, hrule, hindices, h⟩
    rw [relocateEntry_of_rule hop hrule, hindices]
    exact h

theorem relocate_eq_mapM (entries : List Json) :
    relocate file moves rules entries = entries.mapM (relocateEntry file moves rules) := by
  induction entries with
  | nil => rfl
  | cons entry entries ih =>
    rw [relocate, List.mapM_cons, ih]
    cases relocateEntry file moves rules entry with
    | error fault => rfl
    | ok moved => cases entries.mapM (relocateEntry file moves rules) <;> rfl

theorem relocate_lost_iff {entries : List Json} :
    relocate file moves rules entries = .error (.refused (.lostJump name shown target)) ↔
      name = file ∧ ∃ partly operand, Stuck file moves rules entries partly operand ∧
        shown = partly.literal ∧ target = operand.datum.shown := by
  rw [relocate_eq_mapM, mapM_error_iff]
  constructor
  · rintro ⟨front, entry, back, rfl, hfront, herror⟩
    obtain ⟨op, rule, indices, hop, hrule, hindices, h⟩ := relocateEntry_lost_iff.mp herror
    obtain ⟨rfl, partly, operand, hstuck, rfl, rfl⟩ := moveOperands_lost_iff.mp h
    exact ⟨rfl, partly, operand, ⟨⟨front, entry, back, op, rule, indices, rfl, hfront, hop, hrule,
      hindices, hstuck⟩⟩, rfl, rfl⟩
  · rintro ⟨rfl, partly, operand, ⟨⟨front, entry, back, op, rule, indices, rfl, hfront, hop, hrule,
      hindices, hstuck⟩⟩, rfl, rfl⟩
    have hmove := moveOperands_lost_iff.mpr ⟨rfl, partly, operand, hstuck, rfl, rfl⟩
    exact ⟨front, entry, back, rfl, hfront,
      relocateEntry_lost_iff.mpr ⟨op, rule, indices, hop, hrule, hindices, hmove⟩⟩

end refusal

theorem lookup_map_append {α : Type} (key : String) (keys : List String) (v : α)
    (rest : List (String × α)) :
    (keys.map (fun k => (k, v)) ++ rest).lookup key =
      if key ∈ keys then some v else rest.lookup key := by
  induction keys with
  | nil => rfl
  | cons k keys ih =>
    by_cases hk : key = k
    · simp [hk]
    · rw [List.map_cons, List.cons_append, lookup_cons_ne hk, ih]
      simp [hk]

theorem lookup_jumpRules (op : String) :
    jumpRules.lookup op =
      if op ∈ jumps then some .all
      else if op = choice then some (.at (.arr [.int 0, .int 3]))
      else if op = guardedJump then some (.at (.arr [.int 0]))
      else none := by
  rw [jumpRules, lookup_map_append]
  by_cases hchoice : op = Opcodes.choice
  · rw [if_pos hchoice, hchoice, List.lookup_cons_self]
  · rw [if_neg hchoice, lookup_cons_ne hchoice]
    by_cases hguarded : op = guardedJump
    · rw [if_pos hguarded, hguarded, List.lookup_cons_self]
    · rw [if_neg hguarded, lookup_cons_ne hguarded]
      rfl

theorem fixJumps_eq_relocateEntry (file : String) (moves : Moves)
    (h : ∀ v, entry.field "op" = .ok v → ∃ op, v = .str op) :
    fixJumps file moves entry = relocateEntry file moves jumpRules entry := by
  cases hfield : entry.field "op" with
  | error fault => simp only [fixJumps, relocateEntry, hfield, bind, Except.bind]
  | ok v =>
    obtain ⟨op, rfl⟩ := h v hfield
    have hrule := lookup_jumpRules op
    rw [fixJumps_text file moves hfield]
    -- The table is searched in the order of the tests.
    split
    · next hjump =>
      rw [if_pos hjump] at hrule
      rw [relocateEntry_of_rule hfield hrule, JumpRule.indices]
      cases entry.field "value" with
      | error fault => rfl
      | ok value =>
        simp only [bind, Except.bind]
        cases value.size <;> rfl
    · next hjump =>
      rw [if_neg hjump] at hrule
      split
      · next hchoice =>
        rw [if_pos hchoice] at hrule
        rw [relocateEntry_of_rule hfield hrule]
        rfl
      · next hchoice =>
        rw [if_neg hchoice] at hrule
        split
        · next hguarded =>
          rw [if_pos hguarded] at hrule
          rw [relocateEntry_of_rule hfield hrule]
          rfl
        · next hguarded =>
          rw [if_neg hguarded] at hrule
          simp only [relocateEntry, hfield, hrule, asKey, bind, Except.bind, pure, Except.pure]

/-- On a listing whose signatures are texts the chain of tests and the table of rules give the same
listing or the same fault. A jump is refused exactly if all before it could be moved and it has no
new offset, and the refusal shows its entry with these moves made. -/
theorem fixAllJumps_eq_relocate (file : String) (moves : Moves) {entries : List Json}
    (h : ∀ entry ∈ entries, ∀ v, entry.field "op" = .ok v → ∃ op, v = .str op) :
    fixAllJumps file moves entries = relocate file moves Opcodes.jumpRules entries ∧
      ∀ name shown target, fixAllJumps file moves entries =
          .error (.refused (.lostJump name shown target)) ↔
        name = file ∧ ∃ partly operand, Stuck file moves Opcodes.jumpRules entries partly operand ∧
          shown = partly.literal ∧ target = operand.datum.shown := by
  have heq : fixAllJumps file moves entries = relocate file moves Opcodes.jumpRules entries := by
    rw [relocate_eq_mapM, fixAllJumps]
    exact mapM_congr fun entry hmem => fixJumps_eq_relocateEntry file moves (h entry hmem)
  refine ⟨heq, fun name shown target => ?_⟩
  rw [heq]
  exact relocate_lost_iff

def stray : List Json :=
  [.obj [("op", .str "06"), ("value", .arr [.str "u32:1"])],
   .obj [("op", .str "00 FF 03 00"), ("value", .arr [.str "u32:2", .str "u32:1", .str "u32:9"])]]

def strayMoves : Moves := [(.int 1, .int 10), (.int 2, .int 20)]

def strayShown : Json :=
  .obj [("op", .str "00 FF 03 00"), ("value", .arr [.str "u32:20", .str "u32:10", .str "u32:9"])]

theorem stuck_stray : Stuck "a" strayMoves jumpRules stray strayShown (.int .u32 9) where
  reached := by
    refine ⟨[_], _, [], "00 FF 03 00", .all, [.int 0, .int 1, .int 2], rfl, ?_, rfl, rfl, rfl, ?_⟩
    · exact List.forall_mem_singleton.mpr ⟨_, rfl⟩
    · exact ⟨⟨[.int 0, .int 1], .int 2, [], rfl, rfl, rfl⟩, rfl⟩

theorem fixAllJumps_eq_relocate_stray :
    fixAllJumps "a" strayMoves stray = relocate "a" strayMoves Opcodes.jumpRules stray ∧
      fixAllJumps "a" strayMoves stray =
        .error (.refused (.lostJump "a" strayShown.literal "9")) := by
  have hops : ∀ entry ∈ stray, ∀ v, entry.field "op" = .ok v → ∃ op, v = .str op := by
    simp [stray, Json.field]
  obtain ⟨heq, hlost⟩ := fixAllJumps_eq_relocate "a" strayMoves hops
  exact ⟨heq, (hlost _ _ _).mpr ⟨rfl, _, _, stuck_stray, rfl, rfl⟩⟩

end Listing
end SceneText
