import Mathlib
import SceneText.Tool.Dialogue
import SceneText.Proofs.Entries
import SceneText.Proofs.Files

/-!
# Taking dialogue out and putting it back agree

The lines that are taken out of a listing and the messages that are put back into it go together one
by one. A listing is a sequence of blocks: a sentence, which yields one line and takes one message;
a choice, which yields a line and takes a message for each of its texts; and entries that do
neither. That the scan for lines succeeds shows that the listing has this shape, and on a listing of
this shape the rebuilding can fail at line breaks only.
-/

namespace SceneText.Dialogue

open Json Except List
open Fault (bind_ok)

variable {op texts : Json} {role : Option Role} {t : String} {items ops messages : List Json}
  {scan scan' : Scan} {lines : List Line} {next : Int} {options : List Json}

def roleOf (op : Json) : Except Fault (Option Role) := do
  return Role.ofSignature? (← op.field "op")

inductive Silenced : List Json → String → List Json → Prop
  | nil : Silenced [] "" []
  | text {op : Json} {t text : String} {items body kept : List Json}
      (hrole : roleOf op = .ok (some .text))
      (hvalue : op.field "value" = .ok (.arr (.str t :: items)))
      (rest : Silenced body text kept) :
      Silenced (op :: body) (t ++ text) (withOperands op (.str "" :: items) :: kept)
  | lineBreak {op : Json} {text : String} {body kept : List Json}
      (hrole : roleOf op = .ok (some .lineBreak)) (rest : Silenced body text kept) :
      Silenced (op :: body) text kept
  | other {op : Json} {text : String} {body kept : List Json}
      (hrole : roleOf op = .ok none ∨ roleOf op = .ok (some .speaker))
      (rest : Silenced body text kept) : Silenced (op :: body) text (op :: kept)

/-- A listing, the lines in it, as many messages, and the listing with the messages in place of the
lines and without its line breaks. -/
inductive Exchanged : List Json → List Line → List Json → List Json → Prop
  | nil : Exchanged [] [] [] []
  | other {op : Json} {ops kept messages : List Json} {lines : List Line}
      (hrole : roleOf op = .ok none ∨ roleOf op = .ok (some .speaker) ∨
        roleOf op = .ok (some .sentenceEnd))
      (rest : Exchanged ops lines messages kept) :
      Exchanged (op :: ops) lines messages (op :: kept)
  | lineBreak {op : Json} {ops kept messages : List Json} {lines : List Line}
      (hrole : roleOf op = .ok (some .lineBreak)) (rest : Exchanged ops lines messages kept) :
      Exchanged (op :: ops) lines messages kept
  | sentence {first stop message : Json} {body silenced items ops kept messages : List Json}
      {t text : String} {lines : List Line} (speaker : Option String)
      (hfirst : roleOf first = .ok (some .text))
      (hvalue : first.field "value" = .ok (.arr (.str t :: items)))
      (hbody : Silenced body text silenced) (hstop : roleOf stop = .ok (some .sentenceEnd))
      (rest : Exchanged ops lines messages kept) :
      Exchanged (first :: (body ++ stop :: ops)) (.sentence (t ++ text) speaker :: lines)
        (message :: messages)
        (withOperands first (message :: items) :: (silenced ++ stop :: kept))
  | choice {op : Json} {items options ops kept messages : List Json} {texts : List String}
      {lines : List Line} (hrole : roleOf op = .ok (some .choice))
      (hvalue : op.field "value" = .ok (.arr items))
      (htexts : items.drop choiceTexts = texts.map .str) (hlen : options.length = texts.length)
      (rest : Exchanged ops lines messages kept) :
      Exchanged (op :: ops) (texts.map .option ++ lines) (options ++ messages)
        (withOperands op (items.take choiceTexts ++ options) :: kept)

def mayBreak (op : Json) : Bool :=
  match op.field "op" with
  | .ok signature => signature.isText "08" || signature.isText "00"
  | .error _ => false

/-- Whether every line break stands behind a text or a wait, other line breaks aside. `allowed`
tells whether one may stand first. -/
def breaksFit (allowed : Bool) : List Json → Bool
  | [] => true
  | op :: rest =>
    match roleOf op with
    | .ok (some .lineBreak) => allowed && breaksFit allowed rest
    | _ => breaksFit (mayBreak op) rest

theorem field_of_roleOf (h : roleOf op = .ok role) :
    ∃ v, op.field "op" = .ok v ∧ Role.ofSignature? v = role := by
  obtain ⟨v, hv, h⟩ := bind_ok h
  exact ⟨v, hv, ok.inj h⟩

theorem setOperand_eq {operands : List Json} {k : Nat} (v : Json)
    (h : op.field "value" = .ok (.arr operands)) (hk : k < operands.length) :
    setOperand op k v = .ok (withOperands op (operands.set k v)) := by
  obtain ⟨fields, rfl, -⟩ := obj_of_field h
  simp [setOperand, h, putItem, place?, hk, put, withOperands, bind, Except.bind]

/-- What one entry does to the scan. -/
inductive Scanned (scan : Scan) (op : Json) : Scan → Prop
  | text {v : Json} {t : String} (hrole : roleOf op = .ok (some .text))
      (hvalue : op.field "value" = .ok v) (hitem : v.item 0 = .ok (.str t)) :
      Scanned scan op { scan with open? := some (scan.open?.getD "" ++ t) }
  | sentenceEnd {message : String} (hrole : roleOf op = .ok (some .sentenceEnd))
      (hopen : scan.open? = some message) :
      Scanned scan op
        { scan with open? := none, lines := scan.lines ++ [.sentence message scan.speaker] }
  | choice {v : Json} {items : List Json} {texts : List String}
      (hrole : roleOf op = .ok (some .choice)) (hopen : scan.open? = none)
      (hvalue : op.field "value" = .ok v) (hitems : v.itemsFrom choiceTexts = .ok items)
      (htexts : items = texts.map .str) :
      Scanned scan op { scan with lines := scan.lines ++ texts.map .option }
  | lineBreak (hrole : roleOf op = .ok (some .lineBreak)) : Scanned scan op scan
  | other (speaker : Option String)
      (hrole : roleOf op = .ok none ∨ roleOf op = .ok (some .speaker) ∨
        roleOf op = .ok (some .sentenceEnd) ∧ scan.open? = none) :
      Scanned scan op { scan with speaker := speaker }

theorem checked_ok {v : Json} (h : checked v = .ok t) : v = .str t := by
  cases v with
  | str s =>
    rw [checked] at h
    split at h
    · cases h
    · rw [ok.inj h]
  | _ => cases h

theorem checkedAll_ok {texts : List String} (h : checkedAll items = .ok texts) :
    items = texts.map .str := by
  induction items generalizing texts with
  | nil =>
    cases h
    rfl
  | cons v items ih =>
    obtain ⟨t, hv, h⟩ := bind_ok h
    obtain ⟨more, hr, h⟩ := bind_ok h
    rw [← ok.inj h, map_cons, ← checked_ok hv, ← ih hr]

theorem Scan.step_ok (h : scan.step op = .ok scan') : Scanned scan op scan' := by
  obtain ⟨signature, hop, h⟩ := bind_ok h
  have hrole : roleOf op = .ok (Role.ofSignature? signature) := by rw [roleOf, hop]; rfl
  cases hs : Role.ofSignature? signature with
  | none =>
    rw [hs] at h hrole
    cases h
    exact .other scan.speaker (.inl hrole)
  | some role =>
    rw [hs] at h hrole
    cases role with
    | speaker =>
      obtain ⟨v, hv, h⟩ := bind_ok h
      obtain ⟨x, hx, h⟩ := bind_ok h
      obtain ⟨operand, ho, h⟩ := bind_ok h
      cases h
      exact .other _ (.inr (.inl hrole))
    | text =>
      obtain ⟨v, hv, h⟩ := bind_ok h
      obtain ⟨x, hx, h⟩ := bind_ok h
      obtain ⟨t, ht, h⟩ := bind_ok h
      cases h
      exact .text hrole hv (by rw [hx, checked_ok ht])
    | sentenceEnd =>
      dsimp only at h
      split at h
      · next hopen =>
        cases h
        exact .other scan.speaker (.inr (.inr ⟨hrole, hopen⟩))
      · next message hopen =>
        cases h
        exact .sentenceEnd hrole hopen
    | choice =>
      dsimp only at h
      split at h
      · cases h
      · next hopen =>
        obtain ⟨v, hv, h⟩ := bind_ok h
        obtain ⟨items, hi, h⟩ := bind_ok h
        obtain ⟨texts, ht, h⟩ := bind_ok h
        cases h
        exact .choice hrole hopen hv hi (checkedAll_ok ht)
    | lineBreak =>
      cases h
      exact .lineBreak hrole

def ListValued (ops : List Json) : Prop :=
  ∀ op ∈ ops, ∀ v, op.field "value" = .ok v → ∃ items, v = .arr items

theorem item_zero {v : Json} (h : (arr items).item 0 = .ok v) : ∃ rest, items = v :: rest := by
  cases items with
  | nil => cases h
  | cons x rest =>
    simp only [item, place?, length_cons] at h
    refine ⟨rest, ?_⟩
    simpa using h

def Exchangeable (ops : List Json) (lines : List Line) : Prop :=
  ∀ messages, messages.length = lines.length → ∃ kept, Exchanged ops lines messages kept

def Closes (ops : List Json) (text : String) (lines : List Line) : Prop :=
  ∃ body silenced stop rest, ops = body ++ stop :: rest ∧ Silenced body text silenced ∧
    roleOf stop = .ok (some .sentenceEnd) ∧ Exchangeable rest lines

theorem Closes.cons {text' : String} (h : Closes ops t lines)
    (hop : ∀ {body silenced}, Silenced body t silenced → ∃ kept, Silenced (op :: body) text' kept) :
    Closes (op :: ops) text' lines := by
  obtain ⟨body, silenced, stop, rest, rfl, hbody, hstop, hrest⟩ := h
  obtain ⟨kept, hkept⟩ := hop hbody
  exact ⟨op :: body, kept, stop, rest, rfl, hkept, hstop, hrest⟩

theorem Closes.exchangeable {text : String} (h : Closes ops text lines) (speaker : Option String)
    (hrole : roleOf op = .ok (some .text))
    (hvalue : op.field "value" = .ok (.arr (.str t :: items))) :
    Exchangeable (op :: ops) (.sentence (t ++ text) speaker :: lines) := by
  intro messages hlen
  obtain ⟨body, silenced, stop, rest, rfl, hbody, hstop, hrest⟩ := h
  obtain ⟨message, messages, rfl⟩ := exists_cons_of_length_eq_add_one hlen
  obtain ⟨kept, hkept⟩ := hrest messages (by simpa using hlen)
  exact ⟨_, .sentence speaker hrole hvalue hbody hstop hkept⟩

theorem Exchangeable.choice {texts : List String} (h : Exchangeable ops lines)
    (hrole : roleOf op = .ok (some .choice)) (hvalue : op.field "value" = .ok (.arr items))
    (htexts : items.drop choiceTexts = texts.map .str) :
    Exchangeable (op :: ops) (texts.map .option ++ lines) := by
  intro messages hlen
  obtain ⟨kept, hkept⟩ := h (messages.drop texts.length) (by simp [hlen])
  rw [← take_append_drop texts.length messages]
  exact ⟨_, .choice hrole hvalue htexts (by simp [hlen]) hkept⟩

/-- What a scan finds in the entries to come, outside a sentence and inside one. -/
structure Shaped (scan scan' : Scan) (ops : List Json) : Prop where
  outside : scan.open? = none → ∃ lines, scan'.lines = scan.lines ++ lines ∧ Exchangeable ops lines
  inside : ∀ message, scan.open? = some message → ∃ text speaker lines,
    scan'.lines = scan.lines ++ .sentence (message ++ text) speaker :: lines ∧
    Closes ops text lines

/-- An entry that leaves the sentence as it is. -/
theorem Shaped.pass {middle : Scan} (h : Shaped middle scan' ops)
    (hopen : middle.open? = scan.open?) (hlines : middle.lines = scan.lines)
    (hexchanged : ∀ {lines messages kept}, Exchanged ops lines messages kept →
      ∃ kept', Exchanged (op :: ops) lines messages kept')
    (hsilenced : scan.open? ≠ none → ∀ {body text kept}, Silenced body text kept →
      ∃ kept', Silenced (op :: body) text kept') : Shaped scan scan' (op :: ops) := by
  constructor
  · intro hnone
    obtain ⟨lines, hfound, hall⟩ := h.outside (hopen.trans hnone)
    refine ⟨lines, hlines ▸ hfound, fun messages hlen => ?_⟩
    obtain ⟨kept, hkept⟩ := hall messages hlen
    exact hexchanged hkept
  · intro message hsome
    obtain ⟨text, speaker, lines, hfound, hcloses⟩ := h.inside message (hopen.trans hsome)
    exact ⟨text, speaker, lines, hlines ▸ hfound, hcloses.cons (hsilenced (by simp [hsome]))⟩

theorem Scanned.shaped {middle : Scan} (hstep : Scanned scan op middle)
    (hlist : ∀ v, op.field "value" = .ok v → ∃ items, v = .arr items)
    (h : Shaped middle scan' ops) : Shaped scan scan' (op :: ops) := by
  cases hstep with
  | @text v t hrole hvalue hitem =>
    obtain ⟨items, rfl⟩ := hlist v hvalue
    obtain ⟨items, rfl⟩ := item_zero hitem
    obtain ⟨text, speaker, lines, hlines, hcloses⟩ := h.inside _ rfl
    refine ⟨fun ho => ?_, fun message ho => ?_⟩
    · exact ⟨_, by simpa [ho] using hlines, hcloses.exchangeable speaker hrole hvalue⟩
    · refine ⟨t ++ text, speaker, lines, ?_,
        hcloses.cons fun hbody => ⟨_, .text hrole hvalue hbody⟩⟩
      simpa [ho, String.append_assoc] using hlines
  | @sentenceEnd message hrole hopen =>
    refine ⟨fun ho => absurd (ho.symm.trans hopen) (by simp), fun message' ho => ?_⟩
    obtain ⟨lines, hlines, hrest⟩ := h.outside rfl
    rw [ho, Option.some.injEq] at hopen
    subst hopen
    exact ⟨"", scan.speaker, lines, by simpa using hlines, [], [], op, ops, rfl, .nil, hrole, hrest⟩
  | @choice v items texts hrole hopen hvalue hitems htexts =>
    refine ⟨fun _ => ?_, fun message ho => absurd (ho.symm.trans hopen) (by simp)⟩
    obtain ⟨items', rfl⟩ := hlist v hvalue
    rw [itemsFrom, ok.injEq, htexts] at hitems
    obtain ⟨lines, hlines, hrest⟩ := h.outside hopen
    exact ⟨_, by simpa using hlines, hrest.choice hrole hvalue hitems⟩
  | lineBreak hrole =>
    exact h.pass rfl rfl (fun hkept => ⟨_, .lineBreak hrole hkept⟩)
      fun _ _ _ _ hbody => ⟨_, .lineBreak hrole hbody⟩
  | other speaker hrole =>
    refine h.pass rfl rfl (fun hkept => ⟨_, .other ?_ hkept⟩)
      fun ho _ _ _ hbody => ⟨_, .other ?_ hbody⟩
    · exact hrole.imp_right (Or.imp_right And.left)
    · exact hrole.imp_right fun hmore => hmore.resolve_right fun hend => ho hend.2

theorem scanAll_shaped (hlists : ListValued ops) (h : scanAll scan ops = .ok scan')
    (hclosed : scan'.open? = none) : Shaped scan scan' ops := by
  induction ops generalizing scan with
  | nil =>
    cases h
    refine ⟨fun _ => ⟨[], by simp, fun messages hlen => ⟨[], ?_⟩⟩, fun message ho => ?_⟩
    · rw [length_eq_zero_iff.mp hlen]
      exact .nil
    · rw [hclosed] at ho
      cases ho
  | cons op ops ih =>
    obtain ⟨middle, hstep, h⟩ := bind_ok h
    exact (Scan.step_ok hstep).shaped (hlists op (by simp))
      (ih (fun x hx => hlists x (by simp [hx])) h)

theorem extract_shape (hlists : ListValued ops) (h : extract (.arr ops) = .ok lines) :
    Exchangeable ops lines := by
  obtain ⟨items, hitems, h⟩ := bind_ok h
  cases hitems
  obtain ⟨scan, hscan, h⟩ := bind_ok h
  split at h
  · next hopen =>
    cases h
    obtain ⟨lines, hlines, hall⟩ := (scanAll_shaped hlists hscan hopen).outside rfl
    rwa [show scan.lines = lines from hlines]
  · cases h

def Supplies (texts : Json) (next : Int) : List Json → Prop
  | [] => True
  | message :: messages => messageAt texts next = .ok message ∧ Supplies texts (next + 1) messages

theorem succ_place (next : Int) (n : Nat) : next + 1 + n = next + ((n + 1 : Nat) : Int) := by
  omega

theorem supplies_append {messages' : List Json} :
    Supplies texts next (messages ++ messages') ↔
      Supplies texts next messages ∧ Supplies texts (next + messages.length) messages' := by
  induction messages generalizing next with
  | nil => simp [Supplies]
  | cons message messages ih =>
    rw [cons_append, Supplies, Supplies, ih, length_cons, and_assoc, succ_place]

theorem fillChoice_eq (front : List Json) {old : List Json}
    (hvalue : op.field "value" = .ok (.arr (front ++ old))) (hlen : options.length = old.length)
    (hsupply : Supplies texts next options) :
    fillChoice texts options.length front.length next op =
      .ok (withOperands op (front ++ options), next + options.length) := by
  induction options generalizing op next front old with
  | nil =>
    rw [length_eq_zero_iff.mp hlen.symm] at hvalue
    rw [withOperands_same hvalue]
    simp [fillChoice]
  | cons message options ih =>
    obtain ⟨v, old, rfl⟩ := exists_cons_of_length_eq_add_one hlen.symm
    have hset : setOperand op front.length message =
        .ok (withOperands op (front ++ message :: old)) := by
      rw [setOperand_eq message hvalue (by simp)]
      simp
    have hrest := ih (front ++ [message]) (field_value_withOperands _ hvalue)
      (by simpa using hlen) hsupply.2
    simp only [length_append, length_singleton, withOperands_withOperands,
      append_assoc, singleton_append] at hrest
    rw [length_cons, fillChoice, hsupply.1, ← succ_place]
    simp only [bind, Except.bind, hset]
    exact hrest

namespace Rebuild

variable {texts : Json} {r r' : Rebuild} {op : Json} {ops : List Json} {rest : List Json}

def allows (r : Rebuild) : Bool :=
  match r.kept.getLast? with
  | none => false
  | some last => mayBreak last

def Named (r : Rebuild) : Prop :=
  ∀ last, r.kept.getLast? = some last → ∃ v, last.field "op" = .ok v

def Stuck (texts : Json) (r : Rebuild) (ops : List Json) : Prop :=
  breaksFit r.allows ops = false ∧ ∃ fault, (fault = .violated ∨ fault = .outOfRange .list) ∧
      rebuildAll texts r ops = .error fault

def Advances (texts : Json) (r : Rebuild) (ops : List Json) (r' : Rebuild) (rest : List Json) :
    Prop :=
  r'.Named ∧ rebuildAll texts r ops = rebuildAll texts r' rest ∧
    breaksFit r.allows ops = breaksFit r'.allows rest

theorem Advances.stuck (h : Advances texts r ops r' rest) (hstuck : Stuck texts r' rest) :
    Stuck texts r ops := by
  obtain ⟨-, hrun, hfit⟩ := h
  exact ⟨hfit ▸ hstuck.1, hrun ▸ hstuck.2⟩

def Finishes (texts : Json) (r : Rebuild) (ops : List Json) (final : Rebuild) : Prop :=
  breaksFit r.allows ops = true ∧ rebuildAll texts r ops = .ok final ∨ Stuck texts r ops

theorem Advances.finishes {final : Rebuild} (h : Advances texts r ops r' rest)
    (hrest : Finishes texts r' rest final) : Finishes texts r ops final :=
  hrest.imp (fun hdone => ⟨h.2.2.trans hdone.1, h.2.1.trans hdone.2⟩) h.stuck

theorem Advances.trans {r'' : Rebuild} {rest' : List Json} (h : Advances texts r ops r' rest)
    (h' : Advances texts r' rest r'' rest') : Advances texts r ops r'' rest' :=
  ⟨h'.1, h.2.1.trans h'.2.1, h.2.2.trans h'.2.2⟩

theorem breaksFit_cons {allowed : Bool} (hrole : roleOf op = .ok role)
    (hbreak : role ≠ some .lineBreak) :
    breaksFit allowed (op :: ops) = breaksFit (mayBreak op) ops := by
  rw [breaksFit]
  split
  · next h =>
    rw [hrole, ok.injEq] at h
    exact absurd h hbreak
  · rfl

theorem advances_keep (ops : List Json) {op' : Json} (hrole : roleOf op = .ok role)
    (hbreak : role ≠ some .lineBreak) (hstep : r.step texts op = .ok r')
    (hkept : r'.kept = r.kept ++ [op']) (hop : op'.field "op" = op.field "op") :
    Advances texts r (op :: ops) r' ops := by
  obtain ⟨v, hv, -⟩ := field_of_roleOf hrole
  have hallows : r'.allows = mayBreak op := by
    rw [allows, hkept, getLast?_concat]
    simp only [mayBreak, hop]
  refine ⟨fun last hlast => ?_, ?_, ?_⟩
  · rw [hkept, getLast?_concat, Option.some.injEq] at hlast
    exact ⟨v, by rw [← hlast, hop, hv]⟩
  · rw [rebuildAll, hstep]
    rfl
  · rw [breaksFit_cons hrole hbreak, hallows]

theorem advances_lineBreak (texts : Json) (ops : List Json)
    (hrole : roleOf op = .ok (some .lineBreak)) (hnamed : r.Named) :
    Advances texts r (op :: ops) r ops ∨ Stuck texts r (op :: ops) := by
  obtain ⟨v, hv, hsig⟩ := field_of_roleOf hrole
  have hfit : breaksFit r.allows (op :: ops) = (r.allows && breaksFit r.allows ops) := by
    rw [breaksFit, hrole]
  cases hlast : r.kept.getLast? with
  | none =>
    have hallows : r.allows = false := by rw [allows, hlast]
    refine .inr ⟨by rw [hfit, hallows, Bool.false_and], _, .inr rfl, ?_⟩
    simp only [rebuildAll, step, hv, hsig, hlast, bind, Except.bind]
  | some last =>
    obtain ⟨w, hw⟩ := hnamed last hlast
    have hfollow : breakMayFollow last = .ok r.allows := by
      simp only [breakMayFollow, allows, hlast, mayBreak, hw, bind, Except.bind, pure, Except.pure]
    have hstep : r.step texts op = if r.allows then .ok r else .error .violated := by
      simp only [step, hv, hsig, hlast, hfollow, bind, Except.bind, pure, Except.pure]
    cases hallows : r.allows with
    | true =>
      rw [hallows, if_pos rfl] at hstep
      refine .inl ⟨hnamed, ?_, by rw [hfit, hallows, Bool.true_and]⟩
      rw [rebuildAll, hstep]
      rfl
    | false =>
      rw [hallows, if_neg (by simp)] at hstep
      refine .inr ⟨by rw [hfit, hallows, Bool.false_and], _, .inl rfl, ?_⟩
      rw [rebuildAll, hstep]
      rfl

theorem step_silenced (texts : Json) (hrole : roleOf op = .ok (some .text))
    (hvalue : op.field "value" = .ok (.arr (.str t :: items))) (hinside : r.inside = true) :
    r.step texts op = .ok (r.keep (withOperands op (.str "" :: items))) := by
  obtain ⟨v, hv, hsig⟩ := field_of_roleOf hrole
  have hset : setOperand op 0 (.str "") = .ok (withOperands op (.str "" :: items)) :=
    setOperand_eq (k := 0) (.str "") hvalue (by simp)
  simp only [step, hv, hsig, hinside, if_true, hset, bind, Except.bind, pure, Except.pure]

theorem step_first {message : Json} (hrole : roleOf op = .ok (some .text))
    (hvalue : op.field "value" = .ok (.arr (.str t :: items))) (hinside : r.inside = false)
    (hmessage : messageAt texts r.next = .ok message) :
    r.step texts op = .ok ⟨true, r.next + 1, r.kept ++ [withOperands op (message :: items)]⟩ := by
  obtain ⟨v, hv, hsig⟩ := field_of_roleOf hrole
  have hset : setOperand op 0 message = .ok (withOperands op (message :: items)) :=
    setOperand_eq (k := 0) message hvalue (by simp)
  simp only [step, hv, hsig, hinside, Bool.false_eq_true, if_false, hmessage, hset, bind,
    Except.bind, pure, Except.pure]

theorem step_sentenceEnd (texts : Json) (r : Rebuild)
    (hrole : roleOf op = .ok (some .sentenceEnd)) :
    r.step texts op = .ok ⟨false, r.next, r.kept ++ [op]⟩ := by
  obtain ⟨v, hv, hsig⟩ := field_of_roleOf hrole
  simp only [step, hv, hsig, bind, Except.bind, pure, Except.pure]

theorem step_options (hrole : roleOf op = .ok (some .choice))
    (hvalue : op.field "value" = .ok (.arr items)) (hinside : r.inside = false)
    (hlen : options.length = (items.drop choiceTexts).length)
    (hsupply : Supplies texts r.next options) :
    r.step texts op = .ok ⟨false, r.next + options.length,
      r.kept ++ [withOperands op (items.take choiceTexts ++ options)]⟩ := by
  obtain ⟨v, hv, hsig⟩ := field_of_roleOf hrole
  simp only [step, hv, hsig, hinside, Bool.false_eq_true, if_false, hvalue, itemsFrom, bind,
    Except.bind]
  by_cases hfew : items.length < choiceTexts
  · -- a choice without texts
    have hnil : options = [] := by
      rw [drop_of_length_le (Nat.le_of_lt hfew)] at hlen
      exact length_eq_zero_iff.mp hlen
    subst hnil
    rw [← hlen, take_of_length_le (Nat.le_of_lt hfew), append_nil,
      withOperands_same hvalue]
    simp [fillChoice, pure, Except.pure]
  · have hfront : (items.take choiceTexts).length = choiceTexts := by
      rw [length_take]
      omega
    have hfill := fillChoice_eq (items.take choiceTexts)
      (by rw [take_append_drop, hvalue]) hlen hsupply
    rw [hfront] at hfill
    rw [← hlen, hfill]
    simp only [pure, Except.pure]

theorem step_plain (texts : Json) (r : Rebuild) (hrole : roleOf op = .ok role)
    (h : role = none ∨ role = some .speaker) : r.step texts op = .ok (r.keep op) := by
  obtain ⟨v, hv, hsig⟩ := field_of_roleOf hrole
  rcases h with rfl | rfl <;> simp only [step, hv, hsig, bind, Except.bind, pure, Except.pure]

end Rebuild

open Rebuild

theorem Silenced.advances {r : Rebuild} {body silenced : List Json} {text : String}
    (h : Silenced body text silenced) (rest : List Json) (hinside : r.inside = true)
    (hnamed : r.Named) :
    Advances texts r (body ++ rest) { r with kept := r.kept ++ silenced } rest ∨
      Stuck texts r (body ++ rest) := by
  induction h generalizing r with
  | nil => exact .inl ⟨by simpa using hnamed, by simp, by simp⟩
  | @text op t text items body kept hrole hvalue _ ih =>
    have hstep := advances_keep (body ++ rest) hrole (by simp)
      (step_silenced texts hrole hvalue hinside) rfl (field_withOperands _ (by decide))
    have hrest := ih (r := r.keep (withOperands op (.str "" :: items))) hinside hstep.1
    simp only [keep, append_assoc, singleton_append] at hrest
    exact hrest.imp hstep.trans hstep.stuck
  | @lineBreak op text body kept hrole _ ih =>
    rcases advances_lineBreak texts (body ++ rest) hrole hnamed with hstep | hstuck
    · exact (ih hinside hnamed).imp hstep.trans hstep.stuck
    · exact .inr hstuck
  | @other op text body kept hrole _ ih =>
    obtain ⟨role, hrole, hplain⟩ :
        ∃ role, roleOf op = .ok role ∧ (role = none ∨ role = some .speaker) := by
      rcases hrole with hrole | hrole
      · exact ⟨_, hrole, .inl rfl⟩
      · exact ⟨_, hrole, .inr rfl⟩
    have hbreak : role ≠ some .lineBreak := by rcases hplain with rfl | rfl <;> simp
    have hstep :=
      advances_keep (body ++ rest) hrole hbreak (step_plain texts r hrole hplain) rfl rfl
    have hrest := ih (r := r.keep op) hinside hstep.1
    simp only [keep, append_assoc, singleton_append] at hrest
    exact hrest.imp hstep.trans hstep.stuck

theorem Exchanged.finishes {r : Rebuild} {kept : List Json} (h : Exchanged ops lines messages kept)
    (hinside : r.inside = false) (hnamed : r.Named) (hsupply : Supplies texts r.next messages) :
    Finishes texts r ops ⟨false, r.next + lines.length, r.kept ++ kept⟩ := by
  induction h generalizing r with
  | nil =>
    refine .inl ⟨rfl, ?_⟩
    obtain ⟨inside, next, kept⟩ := r
    cases hinside
    simp [rebuildAll]
  | @other op ops kept messages lines hrole _ ih =>
    obtain ⟨role, hrole, hbreak, r', hstep, hinside', hnext, hkept⟩ : ∃ role,
        roleOf op = .ok role ∧ role ≠ some .lineBreak ∧ ∃ r', r.step texts op = .ok r' ∧
          r'.inside = false ∧ r'.next = r.next ∧ r'.kept = r.kept ++ [op] := by
      rcases hrole with hrole | hrole | hrole
      · exact ⟨_, hrole, by simp, _, step_plain texts r hrole (.inl rfl), hinside, rfl, rfl⟩
      · exact ⟨_, hrole, by simp, _, step_plain texts r hrole (.inr rfl), hinside, rfl, rfl⟩
      · exact ⟨_, hrole, by simp, _, step_sentenceEnd texts r hrole, rfl, rfl, rfl⟩
    have hadvance := advances_keep ops hrole hbreak hstep hkept rfl
    have hrest := ih hinside' hadvance.1 (hnext ▸ hsupply)
    rw [hnext, hkept, append_assoc, singleton_append] at hrest
    exact hadvance.finishes hrest
  | @lineBreak op ops kept messages lines hrole _ ih =>
    rcases advances_lineBreak texts ops hrole hnamed with hadvance | hstuck
    · exact hadvance.finishes (ih hinside hnamed hsupply)
    · exact .inr hstuck
  | @sentence first stop message body silenced items ops kept messages t text lines speaker hfirst
      hvalue hbody hstop _ ih =>
    -- the first text, the rest of the sentence and its end one behind the other
    have hstart := advances_keep (body ++ stop :: ops) hfirst (by simp)
      (step_first hfirst hvalue hinside hsupply.1) rfl (field_withOperands _ (by decide))
    rcases hbody.advances (stop :: ops) rfl hstart.1 with hrest | hstuck
    · have hend := advances_keep ops hstop (by simp) (step_sentenceEnd texts
        ⟨true, r.next + 1, (r.kept ++ [withOperands first (message :: items)]) ++ silenced⟩ hstop)
        rfl rfl
      rw [length_cons, ← succ_place]
      exact ((hstart.trans hrest).trans hend).finishes (by simpa using ih rfl hend.1 hsupply.2)
    · exact .inr (hstart.stuck hstuck)
  | @choice op items options ops kept messages texts' lines hrole hvalue htexts hlen _ ih =>
    obtain ⟨hoptions, hmessages⟩ := supplies_append.mp hsupply
    have hstep := advances_keep ops hrole (by simp)
      (step_options hrole hvalue hinside (by rw [hlen, htexts, length_map]) hoptions) rfl
      (field_withOperands _ (by decide))
    rw [length_append, length_map, ← hlen]
    exact hstep.finishes (by simpa [Int.add_assoc] using ih rfl hstep.1 hmessages)

theorem Exchanged.replace_eq {start : Nat} {kept : List Json}
    (h : Exchanged ops lines messages kept) (hsupply : Supplies texts start messages) :
    (breaksFit false ops = true ∧
        replace (.arr ops) texts start = .ok (kept, start + lines.length)) ∨
      (breaksFit false ops = false ∧ ∃ fault, (fault = .violated ∨ fault = .outOfRange .list) ∧
        replace (.arr ops) texts start = .error fault) := by
  have hreplace : replace (.arr ops) texts start =
      (rebuildAll texts { next := start } ops).map fun r => (r.kept, r.next) := by
    rw [replace, Json.elements]
    simp only [bind, Except.bind]
    cases rebuildAll texts { next := start } ops <;> rfl
  rw [hreplace]
  rcases h.finishes (r := { next := start }) rfl (by simp [Rebuild.Named]) hsupply with
    ⟨hfit, hrun⟩ | ⟨hfit, fault, hfault, hrun⟩
  · exact .inl ⟨hfit, by rw [hrun]; rfl⟩
  · exact .inr ⟨hfit, fault, hfault, by rw [hrun]; rfl⟩

theorem operand_storable (hop : op.Regular ∧ op.depth < maxDepth)
    (hvalue : op.field "value" = .ok (.arr items)) :
    ∀ x ∈ items, x.Regular ∧ x.depth + 2 < maxDepth := by
  obtain ⟨fields, rfl, hlookup⟩ := obj_of_field hvalue
  obtain ⟨before, after, rfl, -⟩ := lookup_eq_some_iff.mp hlookup
  have hmem : ("value", arr items) ∈ before ++ ("value", arr items) :: after := by simp
  have hvalue := regularFields_iff.mp hop.1.2 _ hmem
  have hfields := depthFields_le_iff.mp (Nat.le_refl _) _ hmem
  intro x hx
  have hdepth := depthItems_le_iff.mp (Nat.le_refl _) x hx
  refine ⟨regularItems_iff.mp hvalue x hx, ?_⟩
  have hop := hop.2
  simp only [depth] at hfields hop
  omega

theorem withOperands_storable (hop : op.Regular ∧ op.depth < maxDepth)
    (hitems : ∀ x ∈ items, x.Regular ∧ x.depth + 2 < maxDepth) :
    (withOperands op items).Regular ∧ (withOperands op items).depth < maxDepth := by
  cases op with
  | obj fields =>
    have hvalue : (arr items).depth ≤ maxDepth - 2 := by
      have hdepth : depthItems items ≤ maxDepth - 3 :=
        depthItems_le_iff.mpr fun x hx => Nat.le_sub_of_add_le (hitems x hx).2
      exact Nat.succ_le_succ hdepth
    refine ⟨regular_setField "value" (regularItems_iff.mpr fun x hx => (hitems x hx).1) hop.1, ?_⟩
    exact Nat.succ_lt_succ (Nat.lt_succ_of_le (depthFields_setField hvalue
      (Nat.le_of_lt_succ (Nat.lt_of_succ_lt_succ hop.2))))
  | _ => exact hop

theorem Silenced.storable {body kept : List Json} {text : String} (h : Silenced body text kept)
    (hbody : ∀ op ∈ body, op.Regular ∧ op.depth < maxDepth) :
    ∀ op ∈ kept, op.Regular ∧ op.depth < maxDepth := by
  induction h with
  | nil => simp
  | text hrole hvalue rest ih =>
    obtain ⟨hop, hbody⟩ := forall_mem_cons.mp hbody
    obtain ⟨-, hitems⟩ := forall_mem_cons.mp (operand_storable hop hvalue)
    refine forall_mem_cons.mpr ⟨withOperands_storable hop ?_, ih hbody⟩
    exact forall_mem_cons.mpr ⟨⟨trivial, by decide⟩, hitems⟩
  | lineBreak hrole rest ih => exact ih (forall_mem_cons.mp hbody).2
  | other hrole rest ih =>
    obtain ⟨hop, hbody⟩ := forall_mem_cons.mp hbody
    exact forall_mem_cons.mpr ⟨hop, ih hbody⟩

theorem Exchanged.storable {kept : List Json} (h : Exchanged ops lines messages kept)
    (hops : ∀ op ∈ ops, op.Regular ∧ op.depth < maxDepth)
    (hmessages : ∀ message ∈ messages, message.Regular ∧ message.depth + 2 < maxDepth) :
    ∀ op ∈ kept, op.Regular ∧ op.depth < maxDepth := by
  induction h with
  | nil => simp
  | other hrole rest ih =>
    obtain ⟨hop, hops⟩ := forall_mem_cons.mp hops
    exact forall_mem_cons.mpr ⟨hop, ih hops hmessages⟩
  | lineBreak hrole rest ih => exact ih (forall_mem_cons.mp hops).2 hmessages
  | sentence speaker hfirst hvalue hbody hstop rest ih =>
    obtain ⟨hop, hops⟩ := forall_mem_cons.mp hops
    obtain ⟨hsilenced, hops⟩ := forall_mem_append.mp hops
    obtain ⟨hend, hops⟩ := forall_mem_cons.mp hops
    obtain ⟨hmessage, hmessages⟩ := forall_mem_cons.mp hmessages
    obtain ⟨-, hitems⟩ := forall_mem_cons.mp (operand_storable hop hvalue)
    refine forall_mem_cons.mpr ⟨?_, forall_mem_append.mpr ⟨hbody.storable hsilenced,
      forall_mem_cons.mpr ⟨hend, ih hops hmessages⟩⟩⟩
    exact withOperands_storable hop (forall_mem_cons.mpr ⟨hmessage, hitems⟩)
  | choice hrole hvalue htexts hlen rest ih =>
    obtain ⟨hop, hops⟩ := forall_mem_cons.mp hops
    obtain ⟨hoptions, hmessages⟩ := forall_mem_append.mp hmessages
    refine forall_mem_cons.mpr ⟨withOperands_storable hop ?_, ih hops hmessages⟩
    refine forall_mem_append.mpr ⟨fun x hx => ?_, hoptions⟩
    exact operand_storable hop hvalue x (mem_of_mem_take hx)

theorem exists_messages (h : ∀ item ∈ items, ∃ message, item.field "message" = .ok message) :
    ∃ messages, Forall₂ (fun item message => item.field "message" = .ok message)
      items messages := by
  induction items with
  | nil => exact ⟨[], .nil⟩
  | cons item items ih =>
    obtain ⟨message, hmessage⟩ := h item (by simp)
    obtain ⟨messages, hmessages⟩ := ih fun x hx => h x (by simp [hx])
    exact ⟨message :: messages, .cons hmessage hmessages⟩

theorem supplies_items (start : Nat)
    (h : Forall₂ (fun item message => item.field "message" = .ok message)
      (items.drop start |>.take messages.length) messages) :
    Supplies (.arr items) start messages := by
  induction messages generalizing start with
  | nil => trivial
  | cons message messages ih =>
    rw [length_cons] at h
    cases hdrop : items.drop start with
    | nil =>
      rw [hdrop] at h
      cases h
    | cons item rest =>
      have hstart : start < items.length := by
        by_contra hle
        rw [drop_of_length_le (by omega)] at hdrop
        cases hdrop
      rw [drop_eq_getElem_cons hstart, take_succ_cons] at h
      obtain ⟨hfield, hrest⟩ := forall₂_cons.mp h
      refine ⟨?_, ih (start + 1) hrest⟩
      simp [messageAt, Json.item, Json.place?, hstart, hfield, bind, Except.bind]

end SceneText.Dialogue

namespace SceneText.DialogueTool

open Run Dialogue Arguments

variable {s : Session} {file : String} {listing : Json}

theorem eval_extractFile (hread : eval (readJson file) s = (.ok listing, s)) :
    eval (extractFile file) s =
      match extract listing with
      | .ok lines => (.ok (lines.map Line.toJson), s)
      | .error fault => (.error (.fault fault), s) := by
  rw [extractFile, eval_bind_ok hread]
  cases extract listing <;> rfl

theorem eval_relative (hfile : file.isEmpty = false) (root : String) :
    eval (relative file root) s =
      (.ok (Path.between (Path.absoluteParts s.workDir root) (Path.absoluteParts s.workDir file)),
        s) := by
  rw [relative, if_neg (by simp [hfile])]
  rfl

theorem eval_replaceFile_error {fault : Fault} {texts : Json} {start : Int}
    (hread : eval (readJson file) s = (.ok listing, s))
    (hreplace : replace listing texts start = .error fault) (output : Value) (root : String) :
    eval (replaceFile file texts output start root) s = (.error (.fault fault), s) := by
  rw [replaceFile, eval_bind_ok hread, hreplace]
  rfl

theorem eval_replaceFile_ok {s₁ : Session} {texts : Json} {start next : Int} {kept : List Json}
    {out root target : String} {loc : Location} (hread : eval (readJson file) s = (.ok listing, s))
    (hreplace : replace listing texts start = .ok (kept, next)) (hfile : file.isEmpty = false)
    (htarget : target = Path.join out
      (Path.between (Path.absoluteParts s.workDir root) (Path.absoluteParts s.workDir file)))
    (hdir : eval (makeDirectories true (Path.directory target)) s = (.ok (), s₁))
    (hopens : s₁.tree.Opens s₁.workDir target loc) :
    eval (replaceFile file texts (some out) start root) s =
      (.ok next, { s₁ with
        tree := s₁.tree.store loc (Utf8.encode (Json.arr kept).indented.toList) }) := by
  have hwrite : eval (writeListing kept file (some out) root) s =
      (.ok (), { s₁ with
        tree := s₁.tree.store loc (Utf8.encode (Json.arr kept).indented.toList) }) := by
    have hpath : eval (pathOf (some out)) s = (.ok out, s) := rfl
    rw [writeListing, eval_bind_ok (eval_relative hfile root), eval_bind_ok hpath]
    dsimp only
    rw [← htarget, eval_bind_ok hdir, writeJson, writeText, eval_writeBytes hopens]
  have hlift : eval (lift (replace listing texts start)) s = (.ok (kept, next), s) := by
    rw [hreplace, eval_lift]
  rw [replaceFile, eval_bind_ok hread, eval_bind_ok hlift]
  dsimp only
  rw [eval_bind_ok hwrite, eval_pure]

def partingScene : List Json :=
  [Instruction.toJson ⟨[0x00], 0, 0, [.str "あ"]⟩, Instruction.toJson ⟨[0x14], 4, 1, []⟩,
    Instruction.toJson ⟨[0x00], 5, 2, [.str "い"]⟩, Instruction.toJson ⟨[0x15], 9, 3, []⟩,
    Instruction.toJson ⟨Opcodes.choiceSignature, 10, 4,
      [.str "u32:0", .str "bytes:00", .str "u8:1", .str "u32:0", .str "う"]⟩]

def partingBytes : List UInt8 :=
  Utf8.encode (Json.arr partingScene).indented.toList

def partingSession : Session where
  tree := ⟨[(["a.json"], .file partingBytes false)]⟩
  workDir := []

def partingLines : List Line :=
  [.sentence "あい" none, .option "う"]

end SceneText.DialogueTool
