import Mathlib.Data.List.DropRight
import SceneText.Proofs.Alignment

/-!
# The transcript of a listing

Each entry of a listing contributes one event to its dialogue. From the events before it, it can be
told which texts are pending, those behind the last sentence end, and who speaks, the speaker set
last. The lines taken out of a listing are then a matter of places: a sentence end with pending
texts makes a sentence of them, and a choice makes an option of each of its texts. Nothing is lost
and nothing is made up, and taking lines out fails exactly where a text is no dialogue, a choice
stands in an open sentence or the last sentence is not closed.
-/

namespace SceneText.Dialogue

open List Json
open Fault (bind_ok)

variable {e : Event} {t : String} {texts : List String} {op : Json} {before events : List Event}
  {lines : List Line} {scan : Scan} {ops : List Json}

/-- What an entry contributes to the dialogue. -/
inductive Event
  | speaker (number : Int)
  | text (t : String)
  | sentenceEnd
  | choice (options : List String)
  | other
  deriving DecidableEq, Repr

/-- The event of an entry, with operands of the kinds that its role asks for. -/
inductive Tells (op : Json) : Event → Prop
  | speaker {x : Json} {items : List Json} {n : Int} (hrole : roleOf op = .ok (some .speaker))
      (hvalue : op.field "value" = .ok (.arr (x :: items)))
      (hoperand : Operand.ofJson x = .ok (.int .u32 n)) : Tells op (.speaker n)
  | text {t : String} {items : List Json} (hrole : roleOf op = .ok (some .text))
      (hvalue : op.field "value" = .ok (.arr (.str t :: items))) : Tells op (.text t)
  | sentenceEnd (hrole : roleOf op = .ok (some .sentenceEnd)) : Tells op .sentenceEnd
  | choice {items : List Json} {options : List String} (hrole : roleOf op = .ok (some .choice))
      (hvalue : op.field "value" = .ok (.arr items))
      (hoptions : items.drop choiceTexts = options.map .str) : Tells op (.choice options)
  | other (hrole : roleOf op = .ok none ∨ roleOf op = .ok (some .lineBreak)) : Tells op .other

namespace Event

def text? : Event → Option String
  | .text t => some t
  | _ => none

def number? : Event → Option Int
  | .speaker n => some n
  | _ => none

def options : Event → List String
  | .choice options => options
  | _ => []

end Event

def textsOf (events : List Event) : List String :=
  events.filterMap Event.text?

def pending (events : List Event) : List String :=
  textsOf (events.rtakeWhile (· ≠ .sentenceEnd))

def voice (events : List Event) : Option String :=
  Speaker.name? (.plain (.int ((events.filterMap Event.number?).getLast?.getD 0)))

def linesAt (before : List Event) : Event → List Line
  | .sentenceEnd =>
    if pending before = [] then [] else [.sentence (String.join (pending before)) (voice before)]
  | .choice options => options.map .option
  | _ => []

def transcript (before : List Event) : List Event → List Line
  | [] => []
  | e :: rest => linesAt before e ++ transcript (before ++ [e]) rest

/-- Events whose lines can be taken out. -/
structure Sound (events : List Event) : Prop where
  texts : ∀ t ∈ textsOf events, isInvalid t.toList = false
  options : ∀ t ∈ events.flatMap Event.options, isInvalid t.toList = false
  apart : ∀ before options after, events = before ++ .choice options :: after → pending before = []
  closed : pending events = []

namespace Line

def sentence? : Line → Option String
  | .sentence m _ => some m
  | .option _ => none

def option? : Line → Option String
  | .sentence _ _ => none
  | .option m => some m

end Line

theorem pending_sentenceEnd (before : List Event) : pending (before ++ [.sentenceEnd]) = [] := by
  rw [pending, rtakeWhile_concat_neg _ _ _ (by simp)]
  rfl

theorem pending_concat (before : List Event) (he : e ≠ .sentenceEnd) :
    pending (before ++ [e]) = pending before ++ e.text?.toList := by
  rw [pending, rtakeWhile_concat_pos _ _ _ (by simpa using he), textsOf, filterMap_append,
    pending, textsOf]
  cases e <;> rfl

theorem voice_speaker (before : List Event) (n : Int) :
    voice (before ++ [.speaker n]) = Speaker.name? (.plain (.int n)) := by
  rw [voice, filterMap_append]
  simp [Event.number?]

theorem voice_concat (before : List Event) (he : e.number? = none) :
    voice (before ++ [e]) = voice before := by
  rw [voice, filterMap_append, filterMap_cons_none he, filterMap_nil, append_nil, voice]

def scanAfter (before : List Event) (lines : List Line) : Scan where
  speaker := voice before
  open? := if pending before = [] then none else some (String.join (pending before))
  lines := lines

def Admits (before : List Event) : Event → Prop
  | .text t => isInvalid t.toList = false
  | .choice options => pending before = [] ∧ ∀ t ∈ options, isInvalid t.toList = false
  | _ => True

theorem open_scanAfter (before : List Event) (lines : List Line) :
    (scanAfter before lines).open?.getD "" = String.join (pending before) := by
  by_cases hp : pending before = []
  · simp [scanAfter, hp]
  · simp [scanAfter, hp]

theorem item_head (x : Json) (items : List Json) : (arr (x :: items)).item 0 = .ok x := by
  simp [item, place?]

theorem checked_valid (h : isInvalid t.toList = false) : checked (.str t) = .ok t := by
  simp [checked, h]

theorem valid_of_checked {r : String} (h : checked (.str t) = .ok r) :
    isInvalid t.toList = false := by
  rw [checked] at h
  split at h
  · cases h
  · next hvalid => simpa using hvalid

theorem checkedAll_valid (h : ∀ t ∈ texts, isInvalid t.toList = false) :
    checkedAll (texts.map .str) = .ok texts := by
  induction texts with
  | nil => rfl
  | cons t texts ih =>
    obtain ⟨ht, hrest⟩ := forall_mem_cons.mp h
    rw [map_cons, checkedAll, checked_valid ht, ih hrest]
    rfl

theorem valid_of_checkedAll {result : List String} (h : checkedAll (texts.map .str) = .ok result) :
    ∀ t ∈ texts, isInvalid t.toList = false := by
  induction texts generalizing result with
  | nil => simp
  | cons t texts ih =>
    obtain ⟨s, hs, h⟩ := bind_ok h
    obtain ⟨more, hmore, -⟩ := bind_ok h
    exact forall_mem_cons.mpr ⟨valid_of_checked hs, ih hmore⟩

theorem step_admitted (h : Tells op e) (ha : Admits before e) (lines : List Line) :
    (scanAfter before lines).step op =
      .ok (scanAfter (before ++ [e]) (lines ++ linesAt before e)) := by
  cases h with
  | @speaker x items n hrole hvalue hoperand =>
    obtain ⟨v, hv, hsig⟩ := field_of_roleOf hrole
    have hafter : scanAfter (before ++ [.speaker n]) (lines ++ linesAt before (.speaker n)) =
        { scanAfter before lines with speaker := Speaker.name? (.plain (.int n)) } := by
      rw [scanAfter, voice_speaker, pending_concat before (by simp)]
      simp [Event.text?, linesAt, scanAfter]
    rw [hafter]
    simp only [Scan.step, hv, hsig, hvalue, item_head, hoperand, bind, Except.bind, pure,
      Except.pure]
    rfl
  | @text t items hrole hvalue =>
    obtain ⟨v, hv, hsig⟩ := field_of_roleOf hrole
    have hafter : scanAfter (before ++ [.text t]) (lines ++ linesAt before (.text t)) =
        { scanAfter before lines with
          open? := some ((scanAfter before lines).open?.getD "" ++ t) } := by
      rw [open_scanAfter, scanAfter, pending_concat before (by simp), voice_concat before rfl]
      simp [Event.text?, linesAt, scanAfter, String.join_append]
    rw [hafter]
    simp only [Scan.step, hv, hsig, hvalue, item_head, checked_valid ha, bind, Except.bind, pure,
      Except.pure]
  | sentenceEnd hrole =>
    obtain ⟨v, hv, hsig⟩ := field_of_roleOf hrole
    simp only [Scan.step, hv, hsig, bind, Except.bind, pure, Except.pure]
    have hvoice := voice_concat before (e := .sentenceEnd) rfl
    by_cases hp : pending before = []
    · simp [scanAfter, hp, linesAt, pending_sentenceEnd, hvoice]
    · simp [scanAfter, hp, linesAt, pending_sentenceEnd, hvoice]
  | @choice items options hrole hvalue hoptions =>
    obtain ⟨v, hv, hsig⟩ := field_of_roleOf hrole
    obtain ⟨hp, hvalid⟩ := ha
    have hopen : (scanAfter before lines).open? = none := by simp [scanAfter, hp]
    have hafter : scanAfter (before ++ [.choice options])
        (lines ++ linesAt before (.choice options)) =
        { scanAfter before lines with lines := lines ++ options.map .option } := by
      rw [scanAfter, pending_concat before (by simp), voice_concat before rfl]
      simp [Event.text?, linesAt, scanAfter]
    rw [hafter]
    simp only [Scan.step, hv, hsig, hopen, hvalue, itemsFrom, hoptions,
      checkedAll_valid hvalid, bind, Except.bind, pure, Except.pure]
    rfl
  | other hrole =>
    have hafter : scanAfter (before ++ [.other]) (lines ++ linesAt before .other) =
        scanAfter before lines := by
      rw [scanAfter, pending_concat before (by simp), voice_concat before rfl]
      simp [Event.text?, linesAt, scanAfter]
    rw [hafter]
    rcases hrole with hrole | hrole <;> obtain ⟨v, hv, hsig⟩ := field_of_roleOf hrole <;>
      simp only [Scan.step, hv, hsig, bind, Except.bind, pure, Except.pure]

theorem admits_of_step (h : Tells op e) (hstep : (scanAfter before lines).step op = .ok scan) :
    Admits before e := by
  cases h with
  | @text t items hrole hvalue =>
    obtain ⟨v, hv, hsig⟩ := field_of_roleOf hrole
    simp only [Scan.step, hv, hsig, hvalue, item_head, bind, Except.bind] at hstep
    obtain ⟨r, hr, -⟩ := bind_ok hstep
    exact valid_of_checked hr
  | @choice items options hrole hvalue hoptions =>
    obtain ⟨v, hv, hsig⟩ := field_of_roleOf hrole
    simp only [Scan.step, hv, hsig, hvalue, itemsFrom, hoptions, bind, Except.bind] at hstep
    by_cases hp : pending before = []
    · simp only [scanAfter, hp, if_true] at hstep
      obtain ⟨r, hr, -⟩ := bind_ok hstep
      exact ⟨hp, valid_of_checkedAll hr⟩
    · simp [scanAfter, hp] at hstep
  | _ => trivial

def Admitted (before events : List Event) : Prop :=
  ∀ front e back, events = front ++ e :: back → Admits (before ++ front) e

theorem admitted_nil (before : List Event) : Admitted before [] := by
  intro front e back h
  simp at h

theorem admitted_cons {rest : List Event} :
    Admitted before (e :: rest) ↔ Admits before e ∧ Admitted (before ++ [e]) rest := by
  constructor
  · intro h
    refine ⟨by simpa using h [] e rest rfl, ?_⟩
    rintro front e' back rfl
    simpa using h (e :: front) e' back rfl
  · rintro ⟨he, hrest⟩ front e' back heq
    cases front with
    | nil =>
      rw [nil_append, List.cons.injEq] at heq
      rw [← heq.1, append_nil]
      exact he
    | cons x front =>
      obtain ⟨rfl, rfl⟩ := heq
      simpa using hrest front e' back rfl

theorem scanAll_iff (h : List.Forall₂ Tells ops events) (before : List Event) (lines : List Line) :
    scanAll (scanAfter before lines) ops = .ok scan ↔ Admitted before events ∧
        scan = scanAfter (before ++ events) (lines ++ transcript before events) := by
  induction h generalizing before lines with
  | nil =>
    rw [scanAll, transcript, append_nil, append_nil, Except.ok.injEq]
    simp [admitted_nil, eq_comm]
  | @cons op e ops events hop _ ih =>
    rw [scanAll, admitted_cons, transcript]
    constructor
    · intro hscan
      obtain ⟨middle, hstep, hscan⟩ := bind_ok hscan
      have he := admits_of_step hop hstep
      rw [step_admitted hop he, Except.ok.injEq] at hstep
      subst hstep
      obtain ⟨hrest, rfl⟩ := (ih _ _).mp hscan
      simp [he, hrest]
    · rintro ⟨⟨he, hrest⟩, rfl⟩
      rw [step_admitted hop he]
      refine (ih _ _).mpr ⟨hrest, ?_⟩
      simp

theorem sound_iff : Sound events ↔ Admitted [] events ∧ pending events = [] := by
  constructor
  · intro h
    refine ⟨?_, h.closed⟩
    rintro front e back rfl
    cases e with
    | text t => exact h.texts t (by simp [textsOf, Event.text?])
    | choice options =>
      refine ⟨h.apart front options back rfl, fun t ht => h.options t ?_⟩
      simp [Event.options, ht]
    | _ => trivial
  · rintro ⟨hall, hclosed⟩
    refine ⟨fun t ht => ?_, fun t ht => ?_, ?_, hclosed⟩
    · obtain ⟨e, he, htext⟩ := mem_filterMap.mp ht
      obtain ⟨front, back, rfl⟩ := append_of_mem he
      cases e with
      | text t' =>
        obtain rfl := Option.some.inj htext
        exact hall front _ back rfl
      | _ => cases htext
    · obtain ⟨e, he, hoption⟩ := mem_flatMap.mp ht
      obtain ⟨front, back, rfl⟩ := append_of_mem he
      cases e with
      | choice options => exact (hall front _ back rfl).2 t hoption
      | _ => cases hoption
    · rintro before options after rfl
      simpa using (hall before _ after rfl).1

theorem extract_iff (h : List.Forall₂ Tells ops events) :
    extract (.arr ops) = .ok lines ↔ Sound events ∧ lines = transcript [] events := by
  have hstart : ({} : Scan) = scanAfter [] [] := rfl
  rw [sound_iff, extract, elements]
  constructor
  · intro hextract
    obtain ⟨items, hitems, hextract⟩ := bind_ok hextract
    cases hitems
    obtain ⟨scan, hscan, hextract⟩ := bind_ok hextract
    obtain ⟨hall, rfl⟩ := (scanAll_iff h [] []).mp hscan
    by_cases hp : pending events = []
    · simp only [scanAfter, nil_append, hp, if_true, pure, Except.pure, Except.ok.injEq] at hextract
      exact ⟨⟨hall, hp⟩, hextract.symm⟩
    · simp [scanAfter, hp] at hextract
  · rintro ⟨⟨hall, hp⟩, rfl⟩
    have hscan := (scanAll_iff h [] []).mpr ⟨hall, rfl⟩
    simp only [bind, Except.bind, hstart, hscan]
    simp [scanAfter, hp, pure, Except.pure]

theorem options_transcript (before events : List Event) :
    (transcript before events).filterMap Line.option? = events.flatMap Event.options := by
  induction events generalizing before with
  | nil => rfl
  | cons e rest ih =>
    rw [transcript, filterMap_append, ih, flatMap_cons]
    cases e with
    | sentenceEnd =>
      rw [linesAt]
      split <;> rfl
    | choice options =>
      simp [linesAt, Event.options, filterMap_map, Function.comp_def, Line.option?]
    | _ => rfl

theorem join_transcript (before events : List Event) :
    String.join ((transcript before events).filterMap Line.sentence?) ++
        String.join (pending (before ++ events)) =
      String.join (pending before) ++ String.join (textsOf events) := by
  induction events generalizing before with
  | nil => simp [transcript, textsOf]
  | cons e rest ih =>
    have hrest := ih (before ++ [e])
    rw [append_assoc, singleton_append] at hrest
    have htexts : textsOf (e :: rest) = e.text?.toList ++ textsOf rest := by
      cases e <;> rfl
    rw [transcript, filterMap_append, String.join_append, String.append_assoc, hrest, htexts,
      String.join_append]
    by_cases he : e = .sentenceEnd
    · subst he
      rw [pending_sentenceEnd, linesAt]
      by_cases hp : pending before = []
      · simp [hp, Event.text?]
      · simp [hp, Event.text?, Line.sentence?]
    · have hnone : (linesAt before e).filterMap Line.sentence? = [] := by
        cases e with
        | sentenceEnd => exact absurd rfl he
        | choice options => simp [linesAt, filterMap_map, Function.comp_def, Line.sentence?]
        | _ => rfl
      rw [hnone, pending_concat before he, String.join_append, String.append_assoc]
      simp

end SceneText.Dialogue

namespace SceneText.DialogueTool

open Run Dialogue List Json Instruction

def castScene : List Json :=
  [toJson ⟨[0x00], 0, 0, [.str "あ"]⟩, toJson ⟨[0x10, 0xff, 0x00, 0x05], 4, 1, [.str "u32:2"]⟩,
    toJson ⟨[0x00], 12, 2, [.str "い"]⟩, toJson ⟨[0x15], 16, 3, []⟩,
    toJson ⟨[0x15], 17, 4, []⟩,
    toJson ⟨Opcodes.choiceSignature, 18, 5,
      [.str "u32:0", .str "bytes:00", .str "u8:1", .str "u32:0", .str "う"]⟩]

def castEvents : List Event :=
  [.text "あ", .speaker 2, .text "い", .sentenceEnd, .sentenceEnd, .choice ["う"]]

def castBytes : List UInt8 :=
  Utf8.encode (arr castScene).indented.toList

def castSession : Session where
  tree := ⟨[(["a.json"], .file castBytes false)]⟩
  workDir := []

theorem readJson_cast :
    eval (readJson "a.json") castSession = (.ok (.arr castScene), castSession) := by
  have hregular : (arr castScene).Regular := by
    have hbig : 10 ^ 2 ≤ 10 ^ maxDigits := by decide +kernel
    simp [castScene, toJson, Regular, RegularItems, RegularFields]
    omega
  exact HoldsDocument.read ⟨castBytes, rfl, documentOf_indented hregular (by decide)⟩

theorem cast_tells : List.Forall₂ Tells castScene castEvents := by
  have text : ∀ (t : String) (offset : Int) (index : Nat),
      Tells (toJson ⟨[0x00], offset, index, [.str t]⟩) (.text t) :=
    fun t offset index => .text rfl rfl
  have stop : ∀ (offset : Int) (index : Nat),
      Tells (toJson ⟨[0x15], offset, index, []⟩) .sentenceEnd :=
    fun offset index => .sentenceEnd rfl
  refine .cons (text _ _ _) (.cons ?_ (.cons (text _ _ _) (.cons (stop _ _) (.cons (stop _ _)
    (.cons ?_ .nil)))))
  · exact .speaker rfl rfl rfl
  · exact .choice rfl rfl rfl

end SceneText.DialogueTool
