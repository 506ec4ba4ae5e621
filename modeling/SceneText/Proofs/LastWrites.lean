import SceneText.Tool.FullWidth
import SceneText.Tool.Lengths
import SceneText.Tool.Preparation
import SceneText.Tool.Truncation
import SceneText.Tool.Wrap
import SceneText.Proofs.Copying
import SceneText.Proofs.Rewriting

/-!
# Documents written last

The tools that rewrite documents look at everything before they write anything: whatever can stop
them comes before the one document that they write, and nothing that follows it can stop them. So a
tool that fails has left every file as it was.
-/

namespace SceneText

theorem Session.SameFiles.refl (s : Session) : s.SameFiles s :=
  ⟨rfl, rfl⟩

theorem Session.SameFiles.trans {s t u : Session} (h : s.SameFiles t) (h' : t.SameFiles u) :
    s.SameFiles u :=
  ⟨h'.tree.trans h.tree, h'.place.trans h.place⟩

namespace Run

variable {α β : Type} {x : Run α} {f : α → Run β}

theorem eval_say (line : String) (s : Session) :
    eval (say line) s = (.ok (), { s with out := s.out ++ line ++ "\n" }) :=
  rfl

def Still (x : Run α) : Prop :=
  ∀ s, (eval x s).2 = s

theorem still_pure (v : α) : Still (pure v : Run α) :=
  fun _ => rfl

theorem still_fail (fault : Fault) : Still (fail fault : Run α) :=
  fun _ => rfl

theorem still_lift (x : Except Fault α) : Still (lift x) := by
  cases x with
  | ok v => exact still_pure v
  | error fault => exact still_fail fault

theorem still_inquire (path : String) (ask : FileTree → Location → Except FileCause α) :
    Still (inquire path ask) := by
  intro s
  rcases inquire_cases path ask s with ⟨stop, h⟩ | ⟨v, -, -, h⟩ <;> rw [h]

theorem Still.cases (hx : Still x) (s : Session) :
    (∃ stop, eval x s = (.error stop, s)) ∨ ∃ v, eval x s = (.ok v, s) := by
  have hsame := hx s
  rcases hrun : eval x s with ⟨stop | v, t⟩ <;> rw [hrun] at hsame <;> cases hsame
  · exact .inl ⟨stop, rfl⟩
  · exact .inr ⟨v, rfl⟩

theorem Still.bind (hx : Still x) (hf : ∀ v, Still (f v)) : Still (x >>= f) := by
  intro s
  rw [eval_bind]
  rcases hx.cases s with ⟨stop, h⟩ | ⟨v, h⟩ <;> rw [h]
  exact hf v s

theorem Still.bind_cases (hx : Still x) (f : α → Run β) (s : Session) :
    (∃ stop, eval (x >>= f) s = (.error stop, s)) ∨ ∃ v, eval (x >>= f) s = eval (f v) s := by
  rw [eval_bind]
  rcases hx.cases s with ⟨stop, h⟩ | ⟨v, h⟩ <;> rw [h]
  · exact .inl ⟨stop, rfl⟩
  · exact .inr ⟨v, rfl⟩

theorem still_readJson (path : String) : Still (readJson path) := by
  have hchars : Still (readChars path) := by
    refine Still.bind (still_inquire path _) fun bytes => ?_
    cases Utf8.decode bytes with
    | ok chars => exact still_pure _
    | error defect => exact still_fail _
  exact hchars.bind fun chars => still_lift _

theorem still_pathOf (value : Arguments.Value) : Still (pathOf value) := by
  cases value with
  | some path => exact still_pure path
  | none => exact still_fail _

inductive Deed
  | nothing
  | document

def Deed.Done : Deed → Session → Session → Prop
  | nothing, s, s' => s.SameFiles s'
  | document, s, s' => ∃ path v, Writes s path v s'

variable {deed : Deed}

theorem Deed.Done.then {r s s' : Session} (h : deed.Done r s) (hsame : s.SameFiles s') :
    deed.Done r s' := by
  cases deed with
  | nothing => exact Session.SameFiles.trans h hsame
  | document =>
    obtain ⟨path, v, hwrites⟩ := h
    exact ⟨path, v, hwrites.same (.refl r) hsame⟩

structure Ends (deed : Deed) (x : Run α) : Prop where
  stopped : ∀ {r s s' : Session} {stop}, r.SameFiles s → eval x s = (.error stop, s') →
    r.SameFiles s'
  done : ∀ {r s s' : Session} {v}, r.SameFiles s → eval x s = (.ok v, s') → deed.Done r s'

abbrev Looks (x : Run α) : Prop :=
  Ends .nothing x

abbrev WritesLast (x : Run α) : Prop :=
  Ends .document x

theorem looks_of_same (h : ∀ s : Session, s.SameFiles (eval x s).2) : Looks x := by
  constructor <;> intro r s s' _ hr hrun <;> have hsame := h s <;> rw [hrun] at hsame
  · exact hr.trans hsame
  · exact hr.trans hsame

theorem Still.looks (hx : Still x) : Looks x := by
  refine looks_of_same fun s => ?_
  rw [hx s]
  exact .refl s

theorem looks_pure (v : α) : Looks (pure v : Run α) :=
  (still_pure v).looks

theorem looks_lift (x : Except Fault α) : Looks (lift x) :=
  (still_lift x).looks

theorem looks_say (line : String) : Looks (say line) :=
  looks_of_same fun _ => ⟨rfl, rfl⟩

theorem looks_complain (line : String) : Looks (complain line) :=
  looks_of_same fun _ => ⟨rfl, rfl⟩

theorem ends_throw (stop : Stop) : Ends deed (throw stop : Run α) := by
  refine ⟨fun hr hrun => ?_, fun _ hrun => ?_⟩
  · cases hrun
    exact hr
  · cases hrun

theorem writesLast_writeJson (path : String) (v : Json) : WritesLast (writeJson path v) := by
  constructor <;> intro r s s' _ hr hrun
  · rcases change_cases path (fun tree dir => tree.write dir path
      (Utf8.encode v.indented.toList)) s with ⟨stop, hstop⟩ | ⟨tree, -, -, hdone⟩
    · cases hstop.symm.trans hrun
      exact hr
    · cases hdone.symm.trans hrun
  · exact ⟨path, v, (writes_of_eval hrun).same hr (.refl s')⟩

theorem Ends.bind (hx : Looks x) (hf : ∀ v, Ends deed (f v)) : Ends deed (x >>= f) := by
  constructor <;> intro r s s' _ hr hrun
  · rw [eval_bind] at hrun
    rcases hfirst : eval x s with ⟨stop | v, t⟩ <;> rw [hfirst] at hrun
    · cases hrun
      exact hx.stopped hr hfirst
    · exact (hf v).stopped (hx.done hr hfirst) hrun
  · obtain ⟨v, t, hfirst, hrest⟩ := of_eval_bind hrun
    exact (hf v).done (hx.done hr hfirst) hrest

theorem ends_say_throw (line : String) (stop : Stop) :
    Ends deed (say line >>= fun _ => throw stop : Run α) :=
  (looks_say line).bind fun _ => ends_throw stop

theorem looks_sayAll (lines : List String) : Looks (sayAll lines) := by
  induction lines with
  | nil => exact looks_pure ()
  | cons line lines ih => exact (looks_say line).bind fun _ => ih

theorem looks_arguments (result : Except Arguments.Early Arguments.Values) :
    Looks (arguments result) := by
  cases result with
  | ok values => exact looks_pure values
  | error early => cases early <;> exact looks_of_same fun _ => ⟨rfl, rfl⟩

theorem Ends.then (hx : Ends deed x) {y : Run Unit} (hy : Yields y ()) :
    Ends deed (x >>= fun _ => y) := by
  constructor <;> intro r s s' _ hr hrun
  · rw [eval_bind] at hrun
    rcases hfirst : eval x s with ⟨stop | v, t⟩ <;> rw [hfirst] at hrun
    · cases hrun
      exact hx.stopped hr hfirst
    · obtain ⟨_, hsaid, -⟩ := hy t
      cases hsaid.symm.trans hrun
  · obtain ⟨v, t, hfirst, hrest⟩ := of_eval_bind hrun
    obtain ⟨_, hsaid, hsame⟩ := hy t
    cases hsaid.symm.trans hrest
    exact (hx.done hr hfirst).then hsame

theorem attempt_stopped {s s' : Session} {stop : Stop} (h : eval x s = (.error stop, s')) :
    (∃ stop, eval (attempt x) s = (.error stop, s')) ∨
      ∃ fault, eval (attempt x) s = (.ok (.error fault), s') := by
  rw [eval_attempt, h]
  cases stop with
  | exit code => exact .inl ⟨_, rfl⟩
  | fault fault =>
    cases fault with
    | endless => exact .inl ⟨_, rfl⟩
    | _ => exact .inr ⟨_, rfl⟩

theorem Ends.recover (hx : Ends deed x) {f : Except Fault α → Run β}
    (hfault : ∀ fault, Ends deed (f (.error fault))) (hdone : ∀ v, ∃ w, Yields (f (.ok v)) w) :
    Ends deed (attempt x >>= f) := by
  constructor <;> intro r s s' _ hr hrun <;> rw [eval_bind] at hrun <;>
    rcases hfirst : eval x s with ⟨stop | v, t⟩
  · rcases attempt_stopped hfirst with ⟨stop, h⟩ | ⟨fault, h⟩ <;> rw [h] at hrun
    · cases hrun
      exact hx.stopped hr hfirst
    · exact (hfault fault).stopped (hx.stopped hr hfirst) hrun
  · obtain ⟨w, hw⟩ := hdone v
    obtain ⟨_, hend, -⟩ := hw t
    rw [eval_attempt, hfirst] at hrun
    cases hend.symm.trans hrun
  · rcases attempt_stopped hfirst with ⟨stop, h⟩ | ⟨fault, h⟩ <;> rw [h] at hrun
    · cases hrun
    · exact (hfault fault).done (hx.stopped hr hfirst) hrun
  · obtain ⟨w, hw⟩ := hdone v
    obtain ⟨_, hend, hsame⟩ := hw t
    rw [eval_attempt, hfirst] at hrun
    cases hend.symm.trans hrun
    exact (hx.done hr hfirst).then hsame

end Run

open Run

namespace PreparationTool

theorem looks_load (path : String) : Looks (load path) :=
  (still_readJson path).looks.recover (fun _ => ends_say_throw _ _)
    fun v => ⟨v, yields_pure v⟩

theorem writesLast_save (path : String) (document : Json) : WritesLast (save path document) :=
  (writesLast_writeJson path document).recover
    (fun _ => ends_say_throw _ _) fun v => ⟨v, yields_pure v⟩

theorem writesLast_prepare (modeName path : String) : WritesLast (prepare modeName path) := by
  refine (looks_load path).bind fun document => ?_
  split
  · exact (looks_say _).bind fun _ => ends_say_throw _ _
  · refine (looks_lift _).bind fun items => ?_
    refine (looks_sayAll _).bind fun _ => ?_
    split
    · exact ends_throw _
    · exact (writesLast_save path _).then ((yields_say _).bind ((yields_say _).bind (yields_say _)))

theorem writesLast_main (words : List String) : WritesLast (main words) := by
  unfold main
  split
  · exact writesLast_prepare _ _
  · exact (looks_sayAll _).bind fun _ => ends_throw _

end PreparationTool

namespace WrapTool

theorem writesLast_wrapFile (mode : Layout.WrapMode) (input output : Arguments.Value) :
    WritesLast (wrapFile mode input output) := by
  refine Ends.recover ?_ (fun fault => ?_) fun _ => ⟨(), yields_pure ()⟩
  · refine (still_pathOf input).looks.bind fun path => ?_
    refine (still_readJson path).looks.bind fun document => ?_
    refine (looks_lift _).bind fun entries => ?_
    refine (still_pathOf output).looks.bind fun target => ?_
    exact (writesLast_writeJson target _).then (yields_say _)
  · dsimp only
    split
    · exact ends_say_throw _ _
    · split
      · exact ends_say_throw _ _
      · exact ends_say_throw _ _

theorem writesLast_main (words : List String) : WritesLast (main words) :=
  (looks_arguments _).bind fun _ => writesLast_wrapFile _ _ _

end WrapTool

namespace TruncationTool

theorem ends_stage {α : Type} {deed : Deed} {x : Run α} (what : String) (code : Int)
    (hx : Ends deed x) : Ends deed (stage what code x) :=
  hx.recover (fun _ => (looks_complain _).bind fun _ => ends_throw _) fun v => ⟨v, yields_pure v⟩

theorem writesLast_main : WritesLast main := by
  refine (ends_stage _ _ ?_).bind fun documents => ?_
  · exact (still_readJson _).looks.bind fun _ => (still_readJson _).looks.bind fun _ => looks_pure _
  · refine (ends_stage _ _ (looks_lift _)).bind fun entries => ?_
    exact (ends_stage _ _ (writesLast_writeJson _ _)).then (yields_say _)

end TruncationTool

namespace LengthsTool

open Layout

theorem looks_charsetFor (label : Datum) : Looks (charsetFor label) := by
  cases label with
  | plain v =>
    refine (looks_lift _).bind fun text => ?_
    cases charset? text with
    | some name => exact looks_pure name
    | none => exact ends_say_throw _ _
  | bytes _ => exact ends_say_throw _ _

theorem looks_storedLength (text : List Char) (encoding : String) :
    Looks (storedLength text encoding) := by
  rw [storedLength]
  generalize Encoding.ofName? encoding = found
  by_cases hzero : encoding.toList.contains '\x00' = true
  · rw [if_pos hzero]
    exact ends_throw _
  · rw [if_neg hzero]
    cases found with
    | some e => exact looks_pure _
    | none => exact ends_say_throw _ _

theorem looks_sourceLength (message : Json) (measure : Measure) (encoding : String) :
    Looks (sourceLength message measure encoding) := by
  unfold sourceLength
  split
  · exact looks_lift _
  · exact looks_storedLength _ encoding
  · exact ends_throw _

theorem looks_roomFor (settings : Settings) (source : Json) : Looks (roomFor settings source) := by
  refine (looks_lift _).bind fun message => ?_
  refine (looks_lift _).bind fun stated => ?_
  refine (looks_lift _).bind fun length => ?_
  cases length with
  | some n => exact looks_pure n
  | none => exact (looks_sourceLength _ _ _).bind fun _ => looks_pure _

theorem looks_markEntry (i : Nat) (room : Int) (length : Nat) (entry : Json) :
    Looks (markEntry i room length entry) :=
  (looks_lift _).bind fun _ => (looks_complain _).bind fun _ => looks_pure _

theorem looks_skipEntry (i : Nat) (entry : Json) : Looks (skipEntry i entry) := by
  refine (looks_lift _).bind fun marked => ?_
  split
  · exact (looks_say _).bind fun _ => looks_lift _
  · exact (looks_say _).bind fun _ => looks_pure _

theorem looks_clearEntry (i : Nat) (room : Int) (length : Nat) (entry : Json) :
    Looks (clearEntry i room length entry) := by
  refine (looks_lift _).bind fun marked => ?_
  split
  · exact (looks_complain _).bind fun _ => looks_lift _
  · exact looks_pure _

theorem looks_fixEntry (settings : Settings) (i : Nat) (room : Int) (message entry : Json) :
    Looks (fixEntry settings i room message entry) := by
  refine (looks_lift _).bind fun shortened => ?_
  refine (looks_lift _).bind fun changed => ?_
  refine (looks_lift _).bind fun length => ?_
  split
  · refine (looks_lift _).bind fun marked => ?_
    cases marked with
    | true =>
      refine (looks_lift _).bind fun _ => ?_
      exact (looks_complain _).bind fun _ => looks_pure _
    | false => exact (looks_complain _).bind fun _ => looks_pure _
  · split
    · exact (looks_lift _).bind fun _ => (looks_complain _).bind fun _ => looks_pure _
    · exact (looks_markEntry _ _ _ _).bind fun _ => looks_pure _

theorem looks_processEntry (settings : Settings) (i : Nat) (source entry : Json) (tally : Tally) :
    Looks (processEntry settings i source entry tally) := by
  refine (looks_lift _).bind fun unbounded => ?_
  split
  · exact (looks_skipEntry i entry).bind fun _ => looks_pure _
  · refine (looks_lift _).bind fun _ => ?_
    refine (looks_lift _).bind fun message => ?_
    refine (looks_roomFor settings source).bind fun room => ?_
    refine (looks_lift _).bind fun length => ?_
    split
    · exact (looks_clearEntry _ _ _ _).bind fun _ => looks_pure _
    · split
      · exact looks_pure _
      · exact (looks_markEntry _ _ _ _).bind fun _ => looks_pure _
      · refine (looks_fixEntry _ _ _ _ _).bind fun fixed => ?_
        obtain ⟨fixed, fits⟩ := fixed
        cases fits with
        | true => exact looks_pure _
        | false => exact looks_pure _

theorem looks_processEntries (settings : Settings) (i : Nat) (tally : Tally)
    (pairs : List (Json × Json)) : Looks (processEntries settings i tally pairs) := by
  induction pairs generalizing i tally with
  | nil => exact looks_pure _
  | cons pair pairs ih =>
    refine (looks_processEntry _ _ _ _ _).bind fun first => ?_
    exact (ih _ _).bind fun _ => looks_pure _

theorem looks_outputPath (behaviour : Behaviour) (translated : Path.Clean) :
    Looks (outputPath behaviour translated) := by
  unfold outputPath
  split
  · exact looks_pure _
  · exact looks_pure _
  · split
    · exact ends_throw _
    · exact looks_pure _

theorem looks_loadBoth (source translated : Arguments.Value) :
    Looks (loadBoth source translated) := by
  have hload : ∀ path, Looks (load path) :=
    fun path => (still_pathOf path).looks.bind fun _ => (still_readJson _).looks
  refine Ends.recover ?_ (fun fault => ?_) fun both => ⟨both, yields_pure both⟩
  · exact (hload _).bind fun _ => (hload _).bind fun _ => looks_pure _
  · exact ends_say_throw _ _

theorem writesLast_process (settings : Settings) (source translated : Arguments.Value) :
    WritesLast (process settings source translated) := by
  refine (looks_loadBoth source translated).bind fun both => ?_
  split
  · split
    · exact ends_say_throw _ _
    · refine (looks_processEntries _ _ _ _).bind fun processed => ?_
      refine (still_pathOf _).looks.bind fun path => ?_
      refine (looks_outputPath _ _).bind fun output => ?_
      refine (writesLast_writeJson _ _).recover (fun fault => ?_) fun _ => ⟨(), yields_sayAll _⟩
      exact ends_say_throw _ _
  · exact ends_say_throw _ _

theorem writesLast_main (words : List String) : WritesLast (main words) :=
  (looks_arguments _).bind fun _ => (looks_charsetFor _).bind fun _ => writesLast_process _ _ _

end LengthsTool

namespace FullWidthTool

inductive Reports (input : Arguments.Value) : String → Prop
  | missing : Reports input s!"错误：找不到文件 {input.shown}"
  | malformed : Reports input s!"错误：{input.shown} 不是有效的JSON文件"
  | other (fault : Fault) : Reports input s!"处理过程中出现错误: {fault.message}"

theorem not_reports_farewell (input output : Arguments.Value) :
    ¬ Reports input (farewell output) := by
  have hthird : ∀ a b : String, 2 < a.toList.length → (a ++ b).toList[2]? = a.toList[2]? := by
    intro a b h
    rw [String.toList_append, List.getElem?_append_left h]
  intro h
  generalize hline : farewell output = line at h
  have hdone : line.toList[2]? = some '完' := by
    rw [← hline]
    exact hthird _ _ (by decide)
  cases h with
  | missing =>
    rw [hthird _ _ (by decide)] at hdone
    cases hdone
  | malformed =>
    rw [String.append_assoc, hthird _ _ (by decide)] at hdone
    cases hdone
  | other fault =>
    rw [hthird _ _ (by decide)] at hdone
    cases hdone

theorem rewrite_cases (input output : Arguments.Value) (s : Session) :
    (∃ stop, eval (rewrite input output) s = (.error stop, s)) ∨ ∃ path, ∃ document : Json, ∃ tree,
        s.tree.write s.workDir path (Utf8.encode document.indented.toList) = .ok tree ∧
        eval (rewrite input output) s =
          (.ok (), { s with tree := tree, out := s.out ++ farewell output ++ "\n" }) := by
  rw [rewrite]
  rcases (still_pathOf input).bind_cases _ s with ⟨stop, h⟩ | ⟨path, h⟩ <;> rw [h]
  · exact .inl ⟨stop, rfl⟩
  rcases (still_readJson path).bind_cases _ s with ⟨stop, h⟩ | ⟨old, h⟩ <;> rw [h]
  · exact .inl ⟨stop, rfl⟩
  rcases (still_lift (Layout.widenDocument old)).bind_cases _ s with
    ⟨stop, h⟩ | ⟨document, h⟩ <;> rw [h]
  · exact .inl ⟨stop, rfl⟩
  rcases (still_pathOf output).bind_cases _ s with ⟨stop, h⟩ | ⟨target, h⟩ <;> rw [h]
  · exact .inl ⟨stop, rfl⟩
  rcases change_cases target (fun tree dir => tree.write dir target
    (Utf8.encode document.indented.toList)) s with ⟨stop, h⟩ | ⟨tree, -, hwrite, h⟩
  · refine .inl ⟨stop, ?_⟩
    rw [eval_bind, writeJson, writeText, writeBytes, h]
  · refine .inr ⟨target, document, tree, hwrite, ?_⟩
    rw [eval_bind, writeJson, writeText, writeBytes, h]
    rfl

theorem widenFile_cases (input output : Arguments.Value) (s : Session) :
    (∃ stop, eval (widenFile input output) s = (.error stop, s)) ∨
      (∃ line, Reports input line ∧ eval (widenFile input output) s =
        (.ok (), { s with out := s.out ++ line ++ "\n" })) ∨
      ∃ path, ∃ document : Json, ∃ tree,
        s.tree.write s.workDir path (Utf8.encode document.indented.toList) = .ok tree ∧
        eval (widenFile input output) s =
          (.ok (), { s with tree := tree, out := s.out ++ farewell output ++ "\n" }) := by
  rcases rewrite_cases input output s with ⟨stop, hrun⟩ | ⟨path, document, tree, hwrite, hrun⟩
  · rcases attempt_stopped hrun with ⟨stop, hstop⟩ | ⟨fault, hfault⟩
    · refine .inl ⟨stop, ?_⟩
      exact (eval_bind (attempt (rewrite input output)) _ s).trans (by rw [hstop])
    · refine .inr (.inl ?_)
      have hanswer := fun f : Except Fault Unit → Run Unit => eval_bind_ok hfault f
      by_cases hmissing : fault.isMissingFile = true
      · refine ⟨_, .missing, (hanswer _).trans ?_⟩
        dsimp only
        rw [if_pos hmissing, eval_say]
      by_cases hbad : fault.isBadDocument = true
      · refine ⟨_, .malformed, (hanswer _).trans ?_⟩
        dsimp only
        rw [if_neg hmissing, if_pos hbad, eval_say]
      · refine ⟨_, .other fault, (hanswer _).trans ?_⟩
        dsimp only
        rw [if_neg hmissing, if_neg hbad, eval_say]
  · refine .inr (.inr ⟨path, document, tree, hwrite, ?_⟩)
    have hattempt := eval_attempt (rewrite input output) s
    rw [hrun] at hattempt
    exact eval_bind_ok hattempt _

end FullWidthTool

/-- The tools that rewrite documents, each with what it is called with. -/
inductive Rewriter
  | preparation (words : List String)
  | wrapping (words : List String)
  | truncation
  | lengths (words : List String)
  | widening (input output : Arguments.Value)

namespace Rewriter

def run : Rewriter → Run Unit
  | preparation words => PreparationTool.main words
  | wrapping words => WrapTool.main words
  | truncation => TruncationTool.main
  | lengths words => LengthsTool.main words
  | widening input output => FullWidthTool.widenFile input output

def Reports : Rewriter → String → Prop
  | widening input _, line => FullWidthTool.Reports input line
  | _, _ => False

/-- A tool started in a session stops, or reports a failure. -/
def Fails (tool : Rewriter) (s : Session) : Prop :=
  (∃ stop, (eval tool.run s).1 = .error stop) ∨
    ∃ line, tool.Reports line ∧ (eval tool.run s).2.out = s.out ++ line ++ "\n"

theorem all_or_nothing_of_writesLast (tool : Rewriter) (h : WritesLast tool.run)
    (hreports : ∀ line, ¬ tool.Reports line) (s : Session) :
    (tool.Fails s → s.SameFiles (eval tool.run s).2) ∧
      (¬ tool.Fails s → ∃ path document, Writes s path document (eval tool.run s).2) := by
  rcases hrun : eval tool.run s with ⟨stop | v, s'⟩
  · refine ⟨fun _ => h.stopped (.refl s) hrun, fun hfails => ?_⟩
    exact absurd (.inl ⟨stop, by rw [hrun]⟩) hfails
  · refine ⟨?_, fun _ => h.done (.refl s) hrun⟩
    rintro (⟨stop, hstop⟩ | ⟨line, hline, -⟩)
    · rw [hrun] at hstop
      cases hstop
    · exact absurd hline (hreports line)

/-- A tool that rewrites documents does all or nothing: if it fails, the files are as they were, and
if it does not, one document has been written as a whole and nothing else has changed. -/
theorem run_all_or_nothing (tool : Rewriter) (s : Session) :
    (tool.Fails s → s.SameFiles (eval tool.run s).2) ∧
      (¬ tool.Fails s → ∃ path document, Writes s path document (eval tool.run s).2) := by
  cases tool with
  | preparation words =>
    exact all_or_nothing_of_writesLast (.preparation words)
      (PreparationTool.writesLast_main words) (fun _ => id) s
  | wrapping words =>
    exact all_or_nothing_of_writesLast (.wrapping words) (WrapTool.writesLast_main words)
      (fun _ => id) s
  | truncation =>
    exact all_or_nothing_of_writesLast .truncation TruncationTool.writesLast_main (fun _ => id) s
  | lengths words =>
    exact all_or_nothing_of_writesLast (.lengths words) (LengthsTool.writesLast_main words)
      (fun _ => id) s
  | widening input output =>
    have hrun : (widening input output).run = FullWidthTool.widenFile input output := rfl
    have hcases := FullWidthTool.widenFile_cases input output s
    rw [← hrun] at hcases
    rcases hcases with ⟨stop, hrun⟩ | ⟨line, hline, hrun⟩ | ⟨path, document, tree, hwrite, hrun⟩
    · refine ⟨fun _ => ?_, fun hfails => absurd (.inl ⟨stop, by rw [hrun]⟩) hfails⟩
      rw [hrun]
      exact .refl s
    · refine ⟨fun _ => ?_, fun hfails => absurd (.inr ⟨line, hline, by rw [hrun]⟩) hfails⟩
      rw [hrun]
      exact ⟨rfl, rfl⟩
    · refine ⟨?_, fun _ => ⟨path, document, ?_⟩⟩
      · rintro (⟨stop, hstop⟩ | ⟨line, hline, hout⟩)
        · rw [hrun] at hstop
          cases hstop
        · rw [hrun, String.append_left_inj, String.append_right_inj] at hout
          rw [← hout] at hline
          exact absurd hline (FullWidthTool.not_reports_farewell input output)
      · rw [hrun]
        exact ⟨hwrite, rfl⟩

def halfTagged : Session where
  tree := ⟨[(["a.json"], .file (Utf8.encode (Json.arr
    [.obj [("message", .str "[select]b"), ("is_select", .bool true)],
     .obj [("message", .str "c"), ("is_select", .bool true)]]).indented.toList) false)]⟩
  workDir := []

/-- Tags are taken off none of the entries, or added to all of them. -/
theorem run_all_or_nothing_tags :
    halfTagged.SameFiles (eval (preparation ["r", "a.json"]).run halfTagged).2 ∧ ∃ path document,
        Writes halfTagged path document (eval (preparation ["e", "a.json"]).run halfTagged).2 := by
  have hstops : (eval (preparation ["r", "a.json"]).run halfTagged).1.toOption = none := by
    decide +kernel
  have hends : (eval (preparation ["e", "a.json"]).run halfTagged).1.toOption = some () := by
    decide +kernel
  constructor
  · apply (run_all_or_nothing (preparation ["r", "a.json"]) halfTagged).1
    rcases hrun : (eval (preparation ["r", "a.json"]).run halfTagged).1 with stop | v
    · exact .inl ⟨stop, hrun⟩
    · rw [hrun] at hstops
      cases hstops
  · apply (run_all_or_nothing (preparation ["e", "a.json"]) halfTagged).2
    rintro (⟨stop, hrun⟩ | ⟨line, hline, -⟩)
    · rw [hrun] at hends
      cases hends
    · exact hline

end Rewriter
end SceneText
