import SceneText.Shell
import SceneText.Proofs.Files

/-!
# Commands that run tools

A command that is put together from parts has the words of its parts. A shell that runs tools in the
session at hand does to the files what the tool does, and demanding the command fails if the tool
ends in a fault.
-/

namespace SceneText

variable {words : List String}

namespace Words

variable {text : List Char}

theorem cut_blank {state : State} {held : List Char} (h : cut state held text = some words)
    (rest : List Char) :
    cut state held (text ++ ' ' :: rest) = (cut .between [] rest).map (words ++ ·) := by
  induction text generalizing state held words with
  | nil =>
    cases state with
    | between =>
      cases h
      simp [cut, isBlank]
    | word =>
      cases h
      simp [cut, isBlank]
    | single => cases h
    | double => cases h
    | escaped => cases h
    | doubleEscaped => cases h
  | cons c text ih =>
    rw [List.cons_append]
    cases state with
    | between =>
      simp only [cut] at h ⊢
      split_ifs at h ⊢ <;> exact ih h
    | word =>
      simp only [cut] at h ⊢
      split_ifs at h ⊢
      · obtain ⟨more, hmore, rfl⟩ := Option.map_eq_some_iff.mp h
        rw [ih hmore, Option.map_map]
        rfl
      all_goals exact ih h
    | single =>
      simp only [cut] at h ⊢
      split_ifs at h ⊢ <;> exact ih h
    | double =>
      simp only [cut] at h ⊢
      split_ifs at h ⊢ <;> exact ih h
    | escaped => exact ih h
    | doubleEscaped =>
      simp only [cut] at h ⊢
      split_ifs at h ⊢ <;> exact ih h

theorem split_append {a b : String} {more : List String} (ha : split a = some words)
    (hb : split b = some more) : split (a ++ " " ++ b) = some (words ++ more) := by
  have hchars : (a ++ " " ++ b).toList = a.toList ++ ' ' :: b.toList := by simp
  unfold split at ha hb ⊢
  rw [hchars, cut_blank ha, hb]
  rfl

theorem split_intercalate {text : String → String} {words : String → List String}
    (xs : List String) (h : ∀ x ∈ xs, split (text x) = some (words x)) :
    split (" ".intercalate (xs.map text)) = some (xs.flatMap words) := by
  induction xs with
  | nil => rfl
  | cons x xs ih =>
    have hrest := ih fun y hy => h y (by simp [hy])
    cases xs with
    | nil => simpa using h x (by simp)
    | cons y xs =>
      rw [List.map_cons, List.map_cons, String.intercalate_cons_cons]
      exact split_append (h x (by simp)) hrest

theorem cut_quoted (h : '"' ∉ text ∧ '\\' ∉ text) (held rest : List Char) :
    cut .double held (text ++ '"' :: rest) = cut .word (held ++ text) rest := by
  induction text generalizing held with
  | nil => simp [cut]
  | cons c text ih =>
    simp only [List.mem_cons, not_or] at h
    rw [List.cons_append, cut, if_neg (Ne.symm h.1.1), if_neg (Ne.symm h.2.1), ih ⟨h.1.2, h.2.2⟩]
    simp

theorem split_quoted {text : String} (h : '"' ∉ text.toList ∧ '\\' ∉ text.toList) :
    split ("\"" ++ text ++ "\"") = some [text] := by
  have hchars : ("\"" ++ text ++ "\"").toList = '"' :: (text.toList ++ ['"']) := by simp
  rw [split, hchars, cut, if_neg (by decide), if_neg (by decide), if_pos rfl, cut_quoted h, cut]
  simp

end Words

/-- Two sessions with the same files, seen from the same place. -/
structure Session.SameFiles (s s' : Session) : Prop where
  tree : s'.tree = s.tree
  place : s'.workDir = s.workDir

namespace Run

section SameFiles

variable {s s' : Session} {path : String} {loc : Location} {bytes : List UInt8} {x : Run Unit}

theorem Reads.same (h : Reads s path bytes) (hsame : s.SameFiles s') : Reads s' path bytes := by
  rw [reads_iff] at h ⊢
  rwa [hsame.tree, hsame.place]

theorem Holds.same (h : Holds s path loc bytes) (hsame : s.SameFiles s') :
    Holds s' path loc bytes := by
  obtain ⟨hplain, hlocated, hstored⟩ := h
  exact ⟨hplain, by rwa [hsame.tree, hsame.place], by rwa [hsame.tree]⟩

theorem HoldsDocument.same {v : Json} (h : HoldsDocument s path v) (hsame : s.SameFiles s') :
    HoldsDocument s' path v := by
  obtain ⟨bytes, hread, hdocument⟩ := h
  exact ⟨bytes, hread.same hsame, hdocument⟩

theorem opens_same (hsame : s.SameFiles s') (h : s.tree.Opens s.workDir path loc) :
    s'.tree.Opens s'.workDir path loc := by
  rwa [hsame.tree, hsame.place]

theorem Talk.before (hx : Talk x) (y : Run Unit) (s : Session) :
    ∃ s', eval (x >>= fun _ => y) s = eval y s' ∧ s.SameFiles s' := by
  obtain ⟨out, hout⟩ := hx s
  exact ⟨{ s with out := out }, by rw [eval_bind, hout], rfl, rfl⟩

theorem Talk.behind (hx : Talk x) (y : Run Unit) (s : Session) :
    ∃ s', eval (y >>= fun _ => x) s = ((eval y s).1, s') ∧ (eval y s).2.SameFiles s' := by
  rw [eval_bind]
  rcases eval y s with ⟨stop | v, t⟩
  · exact ⟨t, rfl, rfl, rfl⟩
  · obtain ⟨out, hout⟩ := hx t
    exact ⟨{ t with out := out }, hout, rfl, rfl⟩

end SameFiles

theorem isolated_eq (tool : Run Unit) (s : Session) :
    eval (isolated tool) s =
      match eval tool { s with out := "", err := "" } with
      | (result, t) =>
        eval (match result with
          | .ok _ => pure { out := t.out, err := t.err }
          | .error (.exit code) => pure { code := code, out := t.out, err := t.err }
          | .error (.fault .endless) => fail .endless
          | .error (.fault fault) =>
            pure { code := 1, out := t.out, err := t.err, fault := some fault })
          { t with out := s.out, err := s.err } :=
  rfl

theorem eval_isolated (tool : Run Unit) (s : Session) :
    eval (isolated tool) s =
      match eval tool { s with out := "", err := "" } with
      | (.ok _, t) => (.ok { out := t.out, err := t.err }, { t with out := s.out, err := s.err })
      | (.error (.exit code), t) =>
        (.ok { code := code, out := t.out, err := t.err }, { t with out := s.out, err := s.err })
      | (.error (.fault .endless), t) =>
        (.error (.fault .endless), { t with out := s.out, err := s.err })
      | (.error (.fault fault), t) =>
        (.ok { code := 1, out := t.out, err := t.err, fault := some fault },
          { t with out := s.out, err := s.err }) := by
  rw [isolated_eq]
  rcases eval tool { s with out := "", err := "" } with ⟨(code | fault) | _, t⟩
  · rfl
  · cases fault <;> rfl
  · rfl

end Run

namespace Shell

open Run

variable {shell : Shell} {text : String} {s t : Session} {outcome : Outcome}

def recorded (text : String) (s : Session) : Session :=
  { s with commands := s.commands ++
      [{ text := text, directory := none, flags := s.environment.lookup flagsVariable }] }

theorem perform_eq (shell : Shell) (text : String) (s : Session) :
    eval (shell.perform text none) s = eval (shell.run text >>= fun
        | none => fail (.commandTimedOut text)
        | some outcome => do
          modify fun s' => { s' with
            commands := s'.commands.modify s.commands.length (finishRecord outcome) }
          return outcome) (recorded text s) :=
  rfl

theorem eval_perform (h : eval (shell.run text) (recorded text s) = (.ok (some outcome), t)) :
    eval (shell.perform text none) s = (.ok outcome, { t with
      commands := t.commands.modify s.commands.length (finishRecord outcome) }) := by
  rw [perform_eq, eval_bind, h]
  rfl

theorem eval_demand (h : eval (shell.run text) (recorded text s) = (.ok (some outcome), t)) :
    ∃ s', eval (shell.demand text) s = (if outcome.code = 0 then .ok ()
        else .error (.fault (.commandFailed text outcome.code)), s') ∧ t.SameFiles s' := by
  rw [demand, eval_bind, system, eval_bind, eval_attempt, eval_perform h]
  dsimp only
  by_cases hcode : outcome.code = 0
  · have hcheck : ¬(true && decide (outcome.code ≠ 0)) = true := by simp [hcode]
    rw [if_pos hcode, if_neg hcheck]
    exact ⟨_, rfl, rfl, rfl⟩
  · have hcheck : (true && decide (outcome.code ≠ 0)) = true := by simp [hcode]
    rw [if_neg hcode, if_pos hcheck]
    exact ⟨_, rfl, rfl, rfl⟩

structure Runs (tool : String → Option (List String → Run Unit)) (text : String)
    (main : List String → Run Unit) (words : List String) : Prop where
  starts : Text.hasPrefix text toolWord = true
  split : ∃ first name, Words.split text = some (first :: name :: words) ∧
    tool (Path.collapsed name) = some main

theorem Runs.eval_demand {tool : String → Option (List String → Run Unit)}
    {main : List String → Run Unit} (h : Runs tool text main words) (behind : Shell) (s : Session) :
    ∃ o, s.SameFiles o ∧ (∀ t, eval (main words) o = (.ok (), t) →
        ∃ s', eval ((within tool behind).demand text) s = (.ok (), s') ∧ t.SameFiles s') ∧
      ∀ reason t, eval (main words) o = (.error (.fault (.refused reason)), t) →
        ∃ s', eval ((within tool behind).demand text) s =
          (.error (.fault (.commandFailed text 1)), s') := by
  obtain ⟨first, name, hsplit, htool⟩ := h.split
  have hrun : eval ((within tool behind).run text) (recorded text s) =
      eval (isolated (main words) >>= fun outcome => pure (some outcome)) (recorded text s) := by
    simp only [within, h.starts, hsplit, htool]
    rfl
  rw [eval_bind, eval_isolated] at hrun
  refine ⟨{ recorded text s with out := "", err := "" }, ⟨rfl, rfl⟩, fun t ht => ?_,
    fun reason t ht => ?_⟩
  · rw [ht] at hrun
    obtain ⟨s', hend, hsame⟩ := Shell.eval_demand hrun
    exact ⟨s', hend, hsame.tree, hsame.place⟩
  · rw [ht] at hrun
    obtain ⟨s', hend, -⟩ := Shell.eval_demand hrun
    exact ⟨s', hend⟩

end Shell
end SceneText
