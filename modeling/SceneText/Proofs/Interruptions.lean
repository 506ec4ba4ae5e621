import SceneText.Proofs.Joints

/-!
# Commands that fail

The translated document is cut for each command that puts texts back, and restored when all of them
have been run. A command that fails ends the run before that: what it was given stays in the place
of the document, and the rest of the document is gone.
-/

namespace SceneText

theorem Run.HoldsDocument.unique {s : Session} {path : String} {v w : Json}
    (hv : HoldsDocument s path v) (hw : HoldsDocument s path w) : v = w := by
  have hread : (Except.ok v, s) = (Except.ok w, s) := hv.read.symm.trans hw.read
  exact Except.ok.inj (Prod.mk.inj hread).1

namespace Pipeline

open Run
open Utf8 (encode)

/-- What stops a run because of a command: an exit code other than zero, or too long a wait. -/
inductive CommandFailure : Stop → Prop
  | exit (command : String) (code : Int) : CommandFailure (.fault (.commandFailed command code))
  | wait (command : String) : CommandFailure (.fault (.commandTimedOut command))

/-- Commands that run with the parts of a document between marks. Those before the one that stops
succeed; that one runs in the session `s₁` with the entries it has been given. -/
inductive Interrupted (shell : Shell) (document : List Json) (stop : Stop) (s' s₁ : Session)
    (entries : List Json) : Session → Json → List Json → List Exchange → Prop
  | here {s : Session} {low high : Json} {marks : List Json} {exchange : Exchange}
      {exchanges : List Exchange} (cut : part (.arr document) low high = .ok (.arr entries))
      (given : Given s entries s₁)
      (stops : eval (shell.demand exchange.replace) s₁ = (.error stop, s')) :
      Interrupted shell document stop s' s₁ entries s low (high :: marks) (exchange :: exchanges)
  | later {s t u : Session} {low high : Json} {marks own : List Json} {exchange : Exchange}
      {exchanges : List Exchange} (cut : part (.arr document) low high = .ok (.arr own))
      (given : Given s own t) (run : eval (shell.demand exchange.replace) t = (.ok (), u))
      (more : Interrupted shell document stop s' s₁ entries u high marks exchanges) :
      Interrupted shell document stop s' s₁ entries s low (high :: marks) (exchange :: exchanges)

variable {shell : Shell} {s s' s₁ : Session} {document entries marks rest : List Json} {stop : Stop}
  {low high : Json} {i : Nat} {exchange : Exchange} {exchanges : List Exchange}

theorem Interrupted.given
    (h : Interrupted shell document stop s' s₁ entries s low marks exchanges) :
    ∃ t, Given t entries s₁ := by
  induction h with
  | here cut given stops => exact ⟨_, given⟩
  | later cut given run more ih => exact ih

theorem part_cases (document : List Json) (low high : Json) :
    (∃ fault, part (.arr document) low high = .error fault ∧ ¬ CommandFailure (.fault fault)) ∨
      ∃ entries, part (.arr document) low high = .ok (.arr entries) ∧ entries ⊆ document := by
  have hbound : ∀ v, (∃ fault, bound v = .error fault ∧ ¬ CommandFailure (.fault fault)) ∨
      ∃ n, bound v = .ok n := by
    intro v
    unfold bound
    split
    · exact .inr ⟨none, rfl⟩
    · split
      · exact .inr ⟨_, rfl⟩
      · exact .inl ⟨_, rfl, fun h => by cases h⟩
  unfold part
  rcases hbound low with ⟨fault, hlow, hno⟩ | ⟨a, hlow⟩
  · exact .inl ⟨fault, by rw [hlow]; rfl, hno⟩
  · rcases hbound high with ⟨fault, hhigh, hno⟩ | ⟨b, hhigh⟩
    · exact .inl ⟨fault, by rw [hlow, hhigh]; rfl, hno⟩
    · refine .inr ⟨Json.range document a b, by rw [hlow, hhigh]; rfl, fun x hx => ?_⟩
      exact List.mem_of_mem_take (List.mem_of_mem_drop hx)

theorem not_commandFailure_write {text : String}
    (h : eval (writeText "generated/translated.json" text) s = (.error stop, s')) :
    ¬ CommandFailure stop := by
  rw [writeText, writeBytes, eval_change (by decide)] at h
  split at h
  · cases h
  · cases h
    exact fun h => by cases h

section

variable (hdocument : ∀ x ∈ document, x.Regular ∧ x.depth < Json.maxDepth)
include hdocument

theorem replaceParts_step (hmarks : marks.drop i = high :: rest)
    (hkeeps : Keeps s "generated/translated.json") :
    (∃ stop s', ¬ CommandFailure stop ∧
        eval (replaceParts shell {} (.arr document) (.arr marks) i low (exchange :: exchanges)) s =
          (.error stop, s')) ∨
      ∃ entries s₁, part (.arr document) low high = .ok (.arr entries) ∧ Given s entries s₁ ∧
        eval (replaceParts shell {} (.arr document) (.arr marks) i low (exchange :: exchanges)) s =
          eval (shell.demand exchange.replace >>= fun _ =>
            replaceParts shell {} (.arr document) (.arr marks) (i + 1) high exchanges) s₁ := by
  obtain ⟨hitem, -⟩ := item_of_drop hmarks
  rcases hopened : eval (writeText "generated/translated.json" "") s with ⟨stop | _, t⟩
  · refine .inl ⟨stop, t, not_commandFailure_write hopened, ?_⟩
    rw [replaceParts, eval_bind, hopened]
  · obtain ⟨loc, hopens⟩ := opens_of_written (by decide) hkeeps hopened
    rcases part_cases document low high with ⟨fault, hpart, hno⟩ | ⟨entries, hpart, hsub⟩
    · refine .inl ⟨.fault fault, t, hno, ?_⟩
      rw [replaceParts, eval_bind_ok hopened, hitem, eval_bind, eval_lift]
      dsimp only
      rw [hpart, eval_bind, eval_lift]
    · exact .inr ⟨entries, _, hpart, given_of_opens hopens fun x hx => hdocument x (hsub hx),
        eval_replaceParts_next hopens hitem hpart exchange exchanges⟩

section

variable (hlength : exchanges.length = (marks.drop i).length)
  (hshell : ∀ e ∈ exchanges, Sparing shell e.replace) (hkeeps : Keeps s "generated/translated.json")
include hlength hshell hkeeps

theorem keeps_replaceParts
    (hrun : eval (replaceParts shell {} (.arr document) (.arr marks) i low exchanges) s =
      (.ok (), s')) : Keeps s' "generated/translated.json" := by
  induction exchanges generalizing s i low with
  | nil =>
    cases hrun
    exact hkeeps
  | cons e exchanges ih =>
    obtain ⟨high, rest, hmarks⟩ := List.exists_cons_of_length_eq_add_one hlength.symm
    obtain ⟨-, hrest⟩ := item_of_drop hmarks
    rw [hmarks] at hlength
    rcases @replaceParts_step shell s document marks rest low high i e exchanges hdocument hmarks
      hkeeps with ⟨stop, t, -, hstop⟩ | ⟨entries, s₁, -, hgiven, hnext⟩
    · rw [hstop] at hrun
      cases hrun
    · rw [hnext] at hrun
      obtain ⟨_, t, ht, hmore⟩ := of_eval_bind hrun
      exact ih (hrest ▸ Nat.succ.inj hlength) (fun e he => hshell e (by simp [he]))
        (hshell e (by simp) _ _ hgiven.keeps ht) hmore

theorem replaceParts_interrupted_iff (hfailure : CommandFailure stop) :
    eval (replaceParts shell {} (.arr document) (.arr marks) i low exchanges) s =
        (.error stop, s') ↔
      ∃ entries s₁,
        Interrupted shell document stop s' s₁ entries s low (marks.drop i) exchanges := by
  induction exchanges generalizing s i low with
  | nil =>
    constructor
    · intro h
      cases h
    · rintro ⟨entries, s₁, h⟩
      generalize marks.drop i = left at h
      cases h
  | cons e exchanges ih =>
    obtain ⟨high, rest, hmarks⟩ := List.exists_cons_of_length_eq_add_one hlength.symm
    obtain ⟨hitem, hrest⟩ := item_of_drop hmarks
    rw [hmarks] at hlength ⊢
    have hmore : ∀ e ∈ exchanges, Sparing shell e.replace := fun e he => hshell e (by simp [he])
    have hcount : exchanges.length = (marks.drop (i + 1)).length := hrest ▸ Nat.succ.inj hlength
    constructor
    · intro h
      rcases @replaceParts_step shell s document marks rest low high i e exchanges hdocument hmarks
        hkeeps with ⟨stop', t, hno, hstop⟩ | ⟨entries, s₁, hpart, hgiven, hnext⟩
      · -- The run stopped before the command, and not because of one.
        rw [hstop] at h
        cases h
        exact absurd hfailure hno
      · rw [hnext, eval_bind] at h
        split at h
        · next hrun =>
          have hkept := hshell e (by simp) _ _ hgiven.keeps hrun
          obtain ⟨entries', s₂, hlater⟩ := (ih hcount hmore hkept).mp h
          exact ⟨entries', s₂, .later hpart hgiven hrun (hrest ▸ hlater)⟩
        · next hrun =>
          cases h
          exact ⟨entries, s₁, .here hpart hgiven hrun⟩
    · rintro ⟨entries, s₁, h⟩
      cases h with
      | here hpart hgiven hstops =>
        obtain ⟨⟨loc, hopens, rfl⟩, -⟩ := hgiven
        rw [eval_replaceParts_next hopens hitem hpart, eval_bind, hstops]
      | later hpart hgiven hrun hlater =>
        have hkept := hshell e (by simp) _ _ hgiven.keeps hrun
        obtain ⟨⟨loc, hopens, rfl⟩, -⟩ := hgiven
        rw [eval_replaceParts_next hopens hitem hpart, eval_bind_ok hrun]
        exact (ih hcount hmore hkept).mpr ⟨entries, s₁, hrest ▸ hlater⟩

end

end

/-- After all commands have succeeded the document is back. A run that ends because a command fails
has run the commands before it, each with its part, and this one with its own; that part is in the
place of the document when the command starts. If the command leaves the files alone the part is
still there, so that the document is there only if it is the part. -/
theorem splitAndReplace_interrupted {translated : List Json}
    (hplaces : HoldsDocument s "splits.json" (.arr marks))
    (htranslated : HoldsDocument s "generated/translated.json" (.arr translated))
    (hlength : exchanges.length = marks.length)
    (hshell : ∀ e ∈ exchanges, Sparing shell e.replace) :
    (∀ s', eval (splitAndReplace shell exchanges {} none) s = (.ok (), s') →
      HoldsDocument s' "generated/translated.json" (.arr translated)) ∧
    (∀ stop s', CommandFailure stop →
      (eval (splitAndReplace shell exchanges {} none) s = (.error stop, s') ↔
        ∃ entries s₁, Interrupted shell translated stop s' s₁ entries s (.int 0) marks exchanges)) ∧
    ∀ stop s' s₁ entries,
      Interrupted shell translated stop s' s₁ entries s (.int 0) marks exchanges →
        HoldsDocument s₁ "generated/translated.json" (.arr entries) ∧
        (s₁.SameFiles s' → (HoldsDocument s' "generated/translated.json" (.arr translated) ↔
            entries = translated)) := by
  have hkeeps := htranslated.keeps
  have hentries : ∀ x ∈ translated, x.Regular ∧ x.depth < Json.maxDepth := by
    obtain ⟨bytes, -, hdocument⟩ := htranslated
    exact item_regular hdocument
  have hcount : exchanges.length = (marks.drop 0).length := by rwa [List.drop_zero]
  rw [eval_splitAndReplace hplaces htranslated]
  refine ⟨fun s' h => ?_, fun stop s' hfailure => ?_, fun stop s' s₁ entries h => ?_⟩
  · obtain ⟨_, t, ht, hwritten⟩ := of_eval_bind h
    have hkept := keeps_replaceParts hentries hcount hshell hkeeps ht
    exact ((eval_write_iff hkept hentries).mp hwritten).held
  · rw [eval_bind]
    have hiff := @replaceParts_interrupted_iff shell s s' translated marks stop (.int 0) 0 exchanges
      hentries hcount hshell hkeeps hfailure
    rw [List.drop_zero] at hiff
    rw [← hiff]
    split
    · next hparts =>
      rw [hparts]
      exact iff_of_false (fun hwrite => not_commandFailure_write hwrite hfailure) (by simp)
    · next hparts => rw [hparts]
  · obtain ⟨t, hgiven⟩ := h.given
    refine ⟨hgiven.held, fun hsame => ?_⟩
    have hheld := hgiven.held.same hsame
    constructor
    · intro hall
      exact Json.arr.inj (hheld.unique hall)
    · rintro rfl
      exact hheld

def failingAt (bad : String) : Shell where
  run text := pure (some { code := if text = bad then 1 else 0 })

theorem eval_failingAt (bad text : String) (s : Session) :
    ∃ s', eval ((failingAt bad).demand text) s =
      (if text = bad then .error (.fault (.commandFailed text 1)) else .ok (), s') ∧
        s.SameFiles s' := by
  have hrun : eval ((failingAt bad).run text) (Shell.recorded text s) =
      (.ok (some { code := if text = bad then 1 else 0 }), Shell.recorded text s) := rfl
  obtain ⟨s', hend, hsame⟩ := Shell.eval_demand hrun
  refine ⟨s', ?_, hsame.tree, hsame.place⟩
  rw [hend]
  by_cases h : text = bad <;> simp [h]

theorem sparing_failingAt (bad text : String) : Sparing (failingAt bad) text := by
  intro s s' hkeeps hrun
  obtain ⟨t, hend, hsame⟩ := eval_failingAt bad text s
  rw [hend] at hrun
  cases (Prod.mk.inj hrun).2
  rw [Keeps, hsame.tree, hsame.place]
  exact hkeeps

/-- The second of two commands fails and leaves the second part of the document. -/
theorem splitAndReplace_interrupted_pair :
    ∃ s', eval (splitAndReplace (failingAt "put lines") pairExchanges {} none) cutSession =
        (.error (.fault (.commandFailed "put lines" 1)), s') ∧
      HoldsDocument s' "generated/translated.json" (.arr [.str "B", .str "C"]) ∧
      ¬ HoldsDocument s' "generated/translated.json" (.arr [.str "A", .str "B", .str "C"]) := by
  obtain ⟨-, hends, hleaves⟩ := splitAndReplace_interrupted places_cutSession
    translated_cutSession (show pairExchanges.length = 2 from rfl)
    fun e _ => sparing_failingAt "put lines" e.replace
  have hfirst := given_of_opens opens_cutSession (texts_regular ["A"])
  obtain ⟨t, hnames, hsame⟩ := eval_failingAt "put lines" "put names" { cutSession with
    tree := cutSession.tree.store ["generated", "translated.json"]
      (encode (Json.arr [.str "A"]).indented.toList) }
  have hagain := opens_same hsame (opens_cutSession.store opens_cutSession _)
  have hsecond := given_of_opens hagain (texts_regular ["B", "C"])
  obtain ⟨s', hlines, hsame'⟩ := eval_failingAt "put lines" "put lines" { t with
    tree := t.tree.store ["generated", "translated.json"]
      (encode (Json.arr [.str "B", .str "C"]).indented.toList) }
  have hinterrupted : Interrupted (failingAt "put lines") [.str "A", .str "B", .str "C"]
      (.fault (.commandFailed "put lines" 1)) s' _ [.str "B", .str "C"] cutSession (.int 0)
      [.int 1, .int 3] pairExchanges :=
    .later rfl hfirst hnames (.here rfl hsecond hlines)
  obtain ⟨hheld, hiff⟩ := hleaves _ _ _ _ hinterrupted
  refine ⟨s', (hends _ _ (.exit _ _)).mpr ⟨_, _, hinterrupted⟩, hheld.same hsame', ?_⟩
  rw [hiff hsame']
  simp

def halfway : Session where
  tree := ⟨[(["generated"], .directory), (["generated", "translated.json"],
      .file (encode (Json.arr [.str "A", .str "B"]).indented.toList) false),
    (["splits.json"], .file (encode (Json.arr [.int 1, .int 2]).indented.toList) false)]⟩
  workDir := []
  replies := [{}, { code := 1 }]

/-- The second part is all that is left of the document. -/
theorem splitAndReplace_leaves_part :
    halfway.tree.read [] "generated/translated.json" =
        .ok (encode (Json.arr [.str "A", .str "B"]).indented.toList) ∧
      (eval (splitAndReplace Shell.scripted [⟨"e1", "r1"⟩, ⟨"e2", "r2"⟩] {} none)
        halfway).2.tree.read [] "generated/translated.json" =
          .ok (encode (Json.arr [.str "B"]).indented.toList) := by
  refine ⟨?_, ?_⟩ <;> decide +kernel

end Pipeline
end SceneText
