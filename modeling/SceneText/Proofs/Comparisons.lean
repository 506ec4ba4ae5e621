import SceneText.Proofs.Marks
import SceneText.Proofs.Rewriting

/-!
# Comparisons of translations with their sources

A run of the length tool on two documents leaves the files as they are until it writes, and what it
writes are the outcomes of the entries, one beside each source. So every entry of the written
document is marked as it should be, and a second check writes what the first one has written, even
where both documents are in one file.
-/

namespace SceneText.LengthsTool

open Run Layout Arguments List SceneText.Path Json

variable {cs : Charset} {translated : Clean}

section
variable {settings : Settings} {cs : Charset} {source entry fields : Fields}

theorem get_message (h : Typed fields) :
    Json.get (.obj fields) "message" (.str "") = .ok (.str (textOf fields)) := by
  rw [Json.get, textOf]
  cases hmessage : fields.lookup "message" with
  | none => rfl
  | some v =>
    obtain ⟨text, rfl⟩ := h.message v hmessage
    rfl

theorem isUnbounded_eq (source : Fields) :
    isUnbounded (.obj source) = .ok (decide (Unbounded source)) :=
  isUnbounded_obj.mpr decide_eq_true_iff

theorem remove_obj {key : String} (h : (fields.lookup key).isSome) :
    remove (.obj fields) key = .ok (.obj (dropField key fields)) := by
  rw [remove, any_eq_isSome, if_pos h]

theorem yields_unmark {α : Type} {found absent : Run α} {f : Fields → α}
    (hfound : (entry.lookup "error").isSome → Yields found (f (dropField "error" entry)))
    (habsent : Yields absent (f entry)) :
    Yields (lift (has (.obj entry) "error") >>= fun there => if there then found else absent)
      (f (dropField "error" entry)) := by
  refine (yields_lift (has_obj entry "error")).bind ?_
  by_cases h : (entry.lookup "error").isSome
  · rw [if_pos h]
    exact hfound h
  · rw [if_neg h, dropField_absent (Option.not_isSome_iff_eq_none.mp h)]
    exact habsent

theorem yields_skipEntry (i : Nat) (entry : Fields) :
    Yields (skipEntry i (.obj entry)) (.obj (dropField "error" entry)) := by
  apply yields_unmark (f := obj)
  · exact fun h => (yields_say _).bind (yields_lift (remove_obj h))
  · exact (yields_say _).bind (yields_pure _)

theorem yields_clearEntry (i : Nat) (room : Int) (length : Nat) (entry : Fields) :
    Yields (clearEntry i room length (.obj entry)) (.obj (dropField "error" entry)) := by
  apply yields_unmark (f := obj)
  · exact fun h => (yields_complain _).bind (yields_lift (remove_obj h))
  · exact yields_pure _

theorem yields_markEntry (i : Nat) (room : Int) (length : Nat) {behaviour : Behaviour}
    (h : behaviour ≠ .drastic) (entry : Fields) :
    Yields (markEntry i room length (.obj entry))
      (.obj (setField "error" (.str (mark behaviour room length)) entry)) := by
  rw [mark, if_neg h]
  exact (yields_lift rfl).bind ((yields_complain _).bind (yields_pure _))

theorem yields_fixEntry (settings : Settings) (i : Nat) (room : Int)
    (entry : Fields) :
    ∃ fits, Yields (fixEntry settings i room (.str (textOf entry)) (.obj entry))
      (.obj (shortened settings room entry), fits) := by
  have hshort := shortenValue_str settings.measure room (settings.behaviour = .drastic)
    (textOf entry)
  rw [shortened]
  generalize shorten _ _ _ _ = short at hshort ⊢
  obtain ⟨text, fits⟩ := short
  refine ⟨fits, (yields_lift hshort).bind ?_⟩
  refine (yields_lift (settings.measure.lengthOf_str _)).bind ?_
  rw [String.toList_ofList]
  cases fits with
  | true =>
    apply yields_unmark (f := fun fields => (obj fields, true))
    · exact fun h => (yields_lift (remove_obj h)).bind ((yields_complain _).bind (yields_pure _))
    · exact (yields_pure _).bind ((yields_complain _).bind (yields_pure _))
  | false =>
    rw [if_neg Bool.false_ne_true, if_neg Bool.false_ne_true]
    by_cases hdrastic : settings.behaviour = .drastic
    · rw [if_pos (decide_eq_true hdrastic), mark, if_pos hdrastic]
      exact (yields_lift rfl).bind ((yields_complain _).bind (yields_pure _))
    · rw [if_neg (by simpa using hdrastic)]
      exact (yields_markEntry i room _ hdrastic _).bind (yields_pure _)

def lengthCharsets : List Charset := [.cp932, .gbk]

theorem yields_storedLength (hcs : cs ∈ lengthCharsets) (text : List Char) :
    Yields (storedLength text cs.name) (cs.lossySize text) := by
  have hplain : ∀ cs ∈ lengthCharsets, cs.name.toList.contains '\x00' = false := by decide
  have hname : ∀ cs ∈ lengthCharsets, Encoding.ofName? cs.name = some (.charset cs) := by
    decide +kernel
  rw [storedLength, hplain cs hcs, hname cs hcs]
  exact yields_pure _

theorem yields_sourceLength (hcs : cs ∈ lengthCharsets) (measure : Measure) (text : String) :
    Yields (sourceLength (.str text) measure cs.name) (sourceSize measure cs text) := by
  cases measure with
  | chars => exact yields_lift rfl
  | cells => exact yields_storedLength hcs text.toList

theorem yields_roomFor (h : Typed source) (hcs : cs ∈ lengthCharsets)
    (hencoding : settings.encoding = cs.name) :
    Yields (roomFor settings (.obj source)) (roomOf settings.measure cs source) := by
  refine (yields_lift (get_message h)).bind ?_
  refine (yields_lift rfl).bind ?_
  rw [roomOf]
  cases hlength : source.lookup "message_orig_len" with
  | some v =>
    obtain ⟨n, rfl⟩ := h.length v hlength
    exact (yields_lift rfl).bind (yields_pure n)
  | none =>
    rw [hencoding]
    exact (yields_sourceLength hcs _ _).bind (yields_pure _)

theorem yields_processEntry (hsource : Typed source) (hentry : Typed entry)
    (hcs : cs ∈ lengthCharsets) (hencoding : settings.encoding = cs.name) (i : Nat)
    (tally : Tally) :
    ∃ w, Yields (processEntry settings i (.obj source) (.obj entry) tally) w ∧
      w.1 = .obj (outcome settings cs source entry) := by
  refine (yields_lift (isUnbounded_eq source)).bind_exists ?_
  by_cases hfree : Unbounded source
  · rw [if_pos (decide_eq_true hfree), outcome_passes (.inl hfree)]
    exact ⟨_, (yields_skipEntry i entry).bind (yields_pure _), rfl⟩
  rw [if_neg (by simpa using hfree)]
  refine (yields_lift (get_message hsource)).bind_exists ?_
  refine (yields_lift (get_message hentry)).bind_exists ?_
  refine (yields_roomFor hsource hcs hencoding).bind_exists ?_
  refine (yields_lift (settings.measure.lengthOf_str _)).bind_exists ?_
  by_cases hfits : (settings.measure.length (textOf entry).toList : Int) ≤
      roomOf settings.measure cs source
  · rw [if_pos hfits, outcome_passes (.inr hfits)]
    exact ⟨_, (yields_clearEntry i _ _ entry).bind (yields_pure _), rfl⟩
  have hlong : ¬ Passes settings cs source entry := not_or.mpr ⟨hfree, hfits⟩
  rw [if_neg hfits, outcome, if_neg hlong]
  generalize roomOf settings.measure cs source = room
  -- Both ways of fixing differ in how the message is shortened only.
  have hfix : ∃ w, Yields (fixEntry settings i room (.str (textOf entry)) (.obj entry) >>= fun r =>
        if r.2 then pure (r.1, { tally with fixed := tally.fixed + 1 })
        else pure (r.1, { tally with marked := tally.marked + 1 })) w ∧
      w.1 = .obj (shortened settings room entry) := by
    obtain ⟨fits, hyields⟩ := yields_fixEntry settings i room entry
    refine hyields.bind_exists ?_
    cases fits <;> exact ⟨_, yields_pure _, rfl⟩
  cases settings.behaviour with
  | idle => exact ⟨_, yields_pure _, rfl⟩
  | check => exact ⟨_, (yields_markEntry i _ _ (by decide) entry).bind (yields_pure _), rfl⟩
  | fix => exact hfix
  | drastic => exact hfix

theorem yields_processEntries {pairs : List (Fields × Fields)}
    (hpairs : ∀ p ∈ pairs, Typed p.1 ∧ Typed p.2) (hcs : cs ∈ lengthCharsets)
    (hencoding : settings.encoding = cs.name) (i : Nat) (tally : Tally) :
    ∃ w, Yields (processEntries settings i tally (pairs.map fun p => (.obj p.1, .obj p.2))) w ∧
      w.1 = pairs.map fun p => .obj (outcome settings cs p.1 p.2) := by
  induction pairs generalizing i tally with
  | nil => exact ⟨_, yields_pure _, rfl⟩
  | cons pair pairs ih =>
    rw [forall_mem_cons] at hpairs
    obtain ⟨⟨result, tally'⟩, hentry, rfl⟩ :=
      yields_processEntry hpairs.1.1 hpairs.1.2 hcs hencoding i tally
    obtain ⟨⟨results, tally''⟩, hrest, rfl⟩ := ih hpairs.2 (i + 1) tally'
    exact ⟨_, hentry.bind (hrest.bind (yields_pure _)), rfl⟩

end

section
variable {s s' : Session} {name : String} {value : Value} {v : Json} {entries : List Json}

theorem charset?_cases {label : String} (h : charset? label = some name) :
    ∃ cs ∈ lengthCharsets, name = cs.name := by
  rw [charset?] at h
  split_ifs at h
  · exact ⟨.cp932, by decide, (Option.some.inj h).symm⟩
  · exact ⟨.gbk, by decide, (Option.some.inj h).symm⟩

def charsetOf? (value : Value) : Option Charset :=
  value.bind fun label => (charset? label).bind Charset.ofName?

theorem yields_charsetFor (h : charsetOf? value = some cs) :
    cs ∈ lengthCharsets ∧ Yields (charsetFor (labelOf value)) cs.name := by
  obtain ⟨label, rfl, hlabel⟩ := Option.bind_eq_some_iff.mp h
  obtain ⟨name, hname, hcs⟩ := Option.bind_eq_some_iff.mp hlabel
  obtain ⟨cs', hmem, rfl⟩ := charset?_cases hname
  rw [Pool.ofName?_name] at hcs
  obtain rfl : cs' = cs := Option.some.inj hcs
  refine ⟨hmem, (yields_lift rfl).bind ?_⟩
  rw [hname]
  exact (yields_pure _).bind (yields_pure _)

theorem charsetOf?_of_eval (h : eval (charsetFor (labelOf value)) s = (.ok name, s')) :
    ∃ cs, charsetOf? value = some cs := by
  cases value with
  | none => cases h
  | some label =>
    cases hname : charset? label with
    | none =>
      have hlabel : eval (lift (asText "lower" (.str label))) s = (.ok label, s) := rfl
      rw [charsetFor.eq_def, labelOf] at h
      rw [eval_bind_ok hlabel, hname] at h
      cases h
    | some found =>
      obtain ⟨cs, -, rfl⟩ := charset?_cases hname
      refine ⟨cs, ?_⟩
      rw [charsetOf?, Option.bind_some, hname, Option.bind_some, Pool.ofName?_name]

def outputFor (behaviour : Behaviour) (translated : Clean) : String :=
  match behaviour with
  | .idle | .check => translated.toText
  | _ => (translated.withName (translated.stem ++ "_modified" ++ translated.suffix)).toText

theorem eval_load {path : String} (h : HoldsDocument s (Clean.ofText path).toText v) :
    eval (load (some path)) s = (.ok v, s) := by
  rw [load, pathOf, eval_bind_ok (eval_pure path s)]
  exact h.read

theorem eval_loadBoth {source translated : String} {w : Json}
    (hsource : HoldsDocument s (Clean.ofText source).toText v)
    (htranslated : HoldsDocument s (Clean.ofText translated).toText w) :
    eval (loadBoth (some source) (some translated)) s = (.ok (v, w), s) := by
  have hboth : eval (do return (← load (some source), ← load (some translated))) s =
      (.ok (v, w), s) := by
    rw [eval_bind_ok (eval_load hsource), eval_bind_ok (eval_load htranslated)]
    rfl
  rw [loadBoth, eval_bind, eval_attempt, hboth]
  rfl

theorem outputPath_ok {behaviour : Behaviour} {output : String}
    (h : eval (outputPath behaviour translated) s = (.ok output, s')) :
    output = outputFor behaviour translated ∧ s' = s := by
  have hbeside : ∀ path : String, eval (if translated.name.isEmpty then
      fail (.namelessPath translated.toText) else pure path) s = (.ok output, s') →
      output = path ∧ s' = s := by
    intro path hpath
    by_cases hname : translated.name.isEmpty
    · rw [if_pos hname] at hpath
      cases hpath
    · rw [if_neg hname] at hpath
      cases hpath
      exact ⟨rfl, rfl⟩
  cases behaviour with
  | idle =>
    cases h
    exact ⟨rfl, rfl⟩
  | check =>
    cases h
    exact ⟨rfl, rfl⟩
  | fix => exact hbeside _ h
  | drastic => exact hbeside _ h

theorem writes_of_conclude {behaviour : Behaviour} {tally : Tally}
    (h : eval (conclude behaviour translated entries tally) s = (.ok (), s')) :
    Writes s (outputFor behaviour translated) (.arr entries) s' := by
  obtain ⟨output, t, houtput, hrest⟩ := of_eval_bind h
  obtain ⟨rfl, rfl⟩ := outputPath_ok houtput
  rw [eval_bind, eval_attempt] at hrest
  rcases hwritten : eval (writeJson (outputFor behaviour translated) (.arr entries)) t
    with ⟨stop | _, t'⟩
  · rw [hwritten] at hrest
    cases stop with
    | exit code => cases hrest
    | fault fault => cases fault <;> cases hrest
  · rw [hwritten] at hrest
    obtain ⟨t'', htold, hsame⟩ :=
      yields_sayAll (summary behaviour (outputFor behaviour translated) tally) t'
    cases htold.symm.trans hrest
    exact (writes_of_eval hwritten).same ⟨rfl, rfl⟩ hsame

theorem eval_conclude_check (hplain : '\x00' ∉ translated.toText.toList)
    (h : Writes s translated.toText (.arr entries) s') (tally : Tally) :
    ∃ t, eval (conclude .check translated entries tally) s = (.ok (), t) ∧ s'.SameFiles t := by
  obtain ⟨t, htold, hsame⟩ := yields_sayAll (summary .check translated.toText tally)
    { s with tree := s'.tree }
  refine ⟨t, ?_, hsame.tree, hsame.place.trans h.place.symm⟩
  rw [conclude, outputPath, eval_bind_ok (eval_pure _ s), eval_bind, eval_attempt, h.eval hplain]
  exact htold

end

/-- A call of the tool on two documents with equally many entries, each beside its source. -/
structure Comparison (words : List String) (s : Session) where
  values : Values
  source : String
  translated : String
  pairs : List (Fields × Fields)
  read : grammar.read words = .ok values
  sourceNamed : values.one "orig" "" = some source
  translatedNamed : values.one "trans" "" = some translated
  sourceHeld : HoldsDocument s (Clean.ofText source).toText (.arr (pairs.map fun p => .obj p.1))
  translatedHeld :
    HoldsDocument s (Clean.ofText translated).toText (.arr (pairs.map fun p => .obj p.2))
  typed : ∀ p ∈ pairs, Typed p.1 ∧ Typed p.2

namespace Comparison

variable {words : List String} {s s' : Session} (c : Comparison words s)

def behaviour : Behaviour :=
  Behaviour.ofValue (c.values.one "behave" "check")

def charset? : Option Charset :=
  charsetOf? (c.values.one "encoding" "CP932")

def settings (cs : Charset) : Settings where
  measure := Measure.ofName ((c.values.one "method" "pseudo").getD "")
  behaviour := c.behaviour
  encoding := cs.name

def output : String :=
  outputFor c.behaviour (Clean.ofText c.translated)

def result (cs : Charset) : Json :=
  .arr (c.pairs.map fun p => .obj (outcome (c.settings cs) cs p.1 p.2))

theorem eval_main (hcs : c.charset? = some cs) :
    ∃ t tally, s.SameFiles t ∧ eval (main words) s =
      eval (conclude c.behaviour (Clean.ofText c.translated)
        (c.pairs.map fun p => .obj (outcome (c.settings cs) cs p.1 p.2)) tally) t := by
  obtain ⟨hmem, hcharset⟩ := yields_charsetFor hcs
  obtain ⟨s₁, hs₁, hsame₁⟩ := hcharset s
  have hencoding : (c.settings cs).encoding = cs.name := rfl
  obtain ⟨⟨results, tally⟩, hentries, rfl⟩ := yields_processEntries c.typed hmem hencoding 0 {}
  obtain ⟨s₂, hs₂, hsame₂⟩ := hentries s₁
  refine ⟨s₂, tally, ⟨hsame₂.tree.trans hsame₁.tree, hsame₂.place.trans hsame₁.place⟩, ?_⟩
  have hdocuments := eval_loadBoth (c.sourceHeld.same hsame₁) (c.translatedHeld.same hsame₁)
  rw [main, c.read, arguments, eval_bind_ok (eval_pure c.values s), eval_bind_ok hs₁, process,
    c.sourceNamed, c.translatedNamed, eval_bind_ok hdocuments]
  dsimp only
  rw [if_neg (by simp), zip_map']
  exact eval_bind_ok hs₂ _

theorem writes_of_main (h : eval (main words) s = (.ok (), s')) :
    ∃ cs, c.charset? = some cs ∧ Writes s c.output (c.result cs) s' := by
  have hcharset : ∃ cs, c.charset? = some cs := by
    rw [main, c.read, arguments, eval_bind_ok (eval_pure c.values s)] at h
    obtain ⟨name, t, hname, -⟩ := of_eval_bind h
    exact charsetOf?_of_eval hname
  obtain ⟨cs, hcs⟩ := hcharset
  obtain ⟨t, tally, hsame, heval⟩ := c.eval_main hcs
  rw [heval] at h
  exact ⟨cs, hcs, (writes_of_conclude h).same hsame ⟨rfl, rfl⟩⟩

theorem entry_storable : ∀ p ∈ c.pairs, Storable p.2 := by
  obtain ⟨bytes, -, hdocument⟩ := c.translatedHeld
  intro p hp
  obtain ⟨hregular, hdepth⟩ := item_regular hdocument (.obj p.2) (mem_map.mpr ⟨p, hp, rfl⟩)
  exact ⟨hregular, hdepth⟩

section

variable (hmode : c.behaviour = .check)
include hmode

theorem eval_main_check (hcs : c.charset? = some cs) (h : Writes s c.output (c.result cs) s') :
    ∃ t, eval (main words) s = (.ok (), t) ∧ s'.SameFiles t := by
  obtain ⟨t, tally, hsame, heval⟩ := c.eval_main hcs
  rw [output, hmode, outputFor] at h
  rw [heval, hmode]
  apply eval_conclude_check c.translatedHeld.plain
  exact h.same ⟨hsame.tree.symm, hsame.place.symm⟩ ⟨rfl, rfl⟩

theorem result_regular (cs : Charset) :
    (c.result cs).Regular ∧ (c.result cs).depth ≤ maxDepth := by
  apply documentOf_regular
  apply documentOf_records
  intro p hp
  exact (c.entry_storable p hp).checked hmode

theorem exists_sources
    (h : Rewritten s (Clean.ofText c.translated).toText (.arr (c.pairs.map fun p => .obj p.2))
      (c.result cs) s') :
    ∃ f : Fields × Fields → Fields,
      HoldsDocument s' (Clean.ofText c.source).toText (.arr (c.pairs.map fun p => .obj (f p))) ∧
      ∀ p ∈ c.pairs, SameUnmarked p.1 (f p) := by
  rcases h.others _ _ c.sourceHeld with hheld | ⟨hsame, hheld⟩
  · exact ⟨fun p => p.1, hheld, fun p _ key _ => rfl⟩
  · refine ⟨fun p => outcome (c.settings cs) cs p.1 p.2, hheld, ?_⟩
    intro p hp
    have hp' : obj p.1 = .obj p.2 := map_eq_map_iff.mp (arr.inj hsame) p hp
    rw [obj.inj hp']
    exact sameUnmarked_outcome hmode

theorem checked (h : Writes s c.output (c.result cs) s') :
    ∃ c' : Comparison words s', c'.values = c.values ∧ c'.translated = c.translated ∧
      c'.result cs = c.result cs ∧ Writes s' c.output (c.result cs) s' := by
  have hoverwritten :
      Rewritten s c.output (.arr (c.pairs.map fun p => .obj p.2)) (c.result cs) s' := by
    obtain ⟨hregular, hdepth⟩ := c.result_regular hmode cs
    refine HoldsDocument.rewritten ?_ h hregular hdepth
    rw [output, hmode]
    exact c.translatedHeld
  have hagain := hoverwritten.again
  rw [output, hmode, outputFor] at hoverwritten
  obtain ⟨f, hsources, hsame⟩ := c.exists_sources hmode hoverwritten
  let c' : Comparison words s' := {
    values := c.values
    source := c.source
    translated := c.translated
    pairs := c.pairs.map fun p => (f p, outcome (c.settings cs) cs p.1 p.2)
    read := c.read
    sourceNamed := c.sourceNamed
    translatedNamed := c.translatedNamed
    sourceHeld := by
      rw [map_map]
      exact hsources
    translatedHeld := by
      rw [map_map]
      exact hoverwritten.document
    typed := by
      intro q hq
      obtain ⟨p, hp, rfl⟩ := mem_map.mp hq
      obtain ⟨hsource, hentry⟩ := c.typed p hp
      exact ⟨(hsame p hp).typed hsource, (sameUnmarked_outcome hmode).typed hentry⟩ }
  refine ⟨c', rfl, rfl, ?_, hagain⟩
  rw [result, result, map_map]
  congr 1
  apply map_congr_left
  intro p hp
  exact congrArg obj (outcome_outcome hmode (hsame p hp))

theorem eval_main_again (h : eval (main words) s = (.ok (), s')) :
    ∃ t, eval (main words) s' = (.ok (), t) ∧ s'.SameFiles t := by
  obtain ⟨cs, hcs, hwrites⟩ := c.writes_of_main h
  obtain ⟨c', hvalues, htranslated, hresult, hagain⟩ := c.checked hmode hwrites
  apply c'.eval_main_check
  · rw [behaviour, hvalues]
    exact hmode
  · rw [charset?, hvalues]
    exact hcs
  · rw [hresult, output, behaviour, hvalues, htranslated]
    exact hagain

end

/-- An entry is marked exactly if the message written for it is too long, whatever is done about
long messages. Nothing else about it changes but its message, and that only if it was too long and
was to be shortened. A second check writes the same document as the first. -/
theorem main_marked (hmode : c.behaviour ∈ Behaviour.all)
    (h : eval (main words) s = (.ok (), s')) :
    ∃ cs results, c.charset? = some cs ∧ Writes s c.output (.arr (results.map Json.obj)) s' ∧
      List.Forall₂ (fun p result => Marked (c.settings cs) cs p.1 p.2 result) c.pairs results ∧
      (c.behaviour = .check → ∃ s'', eval (main words) s' = (.ok (), s'') ∧ s'.SameFiles s'') := by
  obtain ⟨cs, hcs, hwrites⟩ := c.writes_of_main h
  refine ⟨cs, c.pairs.map fun p => outcome (c.settings cs) cs p.1 p.2, hcs, ?_, ?_, ?_⟩
  · rw [List.map_map]
    exact hwrites
  · rw [List.forall₂_map_right_iff, List.forall₂_same]
    intro p _
    apply marked_outcome
    intro hidle
    rw [show c.behaviour = .idle from hidle] at hmode
    exact absurd hmode (by decide)
  · exact fun hcheck => c.eval_main_again hcheck h

def stalePairs : List (Fields × Fields) :=
  [([("message", .str "あ")], [("message", .str "abc"), ("error", .str "old")]),
   ([("message", .str "a"), ("length_unbounded", .bool true)],
    [("error", .str "old"), ("message", .str "abc")]),
   ([("message_orig_len", .int 3)], [("message", .str "abc"), ("error", .str "old")])]

def staleSession : Session where
  tree :=
    let file (items : List Json) := Node.file (Utf8.encode (arr items).indented.toList) false
    ⟨[(["o"], file (stalePairs.map fun p => .obj p.1)),
      (["t"], file (stalePairs.map fun p => .obj p.2))]⟩
  workDir := []

theorem stalePairs_typed : ∀ p ∈ stalePairs, Typed p.1 ∧ Typed p.2 := by
  intro p hp
  simp only [stalePairs, mem_cons, not_mem_nil, or_false] at hp
  rcases hp with rfl | rfl | rfl <;>
    exact ⟨⟨by simp [lookup_cons], by simp [lookup_cons]⟩,
      by simp [lookup_cons], by simp [lookup_cons]⟩

theorem stalePairs_storable : ∀ p ∈ stalePairs, Storable p.1 ∧ Storable p.2 := by
  have hnumeral : 3 < 10 ^ maxDigits := by decide +kernel
  intro p hp
  simp only [stalePairs, mem_cons, not_mem_nil, or_false] at hp
  rcases hp with rfl | rfl | rfl <;>
    exact ⟨⟨by simp [Regular, RegularFields, hnumeral], by decide⟩,
      by simp [Regular, RegularFields], by decide⟩

def staleCall : Comparison ["-o", "o", "-t", "t"] staleSession where
  values := [("orig", ["o"]), ("trans", ["t"])]
  source := "o"
  translated := "t"
  pairs := stalePairs
  read := rfl
  sourceNamed := rfl
  translatedNamed := rfl
  sourceHeld := ⟨_, rfl, documentOf_records fun p hp => (stalePairs_storable p hp).1⟩
  translatedHeld := ⟨_, rfl, documentOf_records fun p hp => (stalePairs_storable p hp).2⟩
  typed := stalePairs_typed

theorem main_marked_stale :
    ∃ s', eval (main ["-o", "o", "-t", "t"]) staleSession = (.ok (), s') ∧
      ∃ cs results, staleCall.charset? = some cs ∧
        Writes staleSession staleCall.output (.arr (results.map Json.obj)) s' ∧
        List.Forall₂ (fun p result => Marked (staleCall.settings cs) cs p.1 p.2 result)
          stalePairs results ∧
        (staleCall.behaviour = .check →
          ∃ s'', eval (main ["-o", "o", "-t", "t"]) s' = (.ok (), s'') ∧ s'.SameFiles s'') := by
  have hcs : staleCall.charset? = some .cp932 := by decide +kernel
  have hopens : staleSession.tree.Opens [] "t" ["t"] := by
    refine ⟨by decide, rfl, fun n hn => ?_⟩
    cases hn
    exact ⟨_, rfl⟩
  generalize hresult : staleCall.result .cp932 = result
  have hwrites : Writes staleSession staleCall.output result { staleSession with
      tree := staleSession.tree.store ["t"] (Utf8.encode result.indented.toList) } :=
    ⟨hopens.write _, rfl⟩
  rw [← hresult] at hwrites
  obtain ⟨s', h, -⟩ := staleCall.eval_main_check (by decide) hcs hwrites
  exact ⟨s', h, main_marked staleCall (by decide) h⟩

end Comparison

end SceneText.LengthsTool
