import SceneText.Pipeline.Parts
import SceneText.Proofs.Rewriting

/-!
# Documents that are joined and cut again

The entries that several commands take out are joined, and the places of the joints are written
beside them. A translated document is cut at these places, however much later: each command that
puts texts back runs with the entries that belong to what its partner took out, and with nothing
else changed since the command before it. In the end the whole document is back in its place.
-/

namespace SceneText

open List
open Utf8 (encode)
open Json (maxDepth maxDigits place?)

variable {sizes : List Nat} {parts : List (List Json)} {loc : Location} {i : Nat}
  {marks translated : List Json} {supply : List (String × List Json)} {text : String}

namespace Pipeline

open Run

/-- Commands that succeed one after the other, each of which leaves entries in the raw document. -/
inductive Extracts (shell : Shell) : Session → List Exchange → List (List Json) → Session → Prop
  | done (s : Session) : Extracts shell s [] [] s
  | next {s s₁ s₂ : Session} {exchange : Exchange} {exchanges : List Exchange}
      {entries : List Json} {parts : List (List Json)}
      (run : eval (shell.demand exchange.extract) s = (.ok (), s₁))
      (left : HoldsDocument s₁ "raw.json" (.arr entries))
      (more : Extracts shell s₁ exchanges parts s₂) :
      Extracts shell s (exchange :: exchanges) (entries :: parts) s₂

/-- The places behind parts of the given sizes, the first of which begins at `count`. -/
def joints (count : Nat) : List Nat → List Json
  | [] => []
  | size :: sizes => .int (count + size : Nat) :: joints (count + size) sizes

theorem eval_hooked (shell : Shell) (i : Nat) (command : String) (s : Session) :
    eval (hooked shell {} i command) s = eval (shell.demand command) s := by
  have hrun : eval (hooked shell {} i command) s =
      eval (shell.demand command >>= fun _ => pure ()) s := rfl
  rw [hrun, eval_bind]
  rcases eval (shell.demand command) s with ⟨stop | _, t⟩ <;> rfl

namespace Extracts

variable {shell : Shell} {s s' : Session} {exchanges : List Exchange} {parts : List (List Json)}

variable (h : Extracts shell s exchanges parts s')
include h

theorem length_eq : exchanges.length = parts.length := by
  induction h with
  | done s => rfl
  | next run left more ih => rw [length_cons, length_cons, ih]

theorem items_regular : ∀ x ∈ parts.flatten, x.Regular ∧ x.depth < maxDepth := by
  induction h with
  | done s => simp
  | next run left more ih =>
    obtain ⟨bytes, -, hdocument⟩ := left
    intro x hx
    rw [flatten_cons, mem_append] at hx
    rcases hx with hx | hx
    · exact item_regular hdocument x hx
    · exact ih x hx

theorem eval_extractParts (i count : Nat) :
    eval (extractParts shell {} i count exchanges) s =
      (.ok (parts.flatten, joints count (parts.map List.length)), s') := by
  induction h generalizing i count with
  | done s => rfl
  | next run left more ih =>
    rw [extractParts, eval_bind, eval_hooked, run]
    dsimp only
    rw [eval_bind_ok left.read, Json.size, eval_bind, eval_lift]
    dsimp only
    rw [Json.elements, eval_bind, eval_lift]
    dsimp only
    rw [eval_bind, ih]
    rfl

end Extracts

theorem joints_regular {count : Nat} (h : count + sizes.sum < 10 ^ maxDigits) :
    ∀ x ∈ joints count sizes, x.Regular ∧ x.depth < maxDepth := by
  induction sizes generalizing count with
  | nil => simp [joints]
  | cons size sizes ih =>
    have hrest := ih (show count + size + sizes.sum < _ by rwa [Nat.add_assoc])
    refine forall_mem_cons.mpr ⟨⟨?_, show 0 < maxDepth by decide⟩, hrest⟩
    calc ((count + size : Nat) : Int).natAbs = count + size := Int.natAbs_natCast _
      _ ≤ count + (size + sizes.sum) := Nat.add_le_add_left (Nat.le_add_right _ _) _
      _ < 10 ^ maxDigits := h

theorem eval_extractAndJoin {shell : Shell} {s s₁ : Session} {exchanges : List Exchange}
    {rawLoc splitsLoc : Location} (hextract : Extracts shell s exchanges parts s₁)
    (hcount : parts.flatten.length < 10 ^ maxDigits)
    (hraw : s₁.tree.Opens s₁.workDir "raw.json" rawLoc)
    (hsplits : s₁.tree.Opens s₁.workDir "splits.json" splitsLoc) (hapart : rawLoc ≠ splitsLoc) :
    ∃ s₂, eval (extractAndJoin shell exchanges {} none) s = (.ok (), s₂) ∧
      HoldsDocument s₂ "raw.json" (.arr parts.flatten) ∧
      HoldsDocument s₂ "splits.json" (.arr (joints 0 (parts.map List.length))) := by
  have hjoints : ∀ x ∈ joints 0 (parts.map List.length), x.Regular ∧ x.depth < maxDepth := by
    apply joints_regular
    rwa [Nat.zero_add, ← length_flatten]
  let s' : Session := { s₁ with
    tree := s₁.tree.store rawLoc (encode (Json.arr parts.flatten).indented.toList) }
  have hfirst : eval (writeJson "raw.json" (.arr parts.flatten)) s₁ = (.ok (), s') :=
    eval_writeBytes hraw _
  have hheld : Holds s' "raw.json" rawLoc _ := holds_written hraw _
  have hopens : s'.tree.Opens s'.workDir "splits.json" splitsLoc := hsplits.store hraw _
  refine ⟨_, ?_, ⟨_, (hheld.store hopens hapart _).reads, documentOf_items hextract.items_regular⟩,
    ⟨_, reads_written hopens _, documentOf_items hjoints⟩⟩
  rw [extractAndJoin, eval_bind_ok (hextract.eval_extractParts 0 0)]
  exact (eval_bind_ok hfirst _).trans (eval_writeBytes hopens _)

/-- The entries from the place behind the first sizes on, for every size. -/
def slices (entries : List Json) (sizes : List Nat) : List (List Json) :=
  sizes.mapIdx fun i size => (entries.drop (sizes.take i).sum).take size

theorem slices_cons (entries : List Json) (size : Nat) (sizes : List Nat) :
    slices entries (size :: sizes) = entries.take size :: slices (entries.drop size) sizes := by
  simp [slices, mapIdx_cons]

theorem mem_slices {entries part : List Json} (h : part ∈ slices entries sizes) :
    part ⊆ entries := by
  obtain ⟨i, hi, rfl⟩ := mem_mapIdx.mp h
  exact fun x hx => mem_of_mem_drop (mem_of_mem_take hx)

theorem part_eq (entries : List Json) (low size : Nat) :
    part (.arr entries) (.int low) (.int (low + size : Nat)) =
      .ok (.arr ((entries.drop low).take size)) := by
  have hrange : Json.range entries (some (low : Int)) (some ((low + size : Nat) : Int)) =
      (entries.drop low).take size := by
    simp only [Json.range, Json.clip]
    rw [if_pos (by omega), if_pos (by omega), Int.toNat_natCast, Int.toNat_natCast]
    by_cases h : low ≤ entries.length
    · rw [Nat.min_eq_left h, drop_take, take_eq_take_iff, length_drop]
      omega
    · rw [Nat.min_eq_right (by omega), Nat.min_eq_right (by omega), take_length,
        drop_length, drop_of_length_le (by omega), take_nil]
  rw [← hrange]
  rfl

/-- The session in which entries have been written to the translated document, which then holds
them; nothing else is different. -/
structure Given (s : Session) (entries : List Json) (s' : Session) : Prop where
  written : ∃ loc, s.tree.Opens s.workDir "generated/translated.json" loc ∧
    s' = { s with tree := s.tree.store loc (encode (Json.arr entries).indented.toList) }
  held : HoldsDocument s' "generated/translated.json" (.arr entries)

/-- Commands that succeed one after the other, each in a session in which it has been given its own
entries. -/
inductive Handed (shell : Shell) : Session → List Exchange → List (List Json) → Session → Prop
  | done (s : Session) : Handed shell s [] [] s
  | next {s s₁ s₂ s₃ : Session} {exchange : Exchange} {exchanges : List Exchange}
      {entries : List Json} {parts : List (List Json)} (given : Given s entries s₁)
      (run : eval (shell.demand exchange.replace) s₁ = (.ok (), s₂))
      (more : Handed shell s₂ exchanges parts s₃) :
      Handed shell s (exchange :: exchanges) (entries :: parts) s₃

/-- A command that, where it succeeds, leaves a file or nothing in the place of the translated
document. -/
def Sparing (shell : Shell) (command : String) : Prop :=
  ∀ s s', Keeps s "generated/translated.json" → eval (shell.demand command) s = (.ok (), s') →
    Keeps s' "generated/translated.json"

/-- A command that succeeds wherever the translated document can be written, and leaves it so. -/
def Obliging (shell : Shell) (command : String) : Prop :=
  ∀ s loc, s.tree.Opens s.workDir "generated/translated.json" loc →
    ∃ s' loc', eval (shell.demand command) s = (.ok (), s') ∧
      s'.tree.Opens s'.workDir "generated/translated.json" loc'

variable {shell : Shell} {s s' : Session} {entries : List Json} {exchanges : List Exchange}

theorem Given.keeps (h : Given s entries s') : Keeps s' "generated/translated.json" :=
  h.held.keeps

theorem given_of_opens (h : s.tree.Opens s.workDir "generated/translated.json" loc)
    (hentries : ∀ x ∈ entries, x.Regular ∧ x.depth < maxDepth) :
    Given s entries { s with
      tree := s.tree.store loc (encode (Json.arr entries).indented.toList) } :=
  ⟨⟨loc, h, rfl⟩, _, reads_written h _, documentOf_items hentries⟩

theorem Handed.keeps (h : Handed shell s exchanges parts s')
    (hshell : ∀ e ∈ exchanges, Sparing shell e.replace)
    (hkeeps : Keeps s "generated/translated.json") : Keeps s' "generated/translated.json" := by
  induction h with
  | done s => exact hkeeps
  | next given run more ih =>
    exact ih (fun e he => hshell e (by simp [he])) (hshell _ (by simp) _ _ given.keeps run)

theorem handed_obliging (hopens : s.tree.Opens s.workDir "generated/translated.json" loc)
    (hshell : ∀ e ∈ exchanges, Obliging shell e.replace) (hlength : exchanges.length = parts.length)
    (hparts : ∀ entries ∈ parts, ∀ x ∈ entries, x.Regular ∧ x.depth < maxDepth) :
    ∃ s' loc', Handed shell s exchanges parts s' ∧
      s'.tree.Opens s'.workDir "generated/translated.json" loc' := by
  induction exchanges generalizing s loc parts with
  | nil =>
    obtain rfl := eq_nil_of_length_eq_zero hlength.symm
    exact ⟨s, loc, .done s, hopens⟩
  | cons e exchanges ih =>
    cases parts with
    | nil => cases hlength
    | cons entries parts =>
      have hgiven := given_of_opens hopens (hparts entries (by simp))
      obtain ⟨t, loc', hrun, hopens'⟩ := hshell e (by simp) { s with
        tree := s.tree.store loc (encode (Json.arr entries).indented.toList) } loc
          (hopens.store hopens _)
      obtain ⟨s', loc'', hhanded, hlast⟩ := ih hopens' (fun e he => hshell e (by simp [he]))
        (Nat.succ.inj hlength) (fun entries hentries => hparts entries (by simp [hentries]))
      exact ⟨s', loc'', .next hgiven hrun hhanded, hlast⟩

theorem eval_write_iff (hkeeps : Keeps s "generated/translated.json")
    (hentries : ∀ x ∈ entries, x.Regular ∧ x.depth < maxDepth) :
    eval (writeJson "generated/translated.json" (.arr entries)) s = (.ok (), s') ↔
      Given s entries s' := by
  constructor
  · intro h
    obtain ⟨loc, hopens⟩ := opens_of_written (by decide) hkeeps h
    rw [writeJson, writeText, eval_writeBytes hopens] at h
    cases h
    exact given_of_opens hopens hentries
  · rintro ⟨⟨loc, hopens, rfl⟩, -⟩
    rw [writeJson, writeText, eval_writeBytes hopens]

theorem eval_replaceParts_next {document marks low high : Json}
    (hopens : s.tree.Opens s.workDir "generated/translated.json" loc)
    (hitem : marks.item i = .ok high) (hpart : part document low high = .ok (.arr entries))
    (exchange : Exchange) (exchanges : List Exchange) :
    eval (replaceParts shell {} document marks i low (exchange :: exchanges)) s =
      eval (shell.demand exchange.replace >>= fun _ =>
        replaceParts shell {} document marks (i + 1) high exchanges) { s with
          tree := s.tree.store loc (encode (Json.arr entries).indented.toList) } := by
  -- The file is emptied before the part is known, which does not show once the part is written.
  have hagain := hopens.store hopens (encode "".toList)
  rw [replaceParts, eval_bind, writeText, eval_writeBytes hopens]
  dsimp only
  rw [hitem, eval_bind, eval_lift]
  dsimp only
  rw [hpart, eval_bind, eval_lift]
  dsimp only
  rw [eval_bind, writeJson, writeText, eval_writeBytes hagain, FileTree.store_store]
  dsimp only
  rw [eval_bind, eval_hooked, eval_bind]

theorem item_of_drop {rest : List Json} {high : Json} (h : marks.drop i = high :: rest) :
    (Json.arr marks).item i = .ok high ∧ marks.drop (i + 1) = rest := by
  have hmark : marks[i]? = some high := by
    rw [← head?_drop, h]
    rfl
  have hplace : place? marks.length i = some i := by
    have hlt := (List.getElem?_eq_some_iff.mp hmark).1
    rw [place?, if_pos (by omega), if_pos (by omega)]
    rfl
  refine ⟨?_, ?_⟩
  · rw [Json.item, hplace, Option.bind_some, hmark]
  · rw [← tail_drop, h]
    rfl

theorem eval_replaceParts_iff {document : List Json}
    (hdocument : ∀ x ∈ document, x.Regular ∧ x.depth < maxDepth) {count : Nat}
    (hmarks : marks.drop i = joints count sizes) (hlength : exchanges.length = sizes.length)
    (hshell : ∀ e ∈ exchanges, Sparing shell e.replace)
    (hkeeps : Keeps s "generated/translated.json") :
    eval (replaceParts shell {} (.arr document) (.arr marks) i (.int count) exchanges) s =
        (.ok (), s') ↔
      Handed shell s exchanges (slices (document.drop count) sizes) s' := by
  induction exchanges generalizing s i count sizes with
  | nil =>
    obtain rfl := eq_nil_of_length_eq_zero hlength.symm
    constructor
    · intro h
      cases h
      exact .done _
    · intro h
      cases h
      rfl
  | cons e es ih =>
    cases sizes with
    | nil => cases hlength
    | cons size sizes =>
      obtain ⟨hitem, hrest⟩ := item_of_drop hmarks
      have hpart := part_eq document count size
      have hentries : ∀ x ∈ (document.drop count).take size, x.Regular ∧ x.depth < maxDepth :=
        fun x hx => hdocument x (mem_of_mem_drop (mem_of_mem_take hx))
      have hmore : ∀ e ∈ es, Sparing shell e.replace := fun e he => hshell e (by simp [he])
      rw [slices_cons, drop_drop]
      constructor
      · intro h
        obtain ⟨loc, hopens⟩ : ∃ loc, s.tree.Opens s.workDir "generated/translated.json" loc := by
          rw [replaceParts, eval_bind] at h
          rcases hwrite : eval (writeText "generated/translated.json" "") s with ⟨stop | _, t⟩
          · rw [hwrite] at h
            cases h
          · exact opens_of_written (by decide) hkeeps hwrite
        have hgiven := given_of_opens hopens hentries
        rw [eval_replaceParts_next hopens hitem hpart, eval_bind] at h
        split at h
        · next hrun =>
          have hnext := hshell e (by simp) _ _ hgiven.keeps hrun
          exact .next hgiven hrun ((ih hrest (Nat.succ.inj hlength) hmore hnext).mp h)
        · cases h
      · rintro (_ | ⟨hgiven, hrun, hhanded⟩)
        have hnext := hshell e (by simp) _ _ hgiven.keeps hrun
        obtain ⟨⟨loc, hopens, rfl⟩, -⟩ := hgiven
        rw [eval_replaceParts_next hopens hitem hpart, eval_bind_ok hrun]
        exact (ih hrest (Nat.succ.inj hlength) hmore hnext).mpr hhanded

theorem eval_splitAndReplace (hplaces : HoldsDocument s "splits.json" (.arr marks))
    (htranslated : HoldsDocument s "generated/translated.json" (.arr translated)) :
    eval (splitAndReplace shell exchanges {} none) s =
      eval (replaceParts shell {} (.arr translated) (.arr marks) 0 (.int 0) exchanges >>=
        fun _ => writeJson "generated/translated.json" (.arr translated)) s := by
  rw [splitAndReplace, eval_bind_ok htranslated.read, eval_bind_ok hplaces.read]
  rfl

section

variable (hplaces : HoldsDocument s "splits.json" (.arr (joints 0 sizes)))
  (htranslated : HoldsDocument s "generated/translated.json" (.arr translated))
include hplaces htranslated

theorem eval_splitAndReplace_iff (hlength : exchanges.length = sizes.length)
    (hshell : ∀ e ∈ exchanges, Sparing shell e.replace) :
    eval (splitAndReplace shell exchanges {} none) s = (.ok (), s') ↔
      ∃ t, Handed shell s exchanges (slices translated sizes) t ∧ Given t translated s' := by
  rw [eval_splitAndReplace hplaces htranslated]
  have hkeeps := htranslated.keeps
  obtain ⟨bytes, -, hdocument⟩ := htranslated
  have hentries := item_regular hdocument
  have hparts : ∀ t, eval (replaceParts shell {} (.arr translated) (.arr (joints 0 sizes)) 0
      (.int 0) exchanges) s = (.ok (), t) ↔ Handed shell s exchanges (slices translated sizes) t :=
    fun t => eval_replaceParts_iff hentries
      (show (joints 0 sizes).drop 0 = joints 0 sizes from rfl) hlength hshell hkeeps
  rw [eval_bind]
  constructor
  · intro h
    split at h
    · next t ht =>
      have hhanded := (hparts t).mp ht
      exact ⟨t, hhanded, (eval_write_iff (hhanded.keeps hshell hkeeps) hentries).mp h⟩
    · cases h
  · rintro ⟨t, hhanded, hgiven⟩
    rw [(hparts t).mpr hhanded]
    exact (eval_write_iff (hhanded.keeps hshell hkeeps) hentries).mpr hgiven

theorem eval_splitAndReplace_obliging
    (hopens : s.tree.Opens s.workDir "generated/translated.json" loc)
    (hlength : exchanges.length = sizes.length)
    (hspares : ∀ e ∈ exchanges, Sparing shell e.replace)
    (hobliges : ∀ e ∈ exchanges, Obliging shell e.replace) :
    ∃ s', eval (splitAndReplace shell exchanges {} none) s = (.ok (), s') := by
  have hentries : ∀ x ∈ translated, x.Regular ∧ x.depth < maxDepth := by
    obtain ⟨bytes, -, hdocument⟩ := htranslated
    exact item_regular hdocument
  have hslices : exchanges.length = (slices translated sizes).length := by
    rw [slices, length_mapIdx, hlength]
  obtain ⟨t, loc', hhanded, hlast⟩ := handed_obliging hopens hobliges hslices
    fun part hpart x hx => hentries x (mem_slices hpart hx)
  exact ⟨_, (eval_splitAndReplace_iff hplaces htranslated hlength hspares).mpr
    ⟨t, hhanded, given_of_opens hlast hentries⟩⟩

end

def supplying (entries : List (String × List Json)) : Shell where
  run text := do
    match entries.lookup text with
    | some found => writeJson "raw.json" (.arr found)
    | none => pure ()
    return some {}

theorem eval_supplying_some {found : List Json} (h : supply.lookup text = some found)
    (hopens : s.tree.Opens s.workDir "raw.json" loc) :
    ∃ s', eval ((supplying supply).demand text) s = (.ok (), s') ∧
      Session.SameFiles { s with
        tree := s.tree.store loc (encode (Json.arr found).indented.toList) } s' := by
  have hrun : eval ((supplying supply).run text) (Shell.recorded text s) =
      (.ok (some {}), { Shell.recorded text s with
        tree := s.tree.store loc (encode (Json.arr found).indented.toList) }) := by
    simp only [supplying, h]
    exact eval_bind_ok (eval_writeBytes (s := Shell.recorded text s) hopens _) _
  obtain ⟨s', hend, hsame⟩ := Shell.eval_demand hrun
  exact ⟨s', hend, hsame.tree, hsame.place⟩

theorem eval_supplying_none (h : supply.lookup text = none) (s : Session) :
    ∃ s', eval ((supplying supply).demand text) s = (.ok (), s') ∧ s.SameFiles s' := by
  have hrun : eval ((supplying supply).run text) (Shell.recorded text s) =
      (.ok (some {}), Shell.recorded text s) := by
    simp only [supplying, h]
    rfl
  obtain ⟨s', hend, hsame⟩ := Shell.eval_demand hrun
  exact ⟨s', hend, hsame.tree, hsame.place⟩

theorem obliging_supplying (h : supply.lookup text = none) : Obliging (supplying supply) text := by
  intro s loc hopens
  obtain ⟨s', hend, hsame⟩ := eval_supplying_none h s
  exact ⟨s', loc, hend, opens_same hsame hopens⟩

theorem sparing_supplying (h : supply.lookup text = none) : Sparing (supplying supply) text := by
  intro s s' hkeeps hrun
  obtain ⟨t, hend, hsame⟩ := eval_supplying_none h s
  rw [hend] at hrun
  cases hrun
  rw [Keeps, hsame.tree, hsame.place]
  exact hkeeps

def pairExchanges : List Exchange :=
  [⟨"take names", "put names"⟩, ⟨"take lines", "put lines"⟩]

def pairSupply : List (String × List Json) :=
  [("take names", [.str "a"]), ("take lines", [.str "b", .str "c"])]

def cutSession : Session where
  tree := ⟨[(["generated"], .directory), (["generated", "translated.json"],
      .file (encode (Json.arr [.str "A", .str "B", .str "C"]).indented.toList) false),
    (["splits.json"], .file (encode (Json.arr [.int 1, .int 3]).indented.toList) false)]⟩
  workDir := []

theorem texts_regular (texts : List String) :
    ∀ x ∈ texts.map Json.str, x.Regular ∧ x.depth < maxDepth := by
  intro x hx
  obtain ⟨text, -, rfl⟩ := mem_map.mp hx
  exact ⟨trivial, show 0 < maxDepth by decide⟩

theorem opens_cutSession : cutSession.tree.Opens [] "generated/translated.json"
    ["generated", "translated.json"] :=
  ⟨by decide, rfl, fun n hn => ⟨_, (Option.some.inj hn).symm⟩⟩

theorem places_cutSession : HoldsDocument cutSession "splits.json" (.arr [.int 1, .int 3]) :=
  ⟨_, reads_iff.mpr ⟨by decide, rfl⟩,
    documentOf_items (joints_regular (show 0 + [1, 2].sum < _ by decide +kernel))⟩

theorem translated_cutSession : HoldsDocument cutSession "generated/translated.json"
    (.arr [.str "A", .str "B", .str "C"]) :=
  ⟨_, reads_iff.mpr ⟨by decide, rfl⟩, documentOf_items (texts_regular ["A", "B", "C"])⟩

def bareSession : Session where
  tree := ⟨[]⟩
  workDir := []

theorem pair_extracts : ∃ s₁,
    Extracts (supplying pairSupply) bareSession pairExchanges
      [[.str "a"], [.str "b", .str "c"]] s₁ ∧
    s₁.tree.Opens s₁.workDir "raw.json" ["raw.json"] ∧
    s₁.tree.Opens s₁.workDir "splits.json" ["splits.json"] := by
  have hraw : bareSession.tree.Opens [] "raw.json" ["raw.json"] :=
    .of_free (by decide) rfl rfl
  have hsplits : bareSession.tree.Opens [] "splits.json" ["splits.json"] :=
    .of_free (by decide) rfl rfl
  obtain ⟨t, hnames, hsame⟩ := eval_supplying_some (s := bareSession)
    (show pairSupply.lookup "take names" = some _ from rfl) hraw
  have hraw' := opens_same hsame (hraw.store hraw _)
  obtain ⟨u, hlines, hsame'⟩ := eval_supplying_some
    (show pairSupply.lookup "take lines" = some _ from rfl) hraw'
  refine ⟨u, .next hnames ?_ (.next hlines ?_ (.done u)), opens_same hsame' (hraw'.store hraw' _),
    opens_same hsame' ((opens_same hsame (hsplits.store hraw _)).store hraw' _)⟩
  · exact HoldsDocument.same ⟨_, reads_written hraw _, documentOf_items (texts_regular ["a"])⟩ hsame
  · exact HoldsDocument.same
      ⟨_, reads_written hraw' _, documentOf_items (texts_regular ["b", "c"])⟩ hsame'

end Pipeline
end SceneText
