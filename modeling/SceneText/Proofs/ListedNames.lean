import Std.Data.String.ToNat
import SceneText.Proofs.Renaming

/-!
# Names from a list

The names that the numbered files of a directory are to get stand in a list, one in each line. All
checks come before the first file is touched, so that a list that fails one of them changes nothing.
A list that passes is carried out for all files at once.
-/

namespace SceneText.RenamingTool

open Run FileTree List Text

variable {α : Type}

/-- A run that stops and leaves the files and what was said as they were. -/
def Stops {α : Type} (x : Run α) (s : Session) : Prop :=
  ∃ stop s', eval x s = (.error stop, s') ∧ s'.tree = s.tree ∧ s'.out = s.out

structure Checks (x : Run Unit) (s : Session) (P : Prop) : Prop where
  passes : P → eval x s = (.ok (), s)
  stops : ¬P → Stops x s

section

variable {s : Session} {P : Prop} {β : Type} {path : String}

theorem stops_exitWith (line : String) (s : Session) : Stops (exitWith line : Run α) s :=
  ⟨_, _, rfl, rfl, rfl⟩

theorem Stops.bind {x : Run α} (h : Stops x s) (f : α → Run β) : Stops (x >>= f) s := by
  obtain ⟨stop, s', heval, hsame⟩ := h
  refine ⟨stop, s', ?_, hsame⟩
  rw [eval_bind, heval]

theorem Stops.after {x : Run α} {v : α} {f : α → Run β} (hx : eval x s = (.ok v, s))
    (h : Stops (f v) s) : Stops (x >>= f) s := by
  obtain ⟨stop, s', heval, hsame⟩ := h
  exact ⟨stop, s', by rw [eval_bind_ok hx, heval], hsame⟩

theorem Checks.stops_bind {x : Run Unit} {f : Unit → Run α} (h : Checks x s P)
    (hrest : P → Stops (f ()) s) : Stops (x >>= f) s := by
  by_cases hp : P
  · exact .after (h.passes hp) (hrest hp)
  · exact (h.stops hp).bind f

theorem checks_forM {f : α → Run Unit} {P : α → Prop} (xs : List α)
    (h : ∀ x ∈ xs, Checks (f x) s (P x)) : Checks (xs.forM f) s (∀ x ∈ xs, P x) := by
  induction xs with
  | nil => exact ⟨fun _ => rfl, fun hnot => absurd (by simp) hnot⟩
  | cons x xs ih =>
    have hx := h x (by simp)
    have hxs := ih fun y hy => h y (by simp [hy])
    constructor
    · intro hall
      rw [forall_mem_cons] at hall
      exact (eval_bind_ok (hx.passes hall.1) _).trans (hxs.passes hall.2)
    · intro hnot
      refine hx.stops_bind fun hp => hxs.stops fun hall => hnot ?_
      exact forall_mem_cons.mpr ⟨hp, hall⟩

theorem checks_checkNames (i : Nat) (names : List String) :
    Checks (checkNames i names) s (∀ name ∈ names, isBadName name = false) := by
  induction names generalizing i with
  | nil => exact ⟨fun _ => rfl, fun hnot => absurd (by simp) hnot⟩
  | cons name names ih =>
    rw [checkNames]
    cases hbad : isBadName name with
    | true => exact ⟨fun hall => absurd (hall name (by simp)) (by simp [hbad]),
        fun _ => stops_exitWith _ s⟩
    | false => simpa [hbad] using ih (i + 1)

def SourceThere (s : Session) (path : String) : Prop :=
  ∃ loc node, s.tree.stat s.workDir path = .ok (loc, node) ∧
    ((∃ bytes readOnly, node = .file bytes readOnly) ∨ s.tree.isLink s.workDir path = true)

def TargetFree (s : Session) (sources : List String) (path : String) : Prop :=
  s.tree.stat s.workDir path ≠ .error .nameTooLong ∧
    ∀ r, s.tree.stat s.workDir path = .ok r → path ∈ sources

theorem eval_nodeAt_missing {cause : FileCause} (h : s.tree.stat s.workDir path = .error cause)
    (hcause : cause ≠ .nameTooLong) : eval (nodeAt? path) s = (.ok none, s) := by
  rw [nodeAt?, eval_bind, eval_query]
  rw [h]
  cases cause with
  | nameTooLong => exact absurd rfl hcause
  | _ => rfl

theorem stops_nodeAt (h : s.tree.stat s.workDir path = .error .nameTooLong) :
    Stops (nodeAt? path) s := by
  refine ⟨.fault (.file .nameTooLong path none), s, ?_, rfl, rfl⟩
  rw [nodeAt?, eval_bind, eval_query]
  rw [h]
  rfl

theorem checks_checkSource (path : String) : Checks (checkSource path) s (SourceThere s path) := by
  have hlink : eval (query fun tree dir => tree.isLink dir path) s =
      (.ok (s.tree.isLink s.workDir path), s) := eval_query _ s
  unfold checkSource
  cases hstat : s.tree.stat s.workDir path with
  | error cause =>
    have hnone : ¬SourceThere s path := by
      rintro ⟨loc, node, hok, -⟩
      cases hstat.symm.trans hok
    refine ⟨fun h => absurd h hnone, fun _ => .after hlink ?_⟩
    by_cases hcause : cause = .nameTooLong
    · rw [hcause] at hstat
      exact ((stops_nodeAt hstat).bind _).bind _
    · have hnode := eval_nodeAt_missing hstat hcause
      have htaken : eval (occupied path) s = (.ok false, s) := eval_bind_ok hnode _
      have hfile : eval (holdsFile path) s = (.ok false, s) := eval_bind_ok hnode _
      exact .after htaken (.after hfile (stops_exitWith _ s))
  | ok r =>
    obtain ⟨loc, node⟩ := r
    have hnode := eval_nodeAt_ok hstat
    have htaken : eval (occupied path) s = (.ok true, s) := eval_bind_ok hnode _
    have hfile : ∃ b, eval (holdsFile path) s = (.ok b, s) ∧
        (b = true ↔ ∃ bytes readOnly, node = .file bytes readOnly) := by
      rw [holdsFile, eval_bind_ok hnode]
      cases node with
      | file bytes readOnly => exact ⟨true, rfl, by simp⟩
      | directory => exact ⟨false, rfl, by simp⟩
      | link target => exact ⟨false, rfl, by simp⟩
      | device => exact ⟨false, rfl, by simp⟩
    obtain ⟨b, hfile, hb⟩ := hfile
    have hthere : SourceThere s path ↔ (b || s.tree.isLink s.workDir path) = true := by
      rw [Bool.or_eq_true, hb]
      constructor
      · rintro ⟨loc', node', hok, h⟩
        cases hstat.symm.trans hok
        exact h
      · exact fun h => ⟨loc, node, hstat, h⟩
    rw [hthere]
    constructor
    · intro h
      rw [eval_bind_ok hlink, eval_bind_ok htaken, eval_bind_ok hfile, h]
      rfl
    · intro h
      refine .after hlink (.after htaken (.after hfile ?_))
      rw [Bool.eq_false_iff.mpr h]
      exact stops_exitWith _ s

theorem checks_checkTarget (sources : List String) (path : String) :
    Checks (checkTarget sources path) s (TargetFree s sources path) := by
  unfold checkTarget
  cases hstat : s.tree.stat s.workDir path with
  | error cause =>
    by_cases hcause : cause = .nameTooLong
    · rw [hcause] at hstat
      exact ⟨fun h => absurd hstat h.1, fun _ => ((stops_nodeAt hstat).bind _).bind _⟩
    · have htaken : eval (occupied path) s = (.ok false, s) :=
        eval_bind_ok (eval_nodeAt_missing hstat hcause) _
      have hfree : TargetFree s sources path := by
        rw [TargetFree, hstat]
        exact ⟨by simpa using hcause, by simp⟩
      exact ⟨fun _ => eval_bind_ok htaken _, fun h => absurd hfree h⟩
  | ok r =>
    have htaken : eval (occupied path) s = (.ok true, s) := eval_bind_ok (eval_nodeAt_ok hstat) _
    have hfree : TargetFree s sources path ↔ sources.contains path = true := by
      rw [TargetFree, hstat, contains_iff_mem]
      simp
    rw [hfree]
    constructor
    · intro h
      rw [eval_bind_ok htaken, h]
      rfl
    · intro h
      refine .after htaken ?_
      rw [Bool.eq_false_iff.mpr h]
      exact stops_exitWith _ s

end

def rawDir (s : Session) : Location :=
  s.workDir ++ ["raw"]

def sourceNames (n : Nat) : List String :=
  (List.range n).map fun i => s!"{i + 1}.snr"

/-- The numbered files with the names that they are to get. -/
def numbered (names : List String) : List (String × String) :=
  (sourceNames names.length).zip names

def Lists (s : Session) (names : List String) : Prop :=
  ∃ chars, eval (readChars (rootedPath (s.workDir ++ ["filenames.txt"]))) s = (.ok chars, s) ∧
    names = (wideLines chars).map fun line => String.ofList (trim line)

/-- A list that passes all checks. -/
structure Valid (s : Session) (names : List String) : Prop where
  filled : names ≠ []
  proper : ∀ name ∈ names, isBadName name = false
  distinct : names.Nodup
  sources : ∀ path ∈ (sourceNames names.length).map (entry (rawDir s)), SourceThere s path
  targets : ∀ path ∈ names.map (entry (rawDir s)),
    TargetFree s ((sourceNames names.length).map (entry (rawDir s))) path

section

variable {s : Session} {names : List String}

theorem renamings_numbered (dir : Location) (names : List String) :
    (((sourceNames names.length).map (entry dir)).zip (names.map (entry dir))).map
        (fun (s, t) => Renaming.mk s t) = (numbered names).map (renamingOf dir) := by
  rw [numbered, zip_map, map_map]
  rfl

theorem renameAll_eq (dir : Location) (names : List String) :
    renameAll (rootedPath dir) names = (do
      ((sourceNames names.length).map (entry dir)).forM checkSource
      (names.map (entry dir)).forM (checkTarget ((sourceNames names.length).map (entry dir)))
      carryOut (rootedPath dir) ((sourceNames names.length).map (entry dir))
        ((numbered names).map (renamingOf dir))) := by
  rw [← renamings_numbered, renameAll, sourceNames, map_map]
  rfl

theorem eval_main (hlist : Lists s names) :
    eval main s = eval (do
      if names.isEmpty then exitWith "ERROR: filenames.txt 空"
      checkNames 1 names
      if !decide names.Nodup then exitWith "ERROR: 发现重复目标名"
      renameAll (rootedPath (rawDir s)) names) s := by
  obtain ⟨chars, hread, rfl⟩ := hlist
  have hwork : eval workPath s = (.ok ⟨"/", s.workDir⟩, s) := rfl
  rw [main, eval_bind_ok hwork]
  exact eval_bind_ok hread _

theorem eval_main_valid (hlist : Lists s names) (h : Valid s names) :
    eval main s = eval (carryOut (rootedPath (rawDir s))
      ((sourceNames names.length).map (entry (rawDir s)))
      ((numbered names).map (renamingOf (rawDir s)))) s := by
  rw [eval_main hlist, if_neg (by simpa using h.filled),
    eval_bind_ok ((checks_checkNames 1 names).passes h.proper), if_neg (by simpa using h.distinct),
    renameAll_eq,
    eval_bind_ok ((checks_forM _ fun path _ => checks_checkSource path).passes h.sources),
    eval_bind_ok ((checks_forM _ fun path _ => checks_checkTarget _ path).passes h.targets)]

theorem stops_main (hlist : Lists s names) (h : ¬Valid s names) : Stops main s := by
  rw [Stops, eval_main hlist]
  by_cases hempty : names.isEmpty = true
  · rw [if_pos hempty]
    exact (stops_exitWith _ s).bind _
  rw [if_neg hempty]
  refine (checks_checkNames 1 names).stops_bind fun hproper => ?_
  by_cases hnodup : (!decide names.Nodup) = true
  · rw [if_pos hnodup]
    exact (stops_exitWith _ s).bind _
  rw [if_neg hnodup, renameAll_eq]
  refine (checks_forM _ fun path _ => checks_checkSource path).stops_bind fun hsources => ?_
  refine (checks_forM _ fun path _ => checks_checkTarget _ path).stops_bind fun htargets => ?_
  exact absurd ⟨by simpa using hempty, hproper, by simpa using hnodup, hsources, htargets⟩ h

theorem nodup_sourceNames (n : Nat) : (sourceNames n).Nodup := by
  rw [sourceNames, List.Nodup, pairwise_map]
  refine nodup_range.imp fun {i j} hne heq => hne ?_
  have hnumber := Nat.repr_injective ((String.append_left_inj _).mp heq)
  omega

theorem length_sourceNames (n : Nat) : (sourceNames n).length = n := by
  rw [sourceNames, length_map, length_range]

theorem fst_numbered (names : List String) :
    (numbered names).map Prod.fst = sourceNames names.length :=
  map_fst_zip (by rw [length_sourceNames])

/-- A directory with files from number one on and no links, and a list with a usable name for each
of them. A name on the list may be that of one of the files but of nothing else that is there. -/
structure Ready (s : Session) (names : List String) : Prop where
  sound : s.tree.Sound
  raw : s.tree.find? (rawDir s) = some .directory
  linkFree : s.tree.LinkFree (rawDir s)
  filled : names ≠ []
  usable : ∀ name ∈ names, IsName name ∧ ¬IsTemporary name
  distinct : names.Nodup
  files : ∀ x ∈ sourceNames names.length, ∃ bytes readOnly,
    s.tree.find? (rawDir s ++ [x]) = some (.file bytes readOnly)
  free : ∀ name ∈ names, name ∉ sourceNames names.length → s.tree.find? (rawDir s ++ [name]) = none
  short : ∀ x ∈ sourceNames names.length ++ names, isOverlong (entry (rawDir s) x) = false
  room : (rootedPath (rawDir s)).utf8ByteSize + 45 < pathLimit
  supply : s.tickets + names.length * (s.tree.entries.length + 1) < 16 ^ 32

namespace Ready

variable {x : String}

theorem fits (h : Ready s names) (hx : x ∈ sourceNames names.length ++ names) :
    Fits (rootedPath (rawDir s)) x := by
  refine ⟨?_, h.short x hx⟩
  rcases mem_append.mp hx with hx | hx
  · obtain ⟨bytes, readOnly, hfile⟩ := h.files x hx
    exact h.sound.named _ _ _ hfile
  · exact (h.usable x hx).1

theorem plan (h : Ready s names) : Plan s (rawDir s) (numbered names) where
  shelf := by
    rw [fst_numbered]
    exact ⟨h.sound, h.raw, h.linkFree, h.files⟩
  sources := by
    rw [fst_numbered]
    exact nodup_sourceNames _
  targets := by
    rw [numbered, map_snd_zip (by rw [length_sourceNames])]
    exact h.distinct
  fits p hp := by
    obtain ⟨hsource, htarget⟩ := of_mem_zip hp
    exact ⟨h.fits (mem_append_left _ hsource), h.fits (mem_append_right _ htarget)⟩
  free p hp := by
    rw [fst_numbered]
    exact h.free p.2 (of_mem_zip hp).2
  lasting p hp := (h.usable p.2 (of_mem_zip hp).2).2
  root := by simp [rawDir]
  room := h.room

theorem stat_entry (h : Ready s names) (hx : x ∈ sourceNames names.length ++ names) :
    s.tree.stat s.workDir (entry (rawDir s) x) = s.tree.lookAt (rawDir s ++ [x]) :=
  (h.plan.start.leads h.plan).stat_join (h.fits hx) (h.linkFree x)

theorem valid (h : Ready s names) : Valid s names where
  filled := h.filled
  proper name hname := by
    have hproper := (h.usable name hname).1
    simp [isBadName, hproper.filled, hproper.notDot, hproper.notDots, hproper.noSlash]
  distinct := h.distinct
  sources path hpath := by
    obtain ⟨x, hx, rfl⟩ := mem_map.mp hpath
    obtain ⟨bytes, readOnly, hfile⟩ := h.files x hx
    have hstat := h.stat_entry (mem_append_left _ hx)
    rw [lookAt, hfile] at hstat
    exact ⟨_, _, hstat, .inl ⟨bytes, readOnly, rfl⟩⟩
  targets path hpath := by
    obtain ⟨name, hname, rfl⟩ := mem_map.mp hpath
    have hstat := h.stat_entry (mem_append_right _ hname)
    by_cases hsource : name ∈ sourceNames names.length
    · obtain ⟨bytes, readOnly, hfile⟩ := h.files name hsource
      rw [lookAt, hfile] at hstat
      exact ⟨by simp [hstat], fun _ _ => mem_map_of_mem hsource⟩
    · rw [lookAt, h.free name hname hsource] at hstat
      exact ⟨by simp [hstat], by simp [hstat]⟩

end Ready

/-- A list that is ready is carried out for all files at once; one that fails a check changes
nothing. -/
theorem main_renames_at_once (hlist : Lists s names) :
    (Ready s names → ∃ s', eval main s = (.ok (), s') ∧ s'.out = s.out ++ "OK\n" ∧
      Renamed s.tree s'.tree (rawDir s) (numbered names)) ∧
    (¬Valid s names → Stops main s) := by
  refine ⟨fun h => ?_, stops_main hlist⟩
  have hlength : (numbered names).length = names.length := by
    rw [numbered, List.length_zip, length_sourceNames, Nat.min_self]
  have hcarry := eval_carryOut h.plan (by rw [hlength]; exact h.supply)
  rwa [fst_numbered, ← eval_main_valid hlist h.valid] at hcarry

theorem lists_of_file {chars : List Char} {readOnly : Bool} (hsound : s.tree.Sound)
    (hfile : s.tree.find? (s.workDir ++ ["filenames.txt"]) =
      some (.file (Utf8.encode chars) readOnly))
    (hshort : isOverlong (rootedPath (s.workDir ++ ["filenames.txt"])) = false)
    (hplain : '\r' ∉ chars)
    (hnames : (wideLines chars).map (fun line => String.ofList (trim line)) = names) :
    Lists s names := by
  have hread := reads_iff.mpr (hsound.read_rootedPath s.workDir hfile hshort)
  refine ⟨chars, ?_, hnames.symm⟩
  rw [readChars, eval_bind_ok hread, Utf8.decode_encode]
  dsimp only
  rw [plainNewlines_plain _ hplain, eval_pure]

end

def shelfOfFive (list : String) : Session where
  tree := ⟨[(["w"], .directory), (["w", "raw"], .directory),
    (["w", "filenames.txt"], .file (Utf8.encode list.toList) false),
    (["w", "raw", "1.snr"], .file [1] false), (["w", "raw", "2.snr"], .file [2] false),
    (["w", "raw", "3.snr"], .file [3] false), (["w", "raw", "4.snr"], .file [4] false),
    (["w", "raw", "5.snr"], .file [5] false)]⟩
  workDir := ["w"]

def pushedRow : Session :=
  shelfOfFive "2.snr\n1.snr\n4.snr\nb\n5.snr\n"

theorem ready_pushedRow : Ready pushedRow ["2.snr", "1.snr", "4.snr", "b", "5.snr"] where
  sound := sound_of_entries (by decide +kernel)
  raw := by decide +kernel
  linkFree := linkFree_of_entries (by decide +kernel) _
  filled := by decide
  usable := by
    have hnames : ∀ name ∈ ["2.snr", "1.snr", "4.snr", "b", "5.snr"],
        IsName name ∧ name.utf8ByteSize ≠ 44 := by decide +kernel
    exact fun name hname => ⟨(hnames name hname).1, fun h => (hnames name hname).2 h.size⟩
  distinct := by decide
  files := by
    have hfiles : ∀ x ∈ sourceNames 5, ∃ b ∈ [1, 2, 3, 4, 5],
        pushedRow.tree.find? (rawDir pushedRow ++ [x]) = some (.file [b] false) := by
      decide +kernel
    intro x hx
    obtain ⟨b, -, hfile⟩ := hfiles x hx
    exact ⟨[b], false, hfile⟩
  free := by decide +kernel
  short := by decide +kernel
  room := by decide +kernel
  supply := by decide +kernel

def doubledRow : Session :=
  shelfOfFive "a\nb\na\n"

theorem lists_pushedRow : Lists pushedRow ["2.snr", "1.snr", "4.snr", "b", "5.snr"] :=
  lists_of_file (sound_of_entries (by decide +kernel)) rfl (by decide +kernel)
    (by decide +kernel) (by decide +kernel)

theorem lists_doubledRow : Lists doubledRow ["a", "b", "a"] :=
  lists_of_file (sound_of_entries (by decide +kernel)) rfl (by decide +kernel)
    (by decide +kernel) (by decide +kernel)

theorem main_renames_at_once_row :
    (∃ s', eval main pushedRow = (.ok (), s') ∧ s'.out = "OK\n" ∧
      s'.tree.find? ["w", "raw", "1.snr"] = some (.file [2] false) ∧
      s'.tree.find? ["w", "raw", "2.snr"] = some (.file [1] false) ∧
      s'.tree.find? ["w", "raw", "3.snr"] = none ∧
      s'.tree.find? ["w", "raw", "b"] = some (.file [4] false)) ∧
    Stops main doubledRow := by
  constructor
  · obtain ⟨s', hrun, hout, hrenamed⟩ := (main_renames_at_once lists_pushedRow).1 ready_pushedRow
    refine ⟨s', hrun, hout, ?_, ?_, ?_, ?_⟩
    · exact (hrenamed.given ("2.snr", "1.snr") (by decide +kernel)).trans (by decide +kernel)
    · exact (hrenamed.given ("1.snr", "2.snr") (by decide +kernel)).trans (by decide +kernel)
    · exact hrenamed.gone ("3.snr", "4.snr") (by decide +kernel) (by decide +kernel)
    · exact (hrenamed.given ("4.snr", "b") (by decide +kernel)).trans (by decide +kernel)
  · exact (main_renames_at_once lists_doubledRow).2 fun h => absurd h.distinct (by decide)

end SceneText.RenamingTool
