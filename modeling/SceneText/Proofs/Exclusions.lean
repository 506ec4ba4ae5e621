import SceneText.Pipeline.Commands
import SceneText.Proofs.Commands
import SceneText.Proofs.NewDirectories
import SceneText.Proofs.Recovery

/-!
# Substitution in a project

A project maps its translated document in place. The documents whose characters are to be left out
of the pool all stand in the command that makes it, each behind an option of its own, but a repeated
option counts only where it stands last. So the pool spares the characters of the last document
alone, and the table of stand-ins undoes the mapping exactly if none of the stand-ins handed out
stands in the translated document itself.
-/

namespace SceneText.Pipeline

open Run Pool SubstitutionTool List SceneText.Path FileTree Charset Json

variable {path name : String} {f : Source} {s : Session} {tree : FileTree} {workDir : Location}
  {paths : List String} {stock final : List Char}

def pathOption (path : String) : String :=
  s!"--path \"{path}\""

def poolWords (paths : List String) : List String :=
  ["generate-pool", "--output", "generated/replacement_pool.json", "--encoding", "cp932"] ++
    paths.flatMap fun path => ["--path", path]

def mapWords : List String :=
  ["map", "--path", "generated/translated.json", "--output", "generated", "--replacement-pool",
    "generated/replacement_pool.json"]

theorem toolNamed_substitution :
    toolNamed (collapsed "./utils_tools/replacement_tool.py") = some SubstitutionTool.main := by
  have hname : collapsed "./utils_tools/replacement_tool.py" =
      "utils_tools/replacement_tool.py" := by decide +kernel
  rfl

theorem split_pathOption (h : '"' ∉ path.toList ∧ '\\' ∉ path.toList) :
    Words.split (pathOption path) = some ["--path", path] := by
  have htext : pathOption path = "--path" ++ " " ++ ("\"" ++ path ++ "\"") := by
    have hfront : "--path \"" = "--path" ++ " " ++ "\"" := rfl
    have htext : pathOption path = "--path \"" ++ path ++ "\"" := rfl
    rw [htext, hfront]
    simp only [String.append_assoc]
  have hfront : Words.split "--path" = some ["--path"] := by decide +kernel
  rw [htext]
  exact Words.split_append hfront (Words.split_quoted h)

theorem append_options (a b c d e options : String) :
    a ++ b ++ (c ++ d ++ e ++ ("\"" ++ " ") ++ options) =
      a ++ b ++ (c ++ d ++ e ++ "\"") ++ " " ++ options := by
  simp only [String.append_assoc]

theorem poolCommand_eq (paths : List String) :
    ∃ front, poolCommand "cp932" false paths =
        front ++ " " ++ " ".intercalate (paths.map pathOption) ∧
      Words.split front = some ["python", "./utils_tools/replacement_tool.py", "generate-pool",
        "--output", "generated/replacement_pool.json", "--encoding", "cp932"] ∧
      Shell.toolWord.toList <+: front.toList := by
  refine ⟨"python ./utils_tools/replacement_tool.py generate-pool " ++
    "--output generated/replacement_pool.json " ++ ("" ++ " --encoding \"" ++ "cp932" ++ "\""),
    ?_, by decide +kernel, by decide +kernel⟩
  unfold poolCommand
  exact append_options _ _ _ _ _ _

theorem runs_pool (h : ∀ p ∈ paths, '"' ∉ p.toList ∧ '\\' ∉ p.toList) :
    Shell.Runs toolNamed (poolCommand "cp932" false paths) SubstitutionTool.main
      (poolWords paths) := by
  obtain ⟨front, htext, hfront, hstart⟩ := poolCommand_eq paths
  have hoptions : Words.split (" ".intercalate (paths.map pathOption)) =
      some (paths.flatMap fun path => ["--path", path]) :=
    Words.split_intercalate paths fun p hp => split_pathOption (h p hp)
  refine ⟨?_, "python", "./utils_tools/replacement_tool.py", ?_, toolNamed_substitution⟩
  · rw [htext, Text.hasPrefix, isPrefixOf_iff_prefix, String.toList_append,
      String.toList_append, append_assoc]
    exact hstart.trans (prefix_append _ _)
  · rw [htext, Words.split_append hfront hoptions]
    rfl

theorem runs_map : Shell.Runs toolNamed mapCommand SubstitutionTool.main mapWords :=
  ⟨by decide +kernel, "python", "./utils_tools/replacement_tool.py", by decide +kernel,
    toolNamed_substitution⟩

theorem eval_collect (h : f.Held s) (hclean : (Clean.ofText f.path).toText = f.path) :
    eval (collect [f.path]) s = (.ok [f.path], s) := by
  obtain ⟨readOnly, hfile⟩ := h.stored
  have hstat := stat_ok.mpr ⟨h.located, hfile⟩
  have hdir : eval (holdsDirectory (Clean.ofText f.path).toText) s = (.ok false, s) := by
    rw [holdsDirectory, eval_bind, nodeAt?, eval_bind, eval_query, hstat]
    rfl
  have hcollect : eval (collect [f.path]) s = (.ok [(Clean.ofText f.path).toText], s) := by
    rw [collect, eval_bind, mapM_cons, eval_bind, eval_bind, hdir]
    rfl
  rwa [hclean] at hcollect

/-- The command for a pool with these documents reads the last of them alone. -/
structure ReadsLast (paths : List String) (last : Source) : Prop where
  plain : ∀ p ∈ paths, '"' ∉ p.toList ∧ '\\' ∉ p.toList
  clean : (Clean.ofText last.path).toText = last.path
  read : Arguments.readCommand "command" true commands (poolWords paths) =
    .ok [("command", ["generate-pool"]), ("output", ["generated/replacement_pool.json"]),
      ("encoding", ["cp932"]), ("path", [last.path])]

theorem ReadsLast.eval_main (hlast : ReadsLast paths f) (h : f.Held s) :
    eval (SubstitutionTool.main (poolWords paths)) s =
      eval (makePool [f.path] "generated/replacement_pool.json" .cp932) s := by
  rw [SubstitutionTool.main, hlast.read, eval_bind]
  change eval (collect [f.path] >>= fun paths =>
    makePool paths "generated/replacement_pool.json" .cp932) s = _
  rw [eval_bind, eval_collect h hlast.clean]

theorem eval_main_map (h : f.Held s) (hpath : f.path = "generated/translated.json") :
    eval (SubstitutionTool.main mapWords) s =
      eval (map [f.path] "generated" "generated/replacement_pool.json") s := by
  have hclean : (Clean.ofText f.path).toText = f.path := by
    rw [hpath]
    decide +kernel
  have hread : Arguments.readCommand "command" true commands mapWords =
      .ok [("command", ["map"]), ("path", ["generated/translated.json"]), ("output", ["generated"]),
        ("pool", ["generated/replacement_pool.json"])] := rfl
  rw [SubstitutionTool.main, hread, eval_bind, ← hpath]
  change eval (collect [f.path] >>= fun paths =>
    map paths "generated" "generated/replacement_pool.json") s = _
  rw [eval_bind, eval_collect h hclean]

def writtenNames : List String :=
  ["translated.json", "excluded.json", "replacement_pool.json", "mapping.json"]

/-- A command writes the map and the mapped document if the stock has enough for all that the
document lacks, and fails otherwise. -/
structure Maps (command : Run Unit) (s : Session) (translated : Source) (stock final : List Char) :
    Prop where
  enough : final.length ≤ stock.length → ∃ s', eval command s = (.ok (), s') ∧
    HoldsDocument s' "generated/mapping.json" (after .cp932 stock final).tableJson ∧
    HoldsDocument s' "generated/translated.json"
      (.arr (translated.items.map (mappedEntry .cp932 stock final)))
  scarce : stock.length < final.length →
    ∃ s', eval command s = (.error (.fault (.commandFailed mapCommand 1)), s')

structure Setting (s : Session) (translated : Source) where
  path : translated.path = "generated/translated.json"
  held : translated.Held s
  folder : Location
  there : s.tree.stat s.workDir "generated" = .ok (folder, .directory)
  room : Room s (Clean.ofText "generated") writtenNames

namespace Setting

variable {s s' : Session} {translated : Source}

theorem loc_eq (setting : Setting s translated) :
    translated.loc = setting.room.place "translated.json" := by
  have htext : (Clean.ofText translated.path).toText =
      ((Clean.ofText "generated").append "translated.json").toText := by
    rw [setting.path]
    decide +kernel
  have hopens := setting.room.opens "translated.json" (by decide)
  have hlocated := setting.held.located
  rw [htext, (writeLocation_ok.mp hopens.located).2.1] at hlocated
  exact (Except.ok.inj hlocated).symm

def same (setting : Setting s translated) (h : s.SameFiles s') : Setting s' translated where
  path := setting.path
  held := setting.held.same h
  folder := setting.folder
  there := by rw [h.tree, h.place]; exact setting.there
  room := setting.room.keep (List.Subset.refl _) fun _ _ => opens_same h

def store (setting : Setting s translated) {name : String} (hname : name ∈ writtenNames)
    (hne : name ≠ "translated.json") (bytes : List UInt8) :
    Setting { s with tree := s.tree.store (setting.room.place name) bytes } translated where
  path := setting.path
  held := by
    have hopens := setting.room.opens name hname
    have happart : translated.loc ≠ setting.room.place name := by
      rw [setting.loc_eq]
      exact fun heq => hne (setting.room.apart _ (by decide) _ hname heq).symm
    exact setting.held.store hopens happart bytes
  folder := setting.folder
  there := by
    have hext := (setting.room.opens name hname).extends_store bytes
    exact hext.stat setting.there (hext.ways _ _ rfl (stat_ok.mp setting.there).2)
  room := setting.room.keep (List.Subset.refl _) fun path loc hopens =>
    hopens.store (setting.room.opens name hname) bytes

theorem eval_demand_pool (setting : Setting s translated) (behind : Shell) {last : Source}
    (hlast : last.Held s) (hreads : ReadsLast paths last)
    (hstock : stock = unused .cp932 last.chars) :
    ∃ s', ∃ _ : Setting s' translated,
      eval ((Shell.within toolNamed behind).demand (poolCommand "cp932" false paths)) s =
        (.ok (), s') ∧
      Reads s' (Clean.ofText "generated/replacement_pool.json").toText (file .cp932 stock) := by
  obtain ⟨o, ho, hpool, -⟩ := (runs_pool hreads.plain).eval_demand behind s
  have hpoolPath : (Clean.ofText "generated/replacement_pool.json").toText =
      ((Clean.ofText "generated").append "replacement_pool.json").toText := by decide +kernel
  have hopens := (setting.same ho).room.opens "replacement_pool.json" (by decide)
  obtain ⟨out, hmake⟩ := eval_makePool .cp932 [last] "generated/replacement_pool.json"
    (forall_mem_singleton.mpr (hlast.same ho)) hopens
  rw [flatMap_cons, flatMap_nil, append_nil, ← hstock] at hmake
  obtain ⟨s', hdone, hsame⟩ := hpool _ ((hreads.eval_main (hlast.same ho)).trans hmake)
  refine ⟨s', ((setting.same ho).store (show "replacement_pool.json" ∈ writtenNames by decide)
    (by decide) (file .cp932 stock)).same ⟨hsame.tree, hsame.place⟩, hdone, ?_⟩
  exact (reads_written hopens (file .cp932 stock)).same ⟨hsame.tree, hsame.place⟩

theorem maps_demand (setting : Setting s translated) (behind : Shell)
    (hread : Reads s (Clean.ofText "generated/replacement_pool.json").toText (file .cp932 stock))
    (hnodup : stock.Nodup) (hhas : ∀ c ∈ stock, cp932.has c = true)
    (hfinal : final = noteAll .cp932 [] translated.chars) :
    Maps ((Shell.within toolNamed behind).demand mapCommand) s translated stock final := by
  obtain ⟨o, ho, hmapped, hstuck⟩ := runs_map.eval_demand behind s
  have setting' := setting.same ho
  rw [eval_main_map setting'.held setting.path] at hmapped hstuck
  have hname : translated.name = "translated.json" := by
    rw [Source.name, setting.path]
    decide +kernel
  have hnames : fileNames [translated] = ["translated.json", "mapping.json"] := by
    rw [fileNames, map_cons, hname]
    rfl
  have hsub : fileNames [translated] ⊆ writtenNames := by
    rw [hnames]
    decide
  have hdir : eval (makeClean (Clean.ofText "generated")) o = (.ok (), o) := by
    have htext : (Clean.ofText "generated").toText = "generated" := by decide +kernel
    apply eval_makeClean_there
    · decide
    · decide +kernel
    · exact setting'.there
  let room : Room o (Clean.ofText "generated") (fileNames [translated]) :=
    setting'.room.keep hsub fun _ _ h => h
  obtain ⟨henough, hscarce⟩ := eval_map hnodup hhas (hread.same ho) hdir room
    (forall_mem_singleton.mpr setting'.held) (pairwise_singleton _ _) (hfinal.trans (by simp))
  constructor
  · intro h
    obtain ⟨out, hmap⟩ := henough h
    obtain ⟨s', hdone, hsame⟩ := hmapped _ hmap
    obtain ⟨htable, hdocument⟩ :=
      read_contents room (by rw [hnames]; decide) hnodup .cp932 final out
    have hmine := hdocument translated (mem_singleton.mpr rfl)
    rw [hname] at hmine
    exact ⟨s', hdone, htable.same hsame, hmine.same hsame⟩
  · intro h
    obtain ⟨c, t, hfault⟩ := hscarce h
    obtain ⟨s', hfailed⟩ := hstuck _ _ hfault
    exact ⟨s', hfailed⟩

theorem maps_substituteFrom (setting : Setting s translated) (behind : Shell) {last : Source}
    (hlast : last.Held s) (hreads : ReadsLast paths last)
    (hstock : stock = unused .cp932 last.chars)
    (hfinal : final = noteAll .cp932 [] translated.chars) :
    Maps (substituteFrom (Shell.within toolNamed behind) "cp932" false paths) s translated stock
      final := by
  obtain ⟨hnodup, hhas, -⟩ := unused_fresh .cp932 last.chars
  rw [← hstock] at hnodup hhas
  obtain ⟨s₁, setting₁, hpool, hread₁⟩ :=
    setting.eval_demand_pool behind hlast hreads hstock
  -- Between the commands and behind them there is only talk.
  obtain ⟨s₂, hbetween, hsame₂⟩ := ((talk_say "替换池生成完成").bind (talk_say "应用替换映射...")).before
    ((Shell.within toolNamed behind).demand mapCommand >>= fun _ => do
      say "替换映射应用完成"
      say "替换流程完成") s₁
  obtain ⟨s₃, hbehind, hsame₃⟩ := ((talk_say "替换映射应用完成").bind (talk_say "替换流程完成")).behind
    ((Shell.within toolNamed behind).demand mapCommand) s₂
  have hrun : eval (substituteFrom (Shell.within toolNamed behind) "cp932" false paths) s =
      ((eval ((Shell.within toolNamed behind).demand mapCommand) s₂).1, s₃) := by
    rw [bind_assoc] at hbetween
    rw [substituteFrom, eval_bind, hpool, ← hbehind]
    exact hbetween
  obtain ⟨henough, hscarce⟩ := (setting₁.same hsame₂).maps_demand behind (hread₁.same hsame₂)
    hnodup hhas hfinal
  constructor
  · intro h
    obtain ⟨s', hdone, htable, hdocument⟩ := henough h
    rw [hdone] at hrun hsame₃
    exact ⟨s₃, hrun, htable.same hsame₃, hdocument.same hsame₃⟩
  · intro h
    obtain ⟨s', hfailed⟩ := hscarce h
    rw [hfailed] at hrun
    exact ⟨s₃, hrun⟩

end Setting

def poolPaths (sources excluded : Bool) : List String :=
  ("generated/translated.json" :: if sources then ["generated/raw.json"] else []) ++
    if excluded then ["generated/excluded.json"] else []

theorem plain_poolPaths (sources excluded : Bool) :
    ∀ p ∈ poolPaths sources excluded, '"' ∉ p.toList ∧ '\\' ∉ p.toList := by
  cases sources <;> cases excluded <;> decide +kernel

def messageSource (path : String) (loc : Location) (message : String) : Source where
  path := path
  loc := loc
  bytes := Utf8.encode (arr [.obj [("message", .str message)]]).indented.toList
  items := [.obj [("message", .str message)]]
  parsed := by
    apply documentOf_indented
    · exact ⟨⟨by simp, trivial, trivial⟩, trivial⟩
    · show 2 ≤ maxDepth
      decide
  spoken := by
    intro item hitem
    rw [mem_singleton.mp hitem]
    apply Spoken.intro [("message", .str message)] message rfl
    intro v hv
    cases (show none = some v from hv)

def excludedSource (loc : Location) (message : String) : Source :=
  messageSource "generated/excluded.json" loc message

theorem Setting.eval_writeExcluded {translated : Source} (setting : Setting s translated)
    (message : String) :
    ∃ s', eval (writeExcluded (.str message)) s = (.ok (), s') ∧
      Session.SameFiles { s with
        tree := s.tree.store (setting.room.place "excluded.json")
          (excludedSource (setting.room.place "excluded.json") message).bytes } s' := by
  obtain ⟨s₁, heval, hsame⟩ := (talk_say "生成排除消息文件...").before (do
    makeDirectories true "generated"
    writeJson "generated/excluded.json" (.arr [.obj [("message", .str message)]])
    say "排除消息文件生成完成") s
  have hmake : eval (makeDirectories true "generated") s₁ = (.ok (), s₁) :=
    eval_makeDirectories_kept (by decide) (setting.same hsame).there
  have hopens := (setting.same hsame).room.opens "excluded.json" (by decide)
  have htext : ((Clean.ofText "generated").append "excluded.json").toText =
      "generated/excluded.json" := by decide +kernel
  obtain ⟨out, hwrite⟩ := eval_writeJson_talk (v := .arr [.obj [("message", .str message)]]) hopens
    (talk_say "排除消息文件生成完成")
  have hrun := heval.trans ((eval_bind_ok hmake _).trans hwrite)
  have hplace : (setting.same hsame).room.place = setting.room.place := rfl
  refine ⟨_, hrun, ?_, hsame.place⟩
  dsimp only [excludedSource, messageSource]
  rw [← hsame.tree, hplace]

/-- A project that is ready for the substitution. The sources need to be there only if they are to
be left out. -/
structure Project (s : Session) (sources : Bool) where
  translated : Source
  raw : Source
  setting : Setting s translated
  raw_path : raw.path = "generated/raw.json"
  raw_held : sources = true → raw.Held s

namespace Project

variable {s : Session} {sources : Bool}

/-- The document that the command for the pool names last. -/
def last (project : Project s sources) : Option String → Source
  | some message => excludedSource (project.setting.room.place "excluded.json") message
  | none => if sources then project.raw else project.translated

theorem read_poolWords (project : Project s sources) (message : Option String) :
    Arguments.readCommand "command" true commands (poolWords (poolPaths sources message.isSome)) =
      .ok [("command", ["generate-pool"]), ("output", ["generated/replacement_pool.json"]),
        ("encoding", ["cp932"]), ("path", [(project.last message).path])] := by
  cases message with
  | some message =>
    cases sources with
    | true => rfl
    | false => rfl
  | none =>
    cases sources with
    | true =>
      have hpath : (project.last none).path = "generated/raw.json" := project.raw_path
      rw [hpath]
      rfl
    | false =>
      have hpath : (project.last none).path = "generated/translated.json" := project.setting.path
      rw [hpath]
      rfl

theorem clean_path (project : Project s sources) (message : Option String) :
    (Clean.ofText (project.last message).path).toText = (project.last message).path := by
  cases message with
  | some message =>
    show (Clean.ofText "generated/excluded.json").toText = "generated/excluded.json"
    decide +kernel
  | none =>
    cases sources with
    | true =>
      show (Clean.ofText project.raw.path).toText = project.raw.path
      rw [project.raw_path]
      decide +kernel
    | false =>
      show (Clean.ofText project.translated.path).toText = project.translated.path
      rw [project.setting.path]
      decide +kernel

theorem readsLast (project : Project s sources) (message : Option String) :
    ReadsLast (poolPaths sources message.isSome) (project.last message) :=
  ⟨plain_poolPaths _ _, project.clean_path message, project.read_poolWords message⟩

theorem substitute_plain (shell : Shell) (sources : Bool) :
    substitute shell "cp932" { sources := sources } = (do
      say "开始替换流程..."
      say "生成替换池..."
      substituteFrom shell "cp932" false (poolPaths sources false)) := by
  cases sources <;> rfl

theorem substitute_excluding (shell : Shell) (sources : Bool) (message : String) :
    substitute shell "cp932" { sources := sources, message := some (.str message) } = (do
      say "开始替换流程..."
      say "生成替换池..."
      writeExcluded (.str message)
      substituteFrom shell "cp932" false (poolPaths sources true)) :=
  rfl

theorem eval_prepared (project : Project s sources) (shell : Shell) (message : Option String) :
    ∃ s₁, ∃ _ : Setting s₁ project.translated,
      eval (substitute shell "cp932" { sources := sources, message := message.map .str }) s =
        eval (substituteFrom shell "cp932" false (poolPaths sources message.isSome)) s₁ ∧
      (project.last message).Held s₁ := by
  have hopening := (talk_say "开始替换流程...").bind (talk_say "生成替换池...")
  cases message with
  | none =>
    obtain ⟨s₁, heval, hsame⟩ :=
      hopening.before (substituteFrom shell "cp932" false (poolPaths sources false)) s
    refine ⟨s₁, project.setting.same hsame, ?_, ?_⟩
    · rw [bind_assoc] at heval
      rw [Option.map_none, substitute_plain, heval, Option.isSome_none]
    · cases sources with
      | true => exact (project.raw_held rfl).same hsame
      | false => exact project.setting.held.same hsame
  | some message =>
    obtain ⟨s₁, heval, hsame⟩ := hopening.before (writeExcluded (.str message) >>= fun _ =>
      substituteFrom shell "cp932" false (poolPaths sources true)) s
    obtain ⟨s₂, hwrite, hsame₂⟩ := (project.setting.same hsame).eval_writeExcluded message
    refine ⟨s₂, ((project.setting.same hsame).store
      (show "excluded.json" ∈ writtenNames by decide) (by decide) _).same hsame₂, ?_, ?_⟩
    · rw [bind_assoc] at heval
      rw [Option.map_some, substitute_excluding, heval, eval_bind_ok hwrite, Option.isSome_some]
    · have hopens := (project.setting.same hsame).room.opens "excluded.json" (by decide)
      have htext : (Clean.ofText "generated/excluded.json").toText =
          ((Clean.ofText "generated").append "excluded.json").toText := by decide +kernel
      rw [← htext] at hopens
      exact (holds_written hopens _).same hsame₂

theorem maps_substitute (project : Project s sources) (behind : Shell) (message : Option String)
    (hstock : stock = unused .cp932 (project.last message).chars)
    (hfinal : final = noteAll .cp932 [] project.translated.chars) :
    Maps (substitute (Shell.within toolNamed behind) "cp932"
      { sources := sources, message := message.map .str }) s project.translated stock final := by
  obtain ⟨s₁, setting, heval, hheld⟩ :=
    project.eval_prepared (Shell.within toolNamed behind) message
  obtain ⟨henough, hscarce⟩ :=
    setting.maps_substituteFrom behind hheld (project.readsLast message) hstock hfinal
  rw [← heval] at henough hscarce
  exact ⟨henough, hscarce⟩

end Project

def emptySource : Source where
  path := "generated/raw.json"
  loc := ["generated", "raw.json"]
  bytes := Utf8.encode (arr []).indented.toList
  items := []
  parsed := documentOf_indented trivial (by decide)
  spoken := by simp

def messageSession (message : String) : Session where
  tree := ⟨[(["generated"], .directory),
    (["generated", "translated.json"], .file (messageSource "" [] message).bytes false),
    (["generated", "raw.json"], .file emptySource.bytes false)]⟩
  workDir := []

theorem writtenNames_text : ∀ name ∈ writtenNames,
    ((Clean.ofText "generated").append name).toText = "generated/" ++ name := by decide +kernel

theorem held_of_text {f : Source} {s : Session} (path : String) (hpath : f.path = path)
    (htext : (Clean.ofText path).toText = path) (h : Holds s path f.loc f.bytes) : f.Held s := by
  rwa [Source.Held, hpath, htext]

def messageProject (message : String) (sources : Bool) :
    Project (messageSession message) sources where
  translated := messageSource "generated/translated.json" ["generated", "translated.json"] message
  raw := emptySource
  setting :=
    { path := rfl
      held := held_of_text "generated/translated.json" rfl (by decide +kernel)
        ⟨by decide +kernel, rfl, false, rfl⟩
      folder := ["generated"]
      there := rfl
      room :=
        { place := fun name => ["generated", name]
          opens := by
            intro name hname
            rw [writtenNames_text name hname]
            simp only [writtenNames, mem_cons, not_mem_nil, or_false] at hname
            rcases hname with rfl | rfl | rfl | rfl
            · exact ⟨by decide +kernel, rfl, fun n hn => ⟨_, (Option.some.inj hn).symm⟩⟩
            all_goals
              exact .of_free (by decide +kernel) rfl rfl
          apart := by simp } }
  raw_path := rfl
  raw_held _ := held_of_text "generated/raw.json" rfl (by decide +kernel)
    ⟨by decide +kernel, rfl, false, rfl⟩

theorem chars_message (message : String) (sources : Bool) :
    (messageProject message sources).translated.chars = message.toList := by
  have hmessage : spokenChars (.obj [("message", .str message)]) = message.toList := rfl
  show [obj [("message", .str message)]].flatMap spokenChars = message.toList
  rw [flatMap_cons, hmessage, flatMap_nil, append_nil]

/-- The substitution of a project ends well if the pool has enough stand-ins, and only then. The
table that it leaves gives the translated document back exactly if no stand-in handed out stands in
the document itself. This is so if nothing is to be left out besides the document, since its own
characters are then left out of the pool; otherwise the pool spares those of the last document
named. -/
theorem Project.substitute_restored_iff {s : Session} {sources : Bool}
    (project : Project s sources) (behind : Shell)
    (message : Option String) {stock lacks : List Char}
    (hstock : stock = unused .cp932 (project.last message).chars)
    (hlacks : lacks = lacking .cp932 project.translated.chars) :
    (lacks.length ≤ stock.length → ∃ s' table items,
        eval (substitute (Shell.within toolNamed behind) "cp932"
          { sources := sources, message := message.map .str }) s = (.ok (), s') ∧
        eval (readJson "generated/mapping.json") s' =
          (.ok (.obj [("code_page", .int 932), ("mapping", .obj table)]), s') ∧
        eval (readJson "generated/translated.json") s' = (.ok (.arr items), s') ∧
        (Restored table project.translated.items items ↔
          ∀ c ∈ project.translated.chars, c ∉ stock.take lacks.length) ∧
        (sources = false → message = none → Restored table project.translated.items items)) ∧
    (stock.length < lacks.length → ∃ s', eval (substitute (Shell.within toolNamed behind) "cp932"
          { sources := sources, message := message.map .str }) s =
        (.error (.fault (.commandFailed mapCommand 1)), s')) := by
  obtain ⟨hnodup, hhas, hspared⟩ := unused_fresh .cp932 (project.last message).chars
  rw [← hstock] at hnodup hhas hspared
  obtain ⟨final, hfinal⟩ : ∃ final, final = noteAll .cp932 [] project.translated.chars := ⟨_, rfl⟩
  have hlength : final.length = lacks.length := by rw [hfinal, length_noteAll, hlacks]
  obtain ⟨henough, hscarce⟩ := project.maps_substitute behind message hstock hfinal
  rw [hlength] at henough hscarce
  refine ⟨fun h => ?_, hscarce⟩
  obtain ⟨s', hrun, htable, hdocument⟩ := henough h
  have hiff := restored_iff hnodup hhas hfinal (by rwa [hlength])
  rw [hlength] at hiff
  refine ⟨s', _, _, hrun, htable.read, hdocument.read, hiff, fun hsources hmessage => ?_⟩
  subst hsources hmessage
  exact hiff.mpr fun c hc hgiven => hspared c hc (List.mem_of_mem_take hgiven)

theorem substitute_restored_iff_beyond :
    ∃ s' table items,
      eval (substitute (Shell.within toolNamed Shell.scripted) "cp932" {}) (messageSession "龡") =
        (.ok (), s') ∧
      eval (readJson "generated/mapping.json") s' =
        (.ok (.obj [("code_page", .int 932), ("mapping", .obj table)]), s') ∧
      eval (readJson "generated/translated.json") s' = (.ok (.arr items), s') ∧
      Restored table [.obj [("message", .str "龡")]] items := by
  have hlacks : lacking .cp932 (messageProject "龡" false).translated.chars = ['龡'] := by
    rw [chars_message]
    simp [lacking, hasText_beyond]
  obtain ⟨henough, -⟩ := (messageProject "龡" false).substitute_restored_iff Shell.scripted none rfl
    rfl
  obtain ⟨s', table, items, hrun, htable, hitems, -, hrestored⟩ := henough (by
    rw [hlacks]
    apply pool_nonempty
    show '龠' ∉ (messageProject "龡" false).translated.chars
    rw [chars_message]
    decide)
  exact ⟨s', table, items, hrun, htable, hitems, hrestored rfl rfl⟩

/-- With the sources left out too, the pool no longer spares the characters of the translated
document: one that stands in it is handed out for another, and the table takes both for the same. -/
theorem substitute_flute :
    ∃ s' table items,
      eval (substitute (Shell.within toolNamed Shell.scripted) "cp932" { sources := true })
        (messageSession "龠龡") = (.ok (), s') ∧
      eval (readJson "generated/mapping.json") s' =
        (.ok (.obj [("code_page", .int 932), ("mapping", .obj table)]), s') ∧
      eval (readJson "generated/translated.json") s' = (.ok (.arr items), s') ∧
      ¬Restored table [.obj [("message", .str "龠龡")]] items := by
  obtain ⟨stock, hstock⟩ : ∃ stock,
      stock = unused .cp932 ((messageProject "龠龡" true).last none).chars := ⟨_, rfl⟩
  obtain ⟨final, hfinal⟩ : ∃ final,
      final = noteAll .cp932 [] (messageProject "龠龡" true).translated.chars := ⟨_, rfl⟩
  have hchars : (messageProject "龠龡" true).translated.chars = ['龠', '龡'] := chars_message "龠龡" true
  have hone : final.length = 1 := by
    have hflute : cp932.hasText ['龠'] = true := by simp [hasText, has_flute]
    rw [hfinal, length_noteAll, hchars, lacking]
    simp [hflute, hasText_beyond]
  obtain ⟨hnodup, hhas, -⟩ := unused_fresh .cp932 ((messageProject "龠龡" true).last none).chars
  rw [← hstock] at hnodup hhas
  -- The sources have no characters to be left out.
  have hfirst : stock.head? = some '龠' := by
    rw [hstock]
    exact unused_head (List.not_mem_nil)
  have hpool : stock = '龠' :: stock.tail := (List.cons_head?_tail hfirst).symm
  have henough : final.length ≤ stock.length := by
    rw [hone, hpool]
    simp
  obtain ⟨hmapped, -⟩ :=
    (messageProject "龠龡" true).maps_substitute Shell.scripted none hstock hfinal
  obtain ⟨s', hrun, htable, hdocument⟩ := hmapped henough
  refine ⟨s', _, _, hrun, htable.read, hdocument.read, fun hrestored => ?_⟩
  have hspared := (restored_iff hnodup hhas hfinal henough).mp hrestored '龠' (by
    show '龠' ∈ (messageProject "龠龡" true).translated.chars
    simp [hchars])
  rw [hone, hpool] at hspared
  simp at hspared

end SceneText.Pipeline
