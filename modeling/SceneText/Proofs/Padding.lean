import SceneText.Tool.Padding
import SceneText.Proofs.Walks

/-!
# Files filled up

A file that is shorter than its counterpart is filled up with a repeated pattern to the size of the
counterpart. Then nothing is left to fill, so that the tool changes nothing when it runs again.
-/

namespace SceneText.PaddingTool

open Run FileTree List SceneText.Path

section Pattern

variable {pattern : List UInt8}

theorem length_periodic (hpattern : pattern ≠ []) (n : Nat) : (periodic pattern n).length = n := by
  have hpos : 0 < pattern.length := length_pos_iff.mpr hpattern
  have hrest : n % pattern.length < pattern.length := Nat.mod_lt n hpos
  rw [periodic, length_append, length_flatten, map_replicate, sum_replicate_nat,
    length_take, Nat.min_eq_left hrest.le, Nat.mul_comm, Nat.div_add_mod]

theorem periodic_add (hpattern : pattern ≠ []) (n : Nat) :
    periodic pattern (n + pattern.length) = pattern ++ periodic pattern n := by
  have hpos : 0 < pattern.length := length_pos_iff.mpr hpattern
  rw [periodic, Nat.add_div_right n hpos, Nat.add_mod_right, replicate_succ,
    flatten_cons, append_assoc]
  rfl

theorem getElem?_periodic (hpattern : pattern ≠ []) {n j : Nat} (hj : j < n) :
    (periodic pattern n)[j]? = pattern[j % pattern.length]? := by
  induction n using Nat.strong_induction_on generalizing j with
  | _ n ih =>
    have hpos : 0 < pattern.length := length_pos_iff.mpr hpattern
    by_cases hn : n < pattern.length
    · rw [periodic, Nat.div_eq_of_lt hn, Nat.mod_eq_of_lt hn, Nat.mod_eq_of_lt (hj.trans hn)]
      simp [hj]
    · obtain ⟨m, rfl⟩ := Nat.exists_eq_add_of_le' (Nat.not_lt.mp hn)
      rw [periodic_add hpattern]
      by_cases hfirst : j < pattern.length
      · rw [getElem?_append_left hfirst, Nat.mod_eq_of_lt hfirst]
      · have hrest := ih m (by omega) (j := j - pattern.length) (by omega)
        rw [getElem?_append_right (Nat.not_lt.mp hfirst), hrest,
          Nat.mod_eq_sub_mod (Nat.not_lt.mp hfirst)]

end Pattern

variable {s s' : Session} {raw translated path : String} {src dst : Location}
  {filling : Filling} {p : List String} {bytes content : List UInt8} {readOnly : Bool}

theorem eval_sizeOf {loc : Location} (hzero : '\x00' ∉ path.toList)
    (hstat : s.tree.stat s.workDir path = .ok (loc, .file bytes readOnly)) :
    eval (Run.sizeOf path) s = (.ok bytes.length, s) := by
  rw [Run.sizeOf, inquire, eval_bind_ok (eval_checkPath hzero s), eval_bind_ok (eval_query _ s),
    FileTree.size, hstat]
  rfl

/-- A pattern fills any room exactly, so that the fallback is never asked for. -/
theorem eval_fillingFor (hpattern : filling.pattern ≠ []) (path : String) (n : Nat) :
    eval (fillingFor filling path n) s = (.ok (periodic filling.pattern n),
      { s with out := s.out ++ "  使用模式字节完美填充" ++ "\n" }) := by
  rw [fillingFor, if_pos (by simpa using hpattern)]
  dsimp only
  rw [if_pos (length_periodic hpattern n)]
  rfl

theorem eval_extend {loc : Location} (hopens : s.tree.Opens s.workDir path loc)
    (hold : s.tree.find? loc = some (.file bytes false)) (more : List UInt8) :
    ∃ s', eval (extend path more (bytes ++ more).length) s = (.ok (), s') ∧
      s'.workDir = s.workDir ∧ s'.tree = s.tree.store loc (bytes ++ more) := by
  have happend : eval (appendBytes path more) s =
      (.ok (), { s with tree := s.tree.store loc (bytes ++ more) }) := by
    rw [appendBytes, eval_change hopens.plain, FileTree.append, hopens.located]
    dsimp only
    rw [hold]
    rfl
  have hwritten := holds_written hopens (bytes ++ more)
  obtain ⟨readOnly, hfile⟩ := hwritten.stored
  have hsize := eval_sizeOf hopens.plain (stat_ok.mpr ⟨hwritten.located, hfile⟩)
  rw [extend, eval_bind, eval_attempt, eval_bind_ok happend, eval_bind_ok hsize,
    if_neg (not_not_intro rfl)]
  exact ⟨_, rfl, rfl, rfl⟩

/-- Two directories apart, regular files in the second, and for each of them a counterpart in the
first that is at least as long. -/
structure Pads (s : Session) (raw translated : String) (src dst : Location) : Prop where
  proper : s.tree.Proper
  here : s.tree.Leads s.workDir raw src
  there : s.tree.Leads s.workDir translated dst
  texts : ∀ path ∈ [raw, translated], path ≠ "" ∧ isOverlong path = false
  apart : Apart src dst
  regular : s.tree.Plain dst
  spelled : s.tree.Spellable dst translated raw
  counterpart : ∀ p bytes readOnly, s.tree.find? (dst ++ p) = some (.file bytes readOnly) →
    readOnly = false ∧ ∃ content protect,
      s.tree.find? (src ++ p) = some (.file content protect) ∧ bytes.length ≤ content.length

def filled (pattern bytes content : List UInt8) : List UInt8 :=
  bytes ++ periodic pattern (content.length - bytes.length)

structure Fills (pattern : List UInt8) (src dst : Location) (ps : List (List String))
    (s s' : Session) : Prop where
  place : s'.workDir = s.workDir
  files : ∀ p ∈ ps, ∀ bytes content protect, s.tree.find? (dst ++ p) = some (.file bytes false) →
    s.tree.find? (src ++ p) = some (.file content protect) →
      s'.tree.find? (dst ++ p) = some (.file (filled pattern bytes content) false)
  others : ∀ loc, (∀ p ∈ ps, loc ≠ dst ++ p) → s'.tree.find? loc = s.tree.find? loc
  still : (∀ p ∈ ps, ∀ bytes content protect, s.tree.find? (dst ++ p) = some (.file bytes false) →
    s.tree.find? (src ++ p) = some (.file content protect) → bytes.length = content.length) →
      s'.tree = s.tree

theorem Pads.file_ne (h : Pads s raw translated src dst)
    (hfile : s.tree.find? (dst ++ p) = some (.file bytes readOnly)) : p ≠ [] := by
  rintro rfl
  rw [append_nil, h.there.directory] at hfile
  cases hfile

theorem filled_eq {pattern : List UInt8} (hpattern : pattern ≠ [])
    (hlength : bytes.length = content.length) : filled pattern bytes content = bytes := by
  have hnone := length_periodic hpattern (content.length - bytes.length)
  rw [hlength, Nat.sub_self, length_eq_zero_iff] at hnone
  rw [filled, hlength, Nat.sub_self, hnone, append_nil]

theorem Pads.store (h : Pads s raw translated src dst) {protect : Bool}
    (hopens : s.tree.Opens s.workDir path (dst ++ p))
    (hfile : s.tree.find? (dst ++ p) = some (.file bytes false))
    (hcontent : s.tree.find? (src ++ p) = some (.file content protect)) {new : List UInt8}
    (hnew : new.length ≤ content.length) (hdir : s'.workDir = s.workDir)
    (htree : s'.tree = s.tree.store (dst ++ p) new) : Pads s' raw translated src dst := by
  have hextends := hopens.extends_store new
  have hfind : ∀ q, s'.tree.find? (dst ++ q) =
      if q = p then some (.file new false) else s.tree.find? (dst ++ q) := by
    intro q
    rw [htree, hopens.find?_store]
    simp only [append_cancel_left_eq]
  have hsrc : ∀ q, s'.tree.find? (src ++ q) = s.tree.find? (src ++ q) := by
    intro q
    rw [htree, hopens.find?_store, if_neg (h.apart.ne q p)]
  refine ⟨?_, ?_, ?_, h.texts, h.apart, fun q n hq => ?_, fun q n hne hq => ?_,
    fun q old readOnly hq => ?_⟩
  · obtain hp | ⟨q, x, hp⟩ := eq_nil_or_concat p
    · exact absurd hp (h.file_ne hfile)
    · rw [hp, concat_eq_append, ← append_assoc] at hfile htree
      rw [htree]
      exact h.proper.insert (h.proper.above _ _ _ hfile) (h.proper.named _ _ _ hfile)
        (by rw [hfile]; simp) _
  · rw [htree, hdir]
    exact h.here.extend hextends
  · rw [htree, hdir]
    exact h.there.extend hextends
  · rw [hfind] at hq
    split at hq
    · cases hq
      rfl
    · exact h.regular q n hq
  · rw [hfind] at hq
    split at hq
    · next heq => exact h.spelled q _ hne (heq ▸ hfile)
    · exact h.spelled q n hne hq
  · rw [hfind] at hq
    rw [hsrc]
    split at hq
    · next heq =>
      cases hq
      exact ⟨rfl, content, protect, heq ▸ hcontent, hnew⟩
    · exact h.counterpart q old readOnly hq

theorem eval_padFile (h : Pads s raw translated src dst) (hpattern : filling.pattern ≠ [])
    (hfile : s.tree.find? (dst ++ p) = some (.file bytes readOnly)) :
    ∃ s', eval (padFile raw translated filling (below translated p)) s = (.ok (), s') ∧
      Fills filling.pattern src dst [p] s s' ∧ Pads s' raw translated src dst := by
  obtain ⟨rfl, content, protect, hcontent, hle⟩ := h.counterpart p bytes readOnly hfile
  have hne := h.file_ne hfile
  have hnames : ∀ y ∈ p, IsName y := fun y hy =>
    h.proper.names_of hfile y (mem_append_right _ hy)
  obtain ⟨hshort, hshort'⟩ := h.spelled p _ hne hfile
  have hstat := h.there.stat_below h.proper.toSound hne hfile (by simp) hshort
  have hstat' := h.here.stat_below h.proper.toSound hne hcontent (by simp) hshort'
  have hopens := h.there.opens_below h.proper.toSound hne hfile hshort
  have hsize := eval_sizeOf (plain_below h.there.plain hnames) hstat
  have hsize' := eval_sizeOf (plain_below h.here.plain hnames) hstat'
  have hpresent : eval (Run.present (below raw p)) s = (.ok true, s) := by
    rw [Run.present, eval_query, FileTree.present, hstat']
    rfl
  rw [padFile, eval_bind_ok (eval_relative_below hnames hne)]
  rw [join_intercalate hnames hne, eval_bind_ok hpresent]
  simp only [Bool.not_true, Bool.false_eq_true, if_false]
  rw [eval_bind_ok hsize', eval_bind_ok hsize, if_neg (Nat.not_lt.mpr hle)]
  by_cases heq : bytes.length = content.length
  · rw [if_neg (not_not_intro heq)]
    refine ⟨s, rfl, ⟨rfl, forall_mem_singleton.mpr fun bytes' content' protect' hb hc => ?_,
      fun _ _ => rfl, fun _ => rfl⟩, h⟩
    rw [hfile, Option.some.injEq, Node.file.injEq] at hb
    rw [hcontent, Option.some.injEq, Node.file.injEq] at hc
    rw [← hb.1, ← hc.1, filled_eq hpattern heq, hfile]
  · rw [if_pos heq]
    have hlength : (filled filling.pattern bytes content).length = content.length := by
      rw [filled, length_append, length_periodic hpattern]
      omega
    have hwrite : ∀ t : Session, t.tree = s.tree → t.workDir = s.workDir →
        ∃ s', eval (extend (below translated p)
          (periodic filling.pattern (content.length - bytes.length)) content.length) t =
            (.ok (), s') ∧
          Fills filling.pattern src dst [p] s s' ∧ Pads s' raw translated src dst := by
      intro t ht hd
      obtain ⟨s', hrun, hdir, htree⟩ := eval_extend (s := t) (by rwa [ht, hd]) (by rwa [ht])
        (periodic filling.pattern (content.length - bytes.length))
      rw [← filled, hlength] at hrun
      rw [ht, ← filled] at htree
      rw [hd] at hdir
      refine ⟨s', hrun, ⟨hdir, forall_mem_singleton.mpr fun bytes' content' protect' hb hc => ?_,
        fun loc hloc => ?_, fun hsame => ?_⟩,
        h.store hopens hfile hcontent hlength.le hdir htree⟩
      · rw [hfile, Option.some.injEq, Node.file.injEq] at hb
        rw [hcontent, Option.some.injEq, Node.file.injEq] at hc
        rw [htree, hopens.find?_store, if_pos rfl, hb.1, hc.1]
      · rw [htree, hopens.find?_store, if_neg (hloc p (by simp))]
      · exact absurd (hsame p (by simp) bytes content protect hfile hcontent) heq
    have hsay : ∀ line (t : Session), eval (say line) t =
        (.ok (), { t with out := t.out ++ line ++ "\n" }) := fun _ _ => rfl
    rw [eval_bind_ok (hsay _ _), eval_bind_ok (hsay _ _), eval_bind_ok (hsay _ _),
      eval_bind_ok (hsay _ _), eval_bind_ok (eval_fillingFor hpattern _ _)]
    exact hwrite _ rfl rfl

theorem eval_padFiles (hpattern : filling.pattern ≠ []) {ps : List (List String)}
    (h : Pads s raw translated src dst) (hnodup : ps.Nodup)
    (hfiles : ∀ p ∈ ps, ∃ bytes readOnly, s.tree.find? (dst ++ p) = some (.file bytes readOnly)) :
    ∃ s', eval (forM (ps.map (below translated)) (padFile raw translated filling)) s =
        (.ok (), s') ∧
      Fills filling.pattern src dst ps s s' ∧ Pads s' raw translated src dst := by
  induction ps generalizing s with
  | nil => exact ⟨s, rfl, ⟨rfl, by simp, fun _ _ => rfl, fun _ => rfl⟩, h⟩
  | cons p ps ih =>
    rw [nodup_cons] at hnodup
    obtain ⟨bytes, readOnly, hfile⟩ := hfiles p (by simp)
    obtain ⟨s₁, hrun, hfills, h₁⟩ := eval_padFile h hpattern hfile
    have hne : ∀ q ∈ ps, dst ++ q ≠ dst ++ p := by
      intro q hq heq
      exact hnodup.1 (append_cancel_left heq ▸ hq)
    have hdst : ∀ q ∈ ps, s₁.tree.find? (dst ++ q) = s.tree.find? (dst ++ q) :=
      fun q hq => hfills.others _ (by simpa using hne q hq)
    have hsrc : ∀ q, s₁.tree.find? (src ++ q) = s.tree.find? (src ++ q) :=
      fun q => hfills.others _ (by simpa using h.apart.ne q p)
    obtain ⟨s', hrest, hall, h'⟩ := ih h₁ hnodup.2 fun q hq => by
      rw [hdst q hq]
      exact hfiles q (by simp [hq])
    refine ⟨s', ?_, ⟨hall.place.trans hfills.place, ?_, ?_, ?_⟩, h'⟩
    · rw [map_cons, forM_cons, eval_bind_ok hrun, hrest]
    · intro q hq bytes content protect hb hc
      rcases mem_cons.mp hq with rfl | hq
      · rw [hall.others _ fun q' hq' heq => hne q' hq' heq.symm]
        exact hfills.files q (by simp) bytes content protect hb hc
      · rw [← hdst q hq] at hb
        rw [← hsrc q] at hc
        exact hall.files q hq bytes content protect hb hc
    · intro loc hloc
      rw [hall.others loc fun q hq => hloc q (by simp [hq]),
        hfills.others loc (by simpa using hloc p (by simp))]
    · intro hsame
      have hstill := hfills.still (by simpa using hsame p (by simp))
      refine (hall.still fun q hq bytes content protect hb hc => ?_).trans hstill
      rw [hstill] at hb hc
      exact hsame q (by simp [hq]) bytes content protect hb hc

theorem Pads.listed (h : Pads s raw translated src dst) :
    ∃ ps : List (List String), filesBelow s.tree s.workDir translated none =
        ps.map (below translated) ∧ ps.Nodup ∧
      ∀ p, p ∈ ps ↔ ∃ bytes readOnly, s.tree.find? (dst ++ p) = some (.file bytes readOnly) := by
  obtain ⟨hfilled, hshort⟩ := h.texts translated (by simp)
  have hmem := fun path => @mem_filesBelow_regular s.tree s.workDir dst translated path h.proper
    h.there.plain (h.there.stat_self hfilled hshort) h.regular
    fun p n hne hp => (h.spelled p n hne hp).1
  -- The names behind the directory are read off the path.
  let names : String → List String :=
    fun path => (filledParts path).drop (filledParts translated).length
  have hnames : ∀ p node, s.tree.find? (dst ++ p) = some node → names (below translated p) = p := by
    intro p node hp
    have hparts := @filledParts_below translated p fun y hy =>
      h.proper.names_of hp y (mem_append_right _ hy)
    exact (congrArg _ hparts).trans drop_left
  have hmap : filesBelow s.tree s.workDir translated none =
      ((filesBelow s.tree s.workDir translated none).map names).map (below translated) := by
    rw [map_map]
    refine ((map_congr_left fun path hpath => ?_).trans (map_id _)).symm
    obtain ⟨p, bytes, readOnly, -, rfl, hp⟩ := (hmem path).mp hpath
    exact congrArg _ (hnames p _ hp)
  refine ⟨_, hmap, List.Nodup.of_map _ (hmap ▸ nodup_filesBelow h.proper _ _ _), fun p => ?_⟩
  rw [mem_map]
  constructor
  · rintro ⟨path, hpath, rfl⟩
    obtain ⟨p, bytes, readOnly, -, rfl, hp⟩ := (hmem path).mp hpath
    exact ⟨bytes, readOnly, (hnames p _ hp).symm ▸ hp⟩
  · rintro ⟨bytes, readOnly, hp⟩
    refine ⟨_, (hmem _).mpr ⟨p, bytes, readOnly, ?_, rfl, hp⟩, hnames p _ hp⟩
    exact h.file_ne hp

def Spelled (text : String) (bytes : List UInt8) : Prop :=
  (text.toList.filter (· ≠ ' ')).length % 2 = 0 ∧
    Hex.read (text.toList.filter (· ≠ ' ')) = .ok bytes

theorem eval_readPattern {text : String} (h : Spelled text bytes) (s : Session) :
    eval (readPattern text) s = (.ok bytes, s) := by
  rw [readPattern, if_neg (not_not_intro h.1), h.2]
  rfl

inductive Optional : String → Option UInt8 → Prop
  | absent : Optional "" none
  | given {text : String} {b : UInt8} (hfilled : text ≠ "") (h : Spelled text [b]) :
      Optional text (some b)

theorem eval_readFallback {text : String} {fallback : Option UInt8} (h : Optional text fallback)
    (s : Session) : eval (readFallback text) s = (.ok fallback, s) := by
  cases h with
  | absent => rfl
  | given hfilled h =>
    rw [readFallback, if_neg (by simpa using hfilled), eval_bind_ok (eval_readPattern h s)]
    rfl

/-- A command line that asks for files to be filled up. -/
structure Asks (words : List String) (raw translated : String) (filling : Filling) : Prop where
  read : ∃ values text, grammar.read words = .ok values ∧ values.one "raw" "" = some raw ∧
    values.one "translated" "" = some translated ∧ values.one "pattern" "" = some text ∧
    Spelled text filling.pattern ∧ Optional ((values.one? "fallback").getD "") filling.fallback

theorem forM_visits (visits : List Visit) (f : String → Run Unit) :
    (visits.forM fun visit => visit.files.forM fun file => f (join visit.path file)) =
      forM (visits.flatMap Visit.paths) f := by
  induction visits with
  | nil => rfl
  | cons visit visits ih =>
    rw [flatMap_cons, forM_append, ← ih, Visit.paths, forM_map]
    rfl

theorem eval_main {words : List String} (hasks : Asks words raw translated filling)
    (h : Pads s raw translated src dst) :
    eval (main words) s = eval (do
      forM (filesBelow s.tree s.workDir translated none) (padFile raw translated filling)
      say "所有文件处理完成！") s := by
  obtain ⟨values, text, hread, hraw, htranslated, htext, hpattern, hfallback⟩ := hasks.read
  have hdir : ∀ path loc, path ∈ [raw, translated] → s.tree.Leads s.workDir path loc →
      eval (Run.isDirectory path) s = (.ok true, s) := by
    intro path loc hpath hleads
    obtain ⟨hfilled, hshort⟩ := h.texts path hpath
    rw [Run.isDirectory, eval_query, isDirectory_iff.mpr ⟨loc, hleads.stat_self hfilled hshort⟩]
  have hwalk : eval (Run.walk translated) s = (.ok (s.tree.walk s.workDir translated), s) := by
    rw [Run.walk, eval_bind_ok (eval_checkPath h.there.plain s), eval_query]
  have hvalues : eval (arguments (grammar.read words)) s = (.ok values, s) := by
    rw [hread]
    rfl
  have hnamed : ∀ value path, value = some path → eval (pathOf value) s = (.ok path, s) := by
    rintro _ path rfl
    rfl
  rw [main, eval_bind_ok hvalues, eval_bind_ok (hnamed _ _ hraw),
    eval_bind_ok (hdir raw src (by simp) h.here)]
  rw [if_neg (by simp), eval_bind_ok (hnamed _ _ htranslated),
    eval_bind_ok (hdir translated dst (by simp) h.there)]
  rw [if_neg (by simp), htext]
  rw [eval_bind_ok (eval_readPattern hpattern s), eval_bind_ok (eval_readFallback hfallback s),
    eval_bind_ok hwalk, forM_visits, filesBelow_none]
  rfl

/-- Every file of the second directory is filled up to the size of its counterpart with the repeated
pattern, nothing else changes, and a second run changes nothing. -/
theorem main_fills {words : List String} (hasks : Asks words raw translated filling)
    (hpattern : filling.pattern ≠ []) (h : Pads s raw translated src dst) :
    ∃ s', eval (main words) s = (.ok (), s') ∧
      (∀ p bytes readOnly, s.tree.find? (dst ++ p) = some (.file bytes readOnly) →
        ∃ content protect fill, s.tree.find? (src ++ p) = some (.file content protect) ∧
          s'.tree.find? (dst ++ p) = some (.file (bytes ++ fill) false) ∧
          (bytes ++ fill).length = content.length ∧
          ∀ j < fill.length, fill[j]? = filling.pattern[j % filling.pattern.length]?) ∧
      (∀ loc, (∀ p bytes readOnly, loc = dst ++ p →
          s.tree.find? loc ≠ some (.file bytes readOnly)) →
        s'.tree.find? loc = s.tree.find? loc) ∧
      ∃ s'', eval (main words) s' = (.ok (), s'') ∧ s''.tree = s'.tree := by
  -- A run from any such session.
  have hrun : ∀ t : Session, Pads t raw translated src dst → ∃ ps t', eval (main words) t =
      (.ok (), t') ∧ Fills filling.pattern src dst ps t t' ∧ Pads t' raw translated src dst ∧
      ∀ p, p ∈ ps ↔ ∃ bytes readOnly, t.tree.find? (dst ++ p) = some (.file bytes readOnly) := by
    intro t ht
    obtain ⟨ps, hlist, hnodup, hps⟩ := ht.listed
    obtain ⟨t', hpad, hfills, ht'⟩ := eval_padFiles hpattern ht hnodup fun p hp => (hps p).mp hp
    refine ⟨ps, { t' with out := t'.out ++ "所有文件处理完成！" ++ "\n" }, ?_,
      ⟨hfills.place, hfills.files, hfills.others, hfills.still⟩, ⟨ht'.proper, ht'.here, ht'.there,
        ht'.texts, ht'.apart, ht'.regular, ht'.spelled, ht'.counterpart⟩, hps⟩
    rw [eval_main hasks ht, hlist, eval_bind_ok hpad]
    rfl
  obtain ⟨ps, s', hmain, hfills, h', hps⟩ := hrun s h
  have hfilled : ∀ p bytes readOnly, s.tree.find? (dst ++ p) = some (.file bytes readOnly) →
      ∃ content protect, s.tree.find? (src ++ p) = some (.file content protect) ∧
        s'.tree.find? (dst ++ p) = some (.file (filled filling.pattern bytes content) false) ∧
        (filled filling.pattern bytes content).length = content.length := by
    intro p bytes readOnly hfile
    obtain ⟨rfl, content, protect, hcontent, hle⟩ := h.counterpart p bytes readOnly hfile
    refine ⟨content, protect, hcontent,
      hfills.files p ((hps p).mpr ⟨bytes, false, hfile⟩) bytes content protect hfile hcontent, ?_⟩
    rw [filled, length_append, length_periodic hpattern]
    omega
  refine ⟨s', hmain, fun p bytes readOnly hfile => ?_, fun loc hloc => ?_, ?_⟩
  · obtain ⟨content, protect, hcontent, hnew, hlength⟩ := hfilled p bytes readOnly hfile
    refine ⟨content, protect, _, hcontent, hnew, hlength, fun j hj => ?_⟩
    rw [length_periodic hpattern] at hj
    exact getElem?_periodic hpattern hj
  · refine hfills.others loc fun p hp heq => ?_
    obtain ⟨bytes, readOnly, hfile⟩ := (hps p).mp hp
    exact hloc p bytes readOnly heq (heq ▸ hfile)
  · obtain ⟨qs, s'', hagain, hfills', -, hqs⟩ := hrun s' h'
    refine ⟨s'', hagain, hfills'.still fun p hp bytes' content' protect' hb hc => ?_⟩
    have hsrc : s'.tree.find? (src ++ p) = s.tree.find? (src ++ p) :=
      hfills.others _ fun q _ => h.apart.ne p q
    by_cases hp : p ∈ ps
    · obtain ⟨bytes, readOnly, hfile⟩ := (hps p).mp hp
      obtain ⟨content, protect, hcontent, hnew, hlength⟩ := hfilled p bytes readOnly hfile
      rw [hnew, Option.some.injEq, Node.file.injEq] at hb
      rw [hsrc, hcontent, Option.some.injEq, Node.file.injEq] at hc
      rw [← hb.1, ← hc.1, hlength]
    · rw [hfills.others _ fun q hq heq => hp ((append_cancel_left heq : p = q) ▸ hq)] at hb
      exact absurd ((hps p).mpr ⟨bytes', false, hb⟩) hp

def thinShelf : Session where
  tree := ⟨[(["r"], .directory), (["r", "a"], .file [1, 2, 3, 4] true), (["r", "d"], .directory),
    (["r", "d", "b"], .file [5, 6] false), (["t"], .directory), (["t", "a"], .file [9] false),
    (["t", "d"], .directory), (["t", "d", "b"], .file [7, 8] false)]⟩
  workDir := []

theorem pads_thinShelf : Pads thinShelf "r" "t" ["r"] ["t"] where
  proper := ⟨sound_of_entries (by decide +kernel), by decide +kernel⟩
  here := .of_stat (by decide) rfl
  there := .of_stat (by decide) rfl
  texts := by decide
  apart := ⟨by decide, by decide⟩
  regular := plain_of_entries (by decide) _
  spelled := spellable_of_entries (by decide +kernel)
  counterpart := by
    intro p bytes readOnly hfile
    have hmem := mem_entries (by simp) hfile
    simp [thinShelf] at hmem
    rcases hmem with ⟨rfl, rfl, rfl⟩ | ⟨rfl, rfl, rfl⟩
    · exact ⟨rfl, [1, 2, 3, 4], true, rfl, by decide⟩
    · exact ⟨rfl, [5, 6], false, rfl, by decide⟩

theorem main_fills_thinShelf : ∃ s', eval (main ["r", "t", "0a 0b"]) thinShelf = (.ok (), s') ∧
    s'.tree.find? ["t", "a"] = some (.file [9, 10, 11, 10] false) := by
  have hasks : Asks ["r", "t", "0a 0b"] "r" "t" ⟨[10, 11], none⟩ :=
    ⟨_, _, rfl, rfl, rfl, rfl, ⟨by decide, rfl⟩, .absent⟩
  obtain ⟨s', hrun, hfiles, -⟩ := main_fills hasks (by decide) pads_thinShelf
  obtain ⟨content, protect, fill, hcontent, hnew, hlength, hfill⟩ := hfiles ["a"] [9] false rfl
  cases hcontent
  obtain ⟨a, b, c, rfl⟩ := length_eq_three.mp (by simpa using hlength : fill.length = 3)
  have ha := hfill 0 (by simp)
  have hb := hfill 1 (by simp)
  have hc := hfill 2 (by simp)
  simp at ha hb hc
  exact ⟨s', hrun, by rw [ha, hb, hc] at hnew; exact hnew⟩

end SceneText.PaddingTool
