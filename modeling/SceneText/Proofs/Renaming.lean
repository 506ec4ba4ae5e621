import Mathlib.Data.List.Nodup
import SceneText.Proofs.TemporaryNames

/-!
# Renaming at once

Files of a directory get new names, and some of these names still belong to other files among them.
Files that are in the way are put aside first, then the rest get their new names, and at last those
that were put aside. At every step it is known where each file is, and the name that is given next
is free; in the end it is as if all files had got their names at the same moment.
-/

namespace SceneText.RenamingTool

open Run FileTree List SceneText.Path
open Option (getD_none getD_some)

variable {x y a : String} {p : String × String}

def entry (dir : Location) (x : String) : String :=
  join (rootedPath dir) x

theorem entry_inj {dir : Location} (hx : IsName x) (hy : IsName y) :
    entry dir x = entry dir y ↔ x = y := by
  rw [entry, entry, join_name hx, join_name hy, String.append_right_inj]

structure Plan (s : Session) (dir : Location) (files : List (String × String)) : Prop where
  shelf : s.tree.Shelf dir (files.map Prod.fst)
  sources : (files.map Prod.fst).Nodup
  targets : (files.map Prod.snd).Nodup
  fits : ∀ p ∈ files, Fits (rootedPath dir) p.1 ∧ Fits (rootedPath dir) p.2
  free : ∀ p ∈ files, p.2 ∉ files.map Prod.fst → s.tree.find? (dir ++ [p.2]) = none
  lasting : ∀ p ∈ files, ¬IsTemporary p.2
  root : dir ≠ []
  room : (rootedPath dir).utf8ByteSize + 45 < pathLimit

structure Stage (s₀ s : Session) (dir : Location) (files : List String) (pos : String → String) :
    Prop where
  tracks : Tracks s₀.tree s.tree dir files pos
  fits : ∀ a ∈ files, Fits (rootedPath dir) (pos a)
  place : s.workDir = s₀.workDir
  out : s.out = s₀.out

section

variable {s₀ s : Session} {dir : Location} {files held : List (String × String)}
  {pos : String → String}

variable (plan : Plan s₀ dir files)
include plan

theorem Plan.start :
    Stage s₀ s₀ dir (files.map Prod.fst) fun a => a := by
  refine ⟨plan.shelf.tracks_refl, fun a ha => ?_, rfl, rfl⟩
  obtain ⟨p, hp, rfl⟩ := mem_map.mp ha
  exact (plan.fits p hp).1

namespace Stage

variable (h : Stage s₀ s dir (files.map Prod.fst) pos)
include h

theorem leads : s.tree.Leads s.workDir (rootedPath dir) dir := by
  exact (plan.shelf.sound.leads_rootedPath _ plan.shelf.directory).extend
    (h.tracks.toExtends plan.shelf)

theorem eval_occupied (hx : Fits (rootedPath dir) x) :
    eval (occupied (entry dir x)) s = (.ok (s.tree.find? (dir ++ [x])).isSome, s) :=
  Run.eval_occupied (h.leads plan) hx (h.tracks.linkFree plan.shelf)

theorem eval_resolve (hx : Fits (rootedPath dir) x) :
    eval (resolve (entry dir x)) s = (.ok (dir ++ [x]), s) := by
  have hleads := h.leads plan
  have hresolve := (h.tracks.sound plan.shelf).resolve_join s.workDir hleads.directory hx
    (h.tracks.linkFree plan.shelf x)
  have hcheck : eval (checkPath (entry dir x)) s = (.ok (), s) :=
    eval_checkPath (plain_join hx.name hleads.plain) s
  rw [resolve, eval_bind_ok hcheck, eval_bind, eval_query]
  dsimp only [entry]
  rw [hresolve]
  rfl

theorem eval_leadsElsewhere (hx : Fits (rootedPath dir) x)
    (hy : Fits (rootedPath dir) y) :
    eval (leadsElsewhere ⟨entry dir x, entry dir y⟩) s = (.ok (decide (x ≠ y)), s) := by
  rw [leadsElsewhere, eval_bind_ok (h.eval_resolve plan hx), eval_bind_ok (h.eval_resolve plan hy),
    eval_pure]
  simp

theorem rename (ha : a ∈ files.map Prod.fst)
    (hy : Fits (rootedPath dir) y) (hfree : s.tree.find? (dir ++ [y]) = none) :
    ∃ s', eval (Run.rename (entry dir (pos a)) (entry dir y)) s = (.ok (), s') ∧
      Stage s₀ s' dir (files.map Prod.fst) (fun b => if b = a then y else pos b) ∧
      s'.tickets = s.tickets := by
  obtain ⟨bytes, readOnly, hfile⟩ := h.tracks.file plan.shelf ha
  refine ⟨_, eval_rename (h.leads plan) (h.fits a ha) hy hfile hfree, ?_, rfl⟩
  refine ⟨h.tracks.move plan.shelf ha hfree hy.name, fun b hb => ?_, h.place, h.out⟩
  by_cases hba : b = a
  · rwa [if_pos hba]
  · rw [if_neg hba]
    exact h.fits b hb

end Stage

def renamingOf (dir : Location) (p : String × String) : Renaming :=
  ⟨entry dir p.1, entry dir p.2⟩

def movedPaths (dir : Location) (held : List (String × String)) : List (String × String) :=
  held.map fun p => (entry dir p.1, entry dir p.2)

structure Aside (files held : List (String × String)) : Prop where
  sources : ∀ e ∈ held, e.1 ∈ files.map Prod.fst
  temporary : ∀ e ∈ held, IsTemporary e.2
  once : (held.map Prod.fst).Nodup

def posOf (held : List (String × String)) (a : String) : String :=
  (held.lookup a).getD a

theorem Plan.isName (ha : a ∈ files.map Prod.fst) : IsName a := by
  obtain ⟨p, hp, rfl⟩ := mem_map.mp ha
  exact (plan.fits p hp).1.name

theorem Plan.lookup_movedPaths (hheld : Aside files held) (hx : IsName x) :
    (movedPaths dir held).lookup (entry dir x) = (held.lookup x).map (entry dir) :=
  lookup_map (entry dir) (entry dir) fun e he =>
    entry_inj (plan.isName (hheld.sources e he)) hx

theorem Plan.contains_entry (hx : IsName x) :
    ((files.map Prod.fst).map (entry dir)).contains (entry dir x) =
      decide (x ∈ files.map Prod.fst) := by
  rw [contains_eq_mem, decide_eq_decide, mem_map]
  constructor
  · rintro ⟨a, ha, heq⟩
    rwa [← (entry_inj (plan.isName ha) hx).mp heq]
  · exact fun hmem => ⟨x, hmem, rfl⟩

omit plan in
theorem posOf_concat (ha : held.lookup a = none) :
    posOf (held ++ [(a, y)]) = fun b => if b = a then y else posOf held b := by
  funext b
  rw [posOf, lookup_append]
  by_cases hb : b = a
  · rw [hb, ha, if_pos rfl]
    simp
  · rw [if_neg hb, lookup_cons_ne hb]
    simp [posOf]

omit plan in
theorem Aside.concat (h : Aside files held) (ha : a ∈ files.map Prod.fst)
    (hnew : held.lookup a = none) (hy : IsTemporary y) : Aside files (held ++ [(a, y)]) := by
  have hkeys : ∀ e ∈ held, e.1 ≠ a := by
    intro e he heq
    rw [lookup_eq_none_iff] at hnew
    exact absurd (hnew e he) (by simp [heq])
  refine ⟨?_, ?_, ?_⟩
  · exact forall_mem_append.mpr ⟨h.sources, forall_mem_singleton.mpr ha⟩
  · exact forall_mem_append.mpr ⟨h.temporary, forall_mem_singleton.mpr hy⟩
  · rw [map_append, nodup_append]
    refine ⟨h.once, by simp, ?_⟩
    rintro k hk k' hk' rfl
    obtain ⟨e, he, rfl⟩ := mem_map.mp hk
    exact hkeys e he (by simpa using hk')

theorem Stage.eval_temporaryPath (h : Stage s₀ s dir (files.map Prod.fst) pos)
    (hsupply : s.tickets + (s₀.tree.entries.length + 1) < 16 ^ 32) :
    ∃ n, n ≤ s.tickets + (s₀.tree.entries.length + 1) ∧ IsTemporary (temporary n) ∧
      s.tree.find? (dir ++ [temporary n]) = none ∧
      eval (temporaryPath (rootedPath dir) s.tree.entries.length) s =
        (.ok (entry dir (temporary n)), { s with tickets := n }) := by
  have hleads := h.leads plan
  have hsize := h.tracks.size
  obtain ⟨n, -, hhigh, heval, hall⟩ := RenamingTool.eval_temporaryPath s.tree.entries.length hleads
    (h.tracks.linkFree plan.shelf) plan.room (by omega)
  refine ⟨n, by omega, isTemporary_temporary (by omega), ?_, heval⟩
  obtain ⟨m, hlow, hm, hfree⟩ := exists_free plan.root hleads.directory s.tickets
  by_contra htaken
  exact hall htaken m hlow hm hfree

def InTheWay (files held : List (String × String)) (p : String × String) : Prop :=
  p.2 ∈ files.map Prod.fst ∧ held.lookup p.2 = none ∧ p.2 ≠ p.1

theorem inTheWay_iff (hheld : Aside files held) (hp : p ∈ files) :
    (((files.map Prod.fst).map (entry dir)).contains (renamingOf dir p).target &&
      ((movedPaths dir held).lookup (renamingOf dir p).target).isNone &&
      decide ((renamingOf dir p).target ≠ (renamingOf dir p).source)) = true ↔
        InTheWay files held p := by
  have hname := (plan.fits p hp).2.name
  rw [renamingOf, plan.contains_entry hname, plan.lookup_movedPaths hheld hname]
  simp only [Bool.and_eq_true, decide_eq_true_eq, Option.isNone_map, Option.isNone_iff_eq_none, Ne,
    entry_inj hname (plan.fits p hp).1.name, InTheWay, and_assoc]

theorem eval_makeRoom_moves (hheld : Aside files held)
    (h : Stage s₀ s dir (files.map Prod.fst) (posOf held)) (hp : p ∈ files)
    (hway : InTheWay files held p) (rest : List Renaming)
    (hsupply : s.tickets + (s₀.tree.entries.length + 1) < 16 ^ 32) :
    ∃ y s', IsTemporary y ∧ s'.tickets ≤ s.tickets + (s₀.tree.entries.length + 1) ∧
      Stage s₀ s' dir (files.map Prod.fst) (posOf (held ++ [(p.2, y)])) ∧
      eval (makeRoom (rootedPath dir) ((files.map Prod.fst).map (entry dir))
          (movedPaths dir held) (renamingOf dir p :: rest)) s =
        eval (makeRoom (rootedPath dir) ((files.map Prod.fst).map (entry dir))
          (movedPaths dir (held ++ [(p.2, y)])) rest) s' := by
  have hcond := (inTheWay_iff plan hheld hp).mpr hway
  obtain ⟨hmem, hnew, -⟩ := hway
  obtain ⟨n, hn, htemporary, hfree, hpath⟩ := h.eval_temporaryPath plan hsupply
  have hstage : Stage s₀ { s with tickets := n } dir (files.map Prod.fst) (posOf held) :=
    ⟨h.tracks, h.fits, h.place, h.out⟩
  obtain ⟨s', hrename, hstage', htickets⟩ :=
    hstage.rename plan hmem (htemporary.fits plan.room) hfree
  have hpos : posOf held p.2 = p.2 := by rw [posOf, hnew, getD_none]
  rw [hpos] at hrename
  change eval (Run.rename (renamingOf dir p).target (entry dir (temporary n))) _ = _ at hrename
  refine ⟨temporary n, s', htemporary, by rw [htickets]; exact hn, ?_, ?_⟩
  · rwa [posOf_concat hnew]
  · have hget : eval (get : Run Session) s = (.ok s, s) := rfl
    rw [makeRoom, if_pos hcond, eval_bind_ok hget, eval_bind_ok hpath, eval_bind_ok hrename,
      movedPaths, movedPaths, map_append]
    rfl

theorem eval_makeRoom (rest : List (String × String))
    (hrest : ∀ p ∈ rest, p ∈ files) (hheld : Aside files held)
    (h : Stage s₀ s dir (files.map Prod.fst) (posOf held))
    (hsupply : s.tickets + rest.length * (s₀.tree.entries.length + 1) < 16 ^ 32) :
    ∃ held' s', eval (makeRoom (rootedPath dir) ((files.map Prod.fst).map (entry dir))
          (movedPaths dir held) (rest.map (renamingOf dir))) s = (.ok (movedPaths dir held'), s') ∧
      Aside files held' ∧ Stage s₀ s' dir (files.map Prod.fst) (posOf held') ∧
      (∀ a, held.lookup a ≠ none → held'.lookup a ≠ none) ∧
      ∀ p ∈ rest, ¬InTheWay files held' p := by
  induction rest generalizing held s with
  | nil => exact ⟨held, s, rfl, hheld, h, fun _ ha => ha, by simp⟩
  | cons p rest ih =>
    have hp : p ∈ files := hrest p (by simp)
    have hrest' : ∀ q ∈ rest, q ∈ files := fun q hq => hrest q (by simp [hq])
    rw [length_cons, Nat.add_mul, Nat.one_mul] at hsupply
    rw [map_cons]
    by_cases hway : InTheWay files held p
    · obtain ⟨y, s₁, htemporary, htickets, hstage, heval⟩ :=
        eval_makeRoom_moves plan hheld h hp hway (rest.map (renamingOf dir)) (by omega)
      obtain ⟨held', s', hrun, haside, hstage', hmore, hdone⟩ :=
        ih hrest' (hheld.concat hway.1 hway.2.1 htemporary) hstage (by omega)
      refine ⟨held', s', heval.trans hrun, haside, hstage', fun a ha => hmore a ?_, ?_⟩
      · rw [lookup_append]
        simp [ha]
      · intro q hq
        rcases mem_cons.mp hq with rfl | hq
        · refine fun hway' => hmore q.2 ?_ hway'.2.1
          simp
        · exact hdone q hq
    · rw [makeRoom, if_neg (mt (inTheWay_iff plan hheld hp).mp hway)]
      obtain ⟨held', s', hrun, haside, hstage', hmore, hdone⟩ := ih hrest' hheld h (by omega)
      refine ⟨held', s', hrun, haside, hstage', hmore, ?_⟩
      intro q hq
      rcases mem_cons.mp hq with rfl | hq
      · refine fun hway' => hway ⟨hway'.1, ?_, hway'.2.2⟩
        by_contra hthere
        exact hmore q.2 hthere hway'.2.1
      · exact hdone q hq

def whereabouts (files held : List (String × String)) (done : List String) (a : String) : String :=
  if a ∈ done then (files.lookup a).getD a else posOf held a

structure Cleared (files held : List (String × String)) : Prop extends Aside files held where
  clear : ∀ p ∈ files, ¬InTheWay files held p

abbrev Underway (s₀ s : Session) (dir : Location) (files held : List (String × String))
    (done : List String) : Prop :=
  Stage s₀ s dir (files.map Prod.fst) (whereabouts files held done)

variable {done : List String}

theorem whereabouts_done (hp : p ∈ files) (hdone : p.1 ∈ done) :
    whereabouts files held done p.1 = p.2 := by
  rw [whereabouts, if_pos hdone, lookup_of_mem plan.sources hp, getD_some]

theorem whereabouts_cons (hp : p ∈ files) :
    whereabouts files held (p.1 :: done) =
      fun b => if b = p.1 then p.2 else whereabouts files held done b := by
  funext b
  by_cases hb : b = p.1
  · rw [if_pos hb, hb, whereabouts_done plan hp mem_cons_self]
  · simp [whereabouts, hb]

theorem Cleared.apart (hheld : Cleared files held) (hp : p ∈ files)
    (hnot : p.1 ∉ done) (hne : posOf held p.1 ≠ p.2) :
    ∀ b ∈ files.map Prod.fst, whereabouts files held done b ≠ p.2 := by
  intro b hb heq
  obtain ⟨q, hq, rfl⟩ := mem_map.mp hb
  by_cases hdone : q.1 ∈ done
  · rw [whereabouts_done plan hq hdone] at heq
    exact hnot (inj_on_of_nodup_map plan.targets hq hp heq ▸ hdone)
  · rw [whereabouts, if_neg hdone, posOf] at heq
    cases hlookup : held.lookup q.1 with
    | some y =>
      rw [hlookup, getD_some] at heq
      obtain ⟨front, back, hsplit, -⟩ := lookup_eq_some_iff.mp hlookup
      have hmem : (q.1, y) ∈ held := by simp [hsplit]
      exact plan.lasting p hp (heq ▸ hheld.temporary _ hmem)
    | none =>
      rw [hlookup, getD_none] at heq
      by_cases hsame : q.1 = p.1
      · rw [posOf, ← hsame, hlookup, getD_none] at hne
        exact hne heq
      · exact hheld.clear p hp ⟨heq ▸ hb, heq ▸ hlookup, fun h => hsame (heq.trans h)⟩

theorem Stage.arrive (hheld : Cleared files held)
    (h : Underway s₀ s dir files held done) (hp : p ∈ files)
    (hnot : p.1 ∉ done) (hne : posOf held p.1 ≠ p.2) :
    s.tree.find? (dir ++ [p.2]) = none ∧
      ∃ s', eval (Run.rename (entry dir (posOf held p.1)) (entry dir p.2)) s = (.ok (), s') ∧
        Underway s₀ s' dir files held (p.1 :: done) := by
  have hfree := h.tracks.free (hheld.apart plan hp hnot hne) (plan.free p hp)
  have hpos : whereabouts files held done p.1 = posOf held p.1 := if_neg hnot
  obtain ⟨s', hrename, hstage, -⟩ := h.rename plan (mem_map_of_mem hp) (plan.fits p hp).2 hfree
  rw [hpos] at hrename
  rw [← whereabouts_cons plan hp] at hstage
  exact ⟨hfree, s', hrename, hstage⟩

theorem eval_renameOne (hheld : Cleared files held)
    (h : Underway s₀ s dir files held done) (hp : p ∈ files)
    (hnot : p.1 ∉ done) (hthere : held.lookup p.1 = none) :
    ∃ s', eval (renameOne (movedPaths dir held) (renamingOf dir p)) s = (.ok (), s') ∧
      Underway s₀ s' dir files held (p.1 :: done) := by
  have hfits := plan.fits p hp
  have hpos : posOf held p.1 = p.1 := by rw [posOf, hthere, getD_none]
  have hcond : ((movedPaths dir held).lookup (renamingOf dir p).source).isNone = true := by
    rw [renamingOf, plan.lookup_movedPaths hheld.toAside hfits.1.name, hthere]
    rfl
  rw [renameOne, if_pos hcond, renamingOf,
    eval_bind_ok (h.eval_leadsElsewhere plan hfits.1 hfits.2)]
  by_cases hsame : p.1 = p.2
  · -- The file keeps its name and has its new name already.
    refine ⟨s, by simp [hsame, eval_pure], ?_⟩
    have hstay : whereabouts files held (p.1 :: done) = whereabouts files held done := by
      rw [whereabouts_cons plan hp]
      funext b
      split
      · next hb => rw [hb, whereabouts, if_neg hnot, hpos, hsame]
      · rfl
    rwa [Underway, hstay]
  · obtain ⟨-, s', hrename, hstage⟩ := h.arrive plan hheld hp hnot (by rwa [hpos])
    rw [hpos] at hrename
    refine ⟨s', ?_, hstage⟩
    rw [if_pos (by simpa using hsame)]
    exact hrename

omit plan in
theorem eval_forM_arrive {α : Type} {f : String × String → α} {act : α → Run Unit}
    {moves : String → Prop} (rest : List (String × String)) (hnodup : (rest.map Prod.fst).Nodup)
    (hnot : ∀ p ∈ rest, p.1 ∉ done)
    (hact : ∀ p ∈ rest, ∀ done s, p.1 ∉ done →
      Underway s₀ s dir files held done →
      ∃ done' s', eval (act (f p)) s = (.ok (), s') ∧
        Underway s₀ s' dir files held done' ∧
        ∀ a, a ∈ done' ↔ a ∈ done ∨ a = p.1 ∧ moves a)
    (h : Underway s₀ s dir files held done) :
    ∃ done' s', eval ((rest.map f).forM act) s = (.ok (), s') ∧
      Underway s₀ s' dir files held done' ∧
      ∀ a, a ∈ done' ↔ a ∈ done ∨ a ∈ rest.map Prod.fst ∧ moves a := by
  induction rest generalizing done s with
  | nil => exact ⟨done, s, rfl, h, by simp⟩
  | cons p rest ih =>
    rw [map_cons, nodup_cons] at hnodup
    obtain ⟨done₁, s₁, hone, hstage, hmem⟩ := hact p (by simp) done s (hnot p (by simp)) h
    have hnext : ∀ q ∈ rest, q.1 ∉ done₁ := by
      intro q hq hdone
      rcases (hmem q.1).mp hdone with hdone | ⟨heq, -⟩
      · exact hnot q (by simp [hq]) hdone
      · exact hnodup.1 (heq ▸ mem_map_of_mem hq)
    obtain ⟨done', s', hrun, hstage', hmem'⟩ :=
      ih hnodup.2 hnext (fun q hq => hact q (by simp [hq])) hstage
    refine ⟨done', s', (eval_bind_ok hone _).trans hrun, hstage', fun a => ?_⟩
    rw [hmem', hmem, map_cons, mem_cons, or_and_right, or_assoc]

theorem eval_renameRest (hheld : Cleared files held)
    (h : Underway s₀ s dir files held []) :
    ∃ done s', eval ((files.map (renamingOf dir)).forM (renameOne (movedPaths dir held))) s =
        (.ok (), s') ∧
      Underway s₀ s' dir files held done ∧
      ∀ a, a ∈ done ↔ a ∈ [] ∨ a ∈ files.map Prod.fst ∧ held.lookup a = none := by
  refine eval_forM_arrive files plan.sources (by simp) (fun p hp done s hnot hstage => ?_) h
  cases hthere : held.lookup p.1 with
  | none =>
    obtain ⟨s', hone, hstage'⟩ := eval_renameOne plan hheld hstage hp hnot hthere
    refine ⟨_, s', hone, hstage', fun a => ?_⟩
    by_cases ha : a = p.1 <;> simp [ha, hthere]
  | some y =>
    refine ⟨done, s, ?_, hstage, fun a => ?_⟩
    · rw [renameOne, renamingOf, plan.lookup_movedPaths hheld.toAside (plan.fits p hp).1.name,
        hthere]
      rfl
    · by_cases ha : a = p.1 <;> simp [ha, hthere]

theorem Plan.find_renaming (hp : p ∈ files) :
    (files.map (renamingOf dir)).find? (fun r => r.source = entry dir p.1) =
      some (renamingOf dir p) := by
  have hname := (plan.fits p hp).1.name
  cases hfind : (files.map (renamingOf dir)).find? (fun r => r.source = entry dir p.1) with
  | none =>
    have hnone := find?_eq_none.mp hfind _ (mem_map_of_mem hp)
    exact absurd (decide_eq_true rfl) hnone
  | some r =>
    have hsource : r.source = entry dir p.1 := by simpa using find?_some hfind
    obtain ⟨q, hq, rfl⟩ := mem_map.mp (mem_of_find?_eq_some hfind)
    have heq : q.1 = p.1 := (entry_inj (plan.fits q hq).1.name hname).mp hsource
    rw [inj_on_of_nodup_map plan.sources hq hp heq]

theorem eval_finish (hheld : Cleared files held)
    (h : Underway s₀ s dir files held done) {e : String × String}
    (he : e ∈ held) (hnot : e.1 ∉ done) :
    ∃ s', eval (finish (files.map (renamingOf dir)) (entry dir e.1, entry dir e.2)) s =
        (.ok (), s') ∧
      Underway s₀ s' dir files held (e.1 :: done) := by
  obtain ⟨p, hp, hsource⟩ := mem_map.mp (hheld.sources e he)
  rw [← hsource] at hnot ⊢
  have hpos : posOf held p.1 = e.2 := by
    rw [posOf, hsource, lookup_of_mem hheld.once he, getD_some]
  have hne : posOf held p.1 ≠ p.2 := by
    rw [hpos]
    exact fun heq => plan.lasting p hp (heq ▸ hheld.temporary e he)
  obtain ⟨hfree, s', hrename, hstage⟩ := h.arrive plan hheld hp hnot hne
  rw [hpos] at hrename
  have htaken := h.eval_occupied plan (plan.fits p hp).2
  rw [hfree] at htaken
  refine ⟨s', ?_, hstage⟩
  rw [finish, plan.find_renaming hp]
  dsimp only [renamingOf]
  rw [eval_bind_ok htaken]
  exact hrename

theorem eval_finishRest (hheld : Cleared files held) (hnot : ∀ e ∈ held, e.1 ∉ done)
    (h : Underway s₀ s dir files held done) :
    ∃ done' s', eval ((movedPaths dir held).forM (finish (files.map (renamingOf dir)))) s =
        (.ok (), s') ∧
      Underway s₀ s' dir files held done' ∧
      ∀ a, a ∈ done' ↔ a ∈ done ∨ a ∈ held.map Prod.fst ∧ True := by
  refine eval_forM_arrive held hheld.once hnot (fun e he done s hnot hstage => ?_) h
  obtain ⟨s', hone, hstage'⟩ := eval_finish plan hheld hstage he hnot
  exact ⟨_, s', hone, hstage', fun a => by rw [mem_cons, and_true, or_comm]⟩

/-- Every file has its new name, a name that no file got is no longer there, and everything else is
as before. -/
structure Renamed (old new : FileTree) (dir : Location) (files : List (String × String)) :
    Prop where
  given : ∀ p ∈ files, new.find? (dir ++ [p.2]) = old.find? (dir ++ [p.1])
  gone : ∀ p ∈ files, p.1 ∉ files.map Prod.snd → new.find? (dir ++ [p.1]) = none
  others : ∀ l, (∀ p ∈ files, l ≠ dir ++ [p.1] ∧ l ≠ dir ++ [p.2]) → new.find? l = old.find? l

theorem Stage.renamed
    (h : Underway s₀ s dir files held done)
    (hdone : ∀ p ∈ files, p.1 ∈ done) : Renamed s₀.tree s.tree dir files := by
  have hpos : ∀ p ∈ files, whereabouts files held done p.1 = p.2 :=
    fun p hp => whereabouts_done plan hp (hdone p hp)
  refine ⟨fun p hp => ?_, fun p hp hleft => ?_, fun l hl => ?_⟩
  · rw [← hpos p hp]
    exact h.tracks.held p.1 (mem_map_of_mem hp)
  · refine h.tracks.left p.1 (mem_map_of_mem hp) fun b hb heq => hleft ?_
    obtain ⟨q, hq, rfl⟩ := mem_map.mp hb
    rw [hpos q hq] at heq
    exact heq ▸ mem_map_of_mem hq
  · refine h.tracks.others l fun b hb => ?_
    obtain ⟨q, hq, rfl⟩ := mem_map.mp hb
    rw [hpos q hq]
    exact hl q hq

omit plan in
theorem eval_filterM {α : Type} {f : α → Run Bool} {keep : α → Bool} {s : Session} (xs : List α)
    (h : ∀ x ∈ xs, eval (f x) s = (.ok (keep x), s)) :
    eval (xs.filterM f) s = (.ok (xs.filter keep), s) := by
  have haux : ∀ (xs acc : List α), (∀ x ∈ xs, eval (f x) s = (.ok (keep x), s)) →
      eval (xs.filterAuxM f acc) s = (.ok ((xs.filter keep).reverse ++ acc), s) := by
    intro xs
    induction xs with
    | nil => exact fun acc _ => rfl
    | cons x xs ih =>
      intro acc h
      rw [List.filterAuxM, eval_bind_ok (h x (by simp)), ih _ fun y hy => h y (by simp [hy])]
      cases hx : keep x with
      | true => simp [hx]
      | false => simp [hx]
  rw [List.filterM, eval_bind_ok (haux xs [] h), eval_pure]
  simp

theorem Plan.eval_needed :
    eval ((files.map (renamingOf dir)).filterM leadsElsewhere) s₀ =
      (.ok ((files.filter fun p => decide (p.1 ≠ p.2)).map (renamingOf dir)), s₀) := by
  have hsame : ∀ p ∈ files, decide ((renamingOf dir p).source ≠ (renamingOf dir p).target) =
      decide (p.1 ≠ p.2) := by
    intro p hp
    rw [decide_eq_decide]
    exact not_congr (entry_inj (plan.fits p hp).1.name (plan.fits p hp).2.name)
  have hfilter := @eval_filterM _ leadsElsewhere (fun r => decide (r.source ≠ r.target)) s₀
    (files.map (renamingOf dir)) (by
      intro r hr
      obtain ⟨p, hp, rfl⟩ := mem_map.mp hr
      rw [hsame p hp]
      exact plan.start.eval_leadsElsewhere plan (plan.fits p hp).1 (plan.fits p hp).2)
  rw [hfilter, filter_map]
  exact congrArg (fun kept : List (String × String) => (Except.ok (kept.map (renamingOf dir)), s₀))
    (filter_congr hsame)

theorem eval_carryOut
    (hsupply : s₀.tickets + files.length * (s₀.tree.entries.length + 1) < 16 ^ 32) :
    ∃ s', eval (carryOut (rootedPath dir) ((files.map Prod.fst).map (entry dir))
          (files.map (renamingOf dir))) s₀ = (.ok (), s') ∧
      s'.out = s₀.out ++ "OK\n" ∧ Renamed s₀.tree s'.tree dir files := by
  let needed := files.filter fun p => decide (p.1 ≠ p.2)
  have hsub : ∀ p ∈ needed, p ∈ files := fun p hp => (mem_filter.mp hp).1
  have hsupply' : s₀.tickets + needed.length * (s₀.tree.entries.length + 1) < 16 ^ 32 := by
    have hless : needed.length ≤ files.length := length_filter_le _ _
    have hmul := Nat.mul_le_mul_right (s₀.tree.entries.length + 1) hless
    omega
  obtain ⟨held, s₁, hroom, haside, hstage₁, -, hclear⟩ :=
    @eval_makeRoom s₀ s₀ dir files [] plan needed hsub ⟨by simp, by simp, by simp⟩ plan.start
      hsupply'
  have hheld : Cleared files held := by
    refine ⟨haside, fun p hp hway => hclear p ?_ hway⟩
    exact mem_filter.mpr ⟨hp, by simpa using Ne.symm hway.2.2⟩
  obtain ⟨done₂, s₂, hrest, hstage₂, hmem₂⟩ := eval_renameRest plan hheld hstage₁
  have hwait : ∀ e ∈ held, e.1 ∉ done₂ := by
    intro e he hdone
    have hnone := (((hmem₂ e.1).mp hdone).resolve_left not_mem_nil).2
    rw [lookup_of_mem hheld.once he] at hnone
    cases hnone
  obtain ⟨done₃, s₃, hfinish, hstage₃, hmem₃⟩ := eval_finishRest plan hheld hwait hstage₂
  have hall : ∀ p ∈ files, p.1 ∈ done₃ := by
    intro p hp
    rw [hmem₃, hmem₂]
    cases hlookup : held.lookup p.1 with
    | none => exact .inl (.inr ⟨mem_map_of_mem hp, rfl⟩)
    | some y =>
      obtain ⟨front, back, hsplit, -⟩ := lookup_eq_some_iff.mp hlookup
      exact .inr (by simp [hsplit])
  have hrenamed := hstage₃.renamed plan hall
  refine ⟨{ s₃ with out := s₃.out ++ "OK" ++ "\n" }, ?_, ?_, hrenamed⟩
  · rw [carryOut, eval_bind_ok plan.eval_needed]
    refine (eval_bind_ok hroom _).trans ?_
    rw [eval_bind_ok hrest, eval_bind_ok hfinish]
    rfl
  · rw [hstage₃.out, String.append_assoc]
    rfl

end

end SceneText.RenamingTool
