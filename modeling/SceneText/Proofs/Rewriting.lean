import SceneText.Proofs.Commands

/-!
# Documents written over

A run that does no more than talk yields its value from every session and leaves the files alone. A
document that is written over another one is read from there afterwards, and so it is from every
path that led to the same file; what is in other files stays. To write it once more changes nothing.
-/

namespace SceneText

open FileTree

theorem FileTree.store_store (tree : FileTree) (loc : Location) (first second : List UInt8) :
    (tree.store loc first).store loc second = tree.store loc second := by
  have htwice : ∀ (a b : Node) (entries : List (Location × Node)),
      insertEntry loc b (insertEntry loc a entries) = insertEntry loc b entries := by
    intro a b entries
    induction entries with
    | nil => simp [insertEntry]
    | cons e entries ih =>
      obtain ⟨l, n⟩ := e
      by_cases h : l = loc
      · simp [insertEntry, h]
      · simp [insertEntry, h, ih]
  exact congrArg mk (htwice _ _ _)

namespace Run

variable {s s' : Session} {path : String}

def Keeps (s : Session) (path : String) : Prop :=
  ∀ loc, s.tree.writeLocation s.workDir path = .ok loc → s.tree.Overwritable loc

theorem HoldsDocument.keeps {v : Json} (h : HoldsDocument s path v) : Keeps s path := by
  obtain ⟨bytes, hread, hdocument⟩ := h
  obtain ⟨-, hbytes⟩ := reads_iff.mp hread
  intro loc hloc n hn
  obtain ⟨-, hlocate, hfree⟩ := FileTree.writeLocation_ok.mp hloc
  rw [FileTree.read, FileTree.stat_ok.mpr ⟨hlocate, hn⟩] at hbytes
  cases n with
  | file content readOnly =>
    cases readOnly with
    | true => exact absurd rfl ((hfree _ hn).2 content)
    | false => exact ⟨content, rfl⟩
  | directory => cases hbytes
  | link target =>
    cases hbytes
    cases hdocument
  | device =>
    cases hbytes
    cases hdocument

theorem opens_of_written {bytes : List UInt8} (hplain : '\x00' ∉ path.toList)
    (hkeeps : Keeps s path) (h : eval (writeBytes path bytes) s = (.ok (), s')) :
    ∃ loc, s.tree.Opens s.workDir path loc := by
  rw [writeBytes, eval_change hplain, write] at h
  cases hloc : s.tree.writeLocation s.workDir path with
  | error cause =>
    rw [hloc] at h
    cases h
  | ok loc => exact ⟨loc, hplain, hloc, hkeeps loc hloc⟩

section Yields

variable {α β : Type} {x : Run α} {f : α → Run β} {w : β} {v : α}

def Yields (x : Run α) (v : α) : Prop :=
  ∀ s, ∃ s', eval x s = (.ok v, s') ∧ s.SameFiles s'

theorem yields_pure (v : α) : Yields (pure v) v :=
  fun s => ⟨s, rfl, rfl, rfl⟩

theorem yields_lift {x : Except Fault α} (h : x = .ok v) : Yields (lift x) v := by
  rw [h]
  exact yields_pure v

theorem yields_say (line : String) : Yields (say line) () :=
  fun _ => ⟨_, rfl, rfl, rfl⟩

theorem yields_complain (line : String) : Yields (complain line) () :=
  fun _ => ⟨_, rfl, rfl, rfl⟩

theorem Yields.bind (hx : Yields x v) (hf : Yields (f v) w) : Yields (x >>= f) w := by
  intro s
  obtain ⟨t, ht, hsame⟩ := hx s
  obtain ⟨s', hs', hsame'⟩ := hf t
  refine ⟨s', ?_, hsame'.tree.trans hsame.tree, hsame'.place.trans hsame.place⟩
  rw [eval_bind_ok ht, hs']

theorem Yields.bind_exists {P : β → Prop} (hx : Yields x v) (hf : ∃ w, Yields (f v) w ∧ P w) :
    ∃ w, Yields (x >>= f) w ∧ P w := by
  obtain ⟨w, hw, hp⟩ := hf
  exact ⟨w, hx.bind hw, hp⟩

theorem yields_sayAll (lines : List String) : Yields (sayAll lines) () := by
  induction lines with
  | nil => exact yields_pure ()
  | cons line lines ih => exact (yields_say line).bind ih

end Yields

/-- All that happens to the files is that a document is written. -/
structure Writes (s : Session) (path : String) (v : Json) (s' : Session) : Prop where
  tree : s.tree.write s.workDir path (Utf8.encode v.indented.toList) = .ok s'.tree
  place : s'.workDir = s.workDir

section Writes

variable {s s' t t' : Session} {path : String} {v old : Json}

theorem writes_of_eval (h : eval (writeJson path v) s = (.ok (), s')) : Writes s path v s' := by
  rcases change_cases path (fun tree dir => tree.write dir path
    (Utf8.encode v.indented.toList)) s with ⟨stop, hstop⟩ | ⟨tree, -, htree, hdone⟩
  · cases hstop.symm.trans h
  · cases hdone.symm.trans h
    exact ⟨htree, rfl⟩

theorem Writes.eval (h : Writes s path v s') (hplain : '\x00' ∉ path.toList) :
    eval (writeJson path v) s = (.ok (), { s with tree := s'.tree }) := by
  rw [writeJson, writeText, writeBytes, eval_change hplain, h.tree]

theorem Writes.same (h : Writes s path v s') (hbefore : t.SameFiles s) (hafter : s'.SameFiles t') :
    Writes t path v t' :=
  ⟨by rw [← hbefore.tree, ← hbefore.place, h.tree, hafter.tree],
    by rw [hafter.place, h.place, hbefore.place]⟩

theorem HoldsDocument.plain (h : HoldsDocument s path v) : '\x00' ∉ path.toList := by
  obtain ⟨bytes, hread, -⟩ := h
  exact (reads_iff.mp hread).1

theorem HoldsDocument.holds (h : HoldsDocument s path v) :
    ∃ loc bytes, Holds s path loc bytes ∧ documentOf bytes = .ok v := by
  obtain ⟨bytes, hread, hdocument⟩ := h
  obtain ⟨hplain, hbytes⟩ := reads_iff.mp hread
  rw [FileTree.read] at hbytes
  cases hstat : s.tree.stat s.workDir path with
  | error cause =>
    rw [hstat] at hbytes
    cases hbytes
  | ok found =>
    obtain ⟨loc, node⟩ := found
    rw [hstat] at hbytes
    obtain ⟨hlocated, hnode⟩ := FileTree.stat_ok.mp hstat
    cases node with
    | file content readOnly =>
      cases hbytes
      exact ⟨loc, bytes, ⟨hplain, hlocated, readOnly, hnode⟩, hdocument⟩
    | directory => cases hbytes
    | link target =>
      cases hbytes
      cases hdocument
    | device =>
      cases hbytes
      cases hdocument

theorem Holds.unique {path' : String} {loc : Location} {bytes bytes' : List UInt8}
    (h : Holds s path loc bytes) (h' : Holds s path' loc bytes') : bytes = bytes' := by
  obtain ⟨readOnly, hfile⟩ := h.stored
  obtain ⟨readOnly', hfile'⟩ := h'.stored
  rw [hfile] at hfile'
  cases hfile'
  rfl

structure Rewritten (s : Session) (path : String) (old v : Json) (s' : Session) : Prop where
  document : HoldsDocument s' path v
  again : Writes s' path v s'
  others : ∀ other w, HoldsDocument s other w →
    HoldsDocument s' other w ∨ w = old ∧ HoldsDocument s' other v

theorem HoldsDocument.rewritten (h : HoldsDocument s path old) (hwrites : Writes s path v s')
    (hregular : v.Regular) (hdepth : v.depth ≤ Json.maxDepth) : Rewritten s path old v s' := by
  obtain ⟨loc, hopens⟩ := opens_of_written h.plain h.keeps (hwrites.eval h.plain)
  have hdocument := documentOf_indented hregular hdepth
  generalize hbytes : Utf8.encode v.indented.toList = bytes at hdocument
  have hsame : Session.SameFiles { s with tree := s.tree.store loc bytes } s' := by
    refine ⟨?_, hwrites.place⟩
    have htree := hwrites.tree
    rw [hbytes, hopens.write] at htree
    exact (Except.ok.inj htree).symm
  refine ⟨?_, ?_, ?_⟩
  · exact HoldsDocument.same ⟨bytes, reads_written hopens bytes, hdocument⟩ hsame
  · refine ⟨?_, rfl⟩
    rw [hbytes, hsame.tree, hsame.place, (hopens.store hopens bytes).write, store_store]
  · intro other w hother
    obtain ⟨loc', bytes', hfile', hdocument'⟩ := hother.holds
    by_cases hloc : loc' = loc
    · -- Both paths lead to the file that is written over.
      subst hloc
      obtain ⟨place, oldBytes, hfile, hold⟩ := h.holds
      have hplace := (writeLocation_ok.mp hopens.located).2.1
      obtain rfl : place = loc' := Except.ok.inj (hfile.located.symm.trans hplace)
      have hbytes' : bytes' = oldBytes := hfile'.unique hfile
      rw [hbytes', hold] at hdocument'
      refine .inr ⟨(Except.ok.inj hdocument').symm, HoldsDocument.same ⟨bytes, ?_, hdocument⟩ hsame⟩
      exact Holds.reads ⟨hother.plain, (hopens.extends_store bytes).locate hfile'.located, false,
        by rw [hopens.find?_store, if_pos rfl]⟩
    · refine .inl (HoldsDocument.same ⟨bytes', ?_, hdocument'⟩ hsame)
      exact (hfile'.store hopens hloc bytes).reads

end Writes

end Run
end SceneText
