import SceneText.Session
import SceneText.Proofs.Characters
import SceneText.Proofs.Documents
import SceneText.Proofs.Lists

/-!
# Files in a session

Paths lead to the same locations as long as directories and links stay where they are and no link is
added. Writing a file and making a directory are such changes, so a file that is written is read
back, and what was written before it at other places is still there.
-/

namespace SceneText

open List Json SceneText.Path Utf8

variable {loc workDir here : Location} {path : String} {node : Node} {t t' : FileTree}
  {lastToo : Bool} {names : List String} {bytes : List UInt8} {s s' : Session} {v : Json}
  {t'' : FileTree} {budget : Nat} {path' : String} {loc' l : Location} {items : List Json}

def Node.leads : Node → Bool
  | .directory | .link _ => true
  | _ => false

namespace FileTree

theorem lookup_insertEntry (loc l : Location) (node : Node) (entries : List (Location × Node)) :
    (insertEntry loc node entries).lookup l = if l = loc then some node else entries.lookup l := by
  induction entries with
  | nil =>
    by_cases h : l = loc
    · simp [insertEntry, h]
    · simp [insertEntry, lookup_cons_ne h, h]
  | cons e rest ih =>
    obtain ⟨k, n⟩ := e
    rw [insertEntry]
    by_cases hk : k = loc
    · subst hk
      by_cases h : l = k
      · simp [h]
      · simp [lookup_cons_ne h, h]
    · rw [if_neg hk]
      by_cases h : l = k
      · simp [h, hk]
      · rw [lookup_cons_ne h, lookup_cons_ne h, ih]

theorem find?_insert (h : loc ≠ []) (tree : FileTree) (node : Node) (l : Location) :
    (tree.insert loc node).find? l = if l = loc then some node else tree.find? l := by
  unfold find?
  by_cases hl : l = []
  · subst hl
    simp [Ne.symm h]
  · have hempty : l.isEmpty = false := by simpa using hl
    simp only [hempty, insert, lookup_insertEntry]
    rfl

theorem stat_ok {tree : FileTree} :
    tree.stat workDir path = .ok (loc, node) ↔
      tree.locate true workDir path = .ok loc ∧ tree.find? loc = some node := by
  unfold stat
  split
  · next hloc => simp [hloc]
  · next l hloc =>
    rw [hloc]
    split
    · next n hn =>
      simp only [Except.ok.injEq, Prod.mk.injEq]
      exact ⟨fun ⟨hl, hnode⟩ => ⟨hl, by rw [← hl, ← hnode, hn]⟩,
        fun ⟨hl, hnode⟩ => ⟨hl, Option.some.inj (by rw [← hn, hl, hnode])⟩⟩
    · next hn =>
      simp only [reduceCtorEq, Except.ok.injEq, false_iff, not_and]
      rintro rfl
      simp [hn]

def Writable (tree : FileTree) (loc : Location) : Prop :=
  ∀ n, tree.find? loc = some n → n ≠ .directory ∧ ∀ bytes, n ≠ .file bytes true

theorem writeLocation_ok {tree : FileTree} :
    tree.writeLocation workDir path = .ok loc ↔
      (∃ place, tree.entrance workDir path = .ok place ∧ place.slash = false) ∧
        tree.locate true workDir path = .ok loc ∧ tree.Writable loc := by
  unfold writeLocation
  split
  · next hplace => simp [hplace]
  · next place hplace =>
    simp only [hplace, Except.ok.injEq, exists_eq_left']
    split
    · next hslash => simp [hslash]
    · next hslash =>
      simp only [hslash, true_and]
      split
      · next hloc => simp [hloc]
      · next l hloc =>
        rw [hloc, Except.ok.injEq]
        split
        · next hn =>
          simp only [reduceCtorEq, false_iff, not_and]
          rintro rfl hfree
          exact (hfree _ hn).1 rfl
        · next bytes hn =>
          simp only [reduceCtorEq, false_iff, not_and]
          rintro rfl hfree
          exact (hfree _ hn).2 bytes rfl
        · next hdir hfile =>
          simp only [Except.ok.injEq, iff_self_and]
          rintro rfl n hn
          exact ⟨fun h => hdir (by rw [hn, h]), fun bytes h => hfile bytes (by rw [hn, h])⟩

structure Enters (tree : FileTree) (here : Location) (name : String) : Prop where
  directory : tree.find? here = some .directory
  ordinary : isDotName name = false
  short : name.utf8ByteSize ≤ 255

/-- How a path gets through its names, with so many links on the way at most. It may end where
nothing stands, and it ends on a link only if the last link is not followed. -/
inductive Reaches (tree : FileTree) (lastToo : Bool) :
    Nat → Location → List String → Location → Prop
  | here {budget : Nat} {here : Location} : Reaches tree lastToo (budget + 1) here [] here
  | dots {budget : Nat} {here loc : Location} {name : String} {rest : List String}
      (hdir : tree.find? here = some .directory) (hdot : isDotName name = true)
      (hrest : Reaches tree lastToo (budget + 1) (pushPart here name) rest loc) :
      Reaches tree lastToo (budget + 1) here (name :: rest) loc
  | onto {budget : Nat} {here loc : Location} {name : String} {rest : List String}
      (hname : tree.Enters here name)
      (hlink : ∀ target, tree.find? (here ++ [name]) ≠ some (.link target))
      (hrest : Reaches tree lastToo (budget + 1) (here ++ [name]) rest loc) :
      Reaches tree lastToo (budget + 1) here (name :: rest) loc
  | last {budget : Nat} {here : Location} {name target : String} (hname : tree.Enters here name)
      (hlink : tree.find? (here ++ [name]) = some (.link target)) (hlast : lastToo = false) :
      Reaches tree lastToo (budget + 1) here [name] (here ++ [name])
  | link {budget : Nat} {here loc : Location} {name target : String} {rest : List String}
      (hname : tree.Enters here name) (hlink : tree.find? (here ++ [name]) = some (.link target))
      (hmore : rest ≠ [] ∨ lastToo = true) (htarget : ¬ target.isEmpty = true)
      (hrest : Reaches tree lastToo budget (if isAbsolute target then [] else here)
        (namesOf target ++ rest) loc) : Reaches tree lastToo (budget + 1) here (name :: rest) loc

section Reaching

variable {tree : FileTree} {name target : String}

theorem isDotName_eq_false : isDotName name = false ↔ (name ≠ "" ∧ name ≠ ".") ∧ name ≠ ".." := by
  simp [isDotName, and_assoc]

theorem pushPart_ordinary (hdot : isDotName name = false) (here : Location) :
    pushPart here name = here ++ [name] := by
  simp [pushPart, isDotName_eq_false.mp hdot]

theorem advance_dots (hdir : tree.find? here = some .directory) (hdot : isDotName name = true) :
    tree.advance lastToo here (name :: names) =
      tree.advance lastToo (pushPart here name) names := by
  rw [isDotName, Bool.or_eq_true] at hdot
  rw [advance, hdir, pushPart]
  dsimp only
  by_cases hstay : (name.isEmpty || name = ".") = true
  · rw [if_pos hstay, if_pos hstay]
  · have hup : name = ".." := of_decide_eq_true (hdot.resolve_left hstay)
    rw [if_neg hstay, if_neg hstay, if_pos hup, if_pos hup]

section

variable (hname : tree.Enters here name)
include hname

theorem advance_onto (hlink : ∀ target, tree.find? (here ++ [name]) ≠ some (.link target))
    (hgoes : tree.find? (here ++ [name]) ≠ none ∨ names = []) :
    tree.advance lastToo here (name :: names) =
      tree.advance lastToo (here ++ [name]) names := by
  obtain ⟨hstay, hup⟩ := isDotName_eq_false.mp hname.ordinary
  rw [advance, hname.directory]
  dsimp only
  rw [if_neg (by simp [hstay]), if_neg hup, if_neg (Nat.not_lt.mpr hname.short)]
  split
  · next hl => exact absurd hl (hlink _)
  · rfl
  · next hnone =>
    rw [hgoes.resolve_left (not_not.mpr hnone)]
    rfl

theorem advance_link (hlink : tree.find? (here ++ [name]) = some (.link target)) :
    tree.advance lastToo here (name :: names) =
      if names.isEmpty && !lastToo then .ok (.arrived (here ++ [name]))
      else .ok (.link here target names) := by
  simp [advance, hname.directory, isDotName_eq_false.mp hname.ordinary, Nat.not_lt.mpr hname.short,
    hlink]

theorem advance_missing (hnone : tree.find? (here ++ [name]) = none) (hnames : names ≠ []) :
    tree.advance lastToo here (name :: names) = .error .missing := by
  simp [advance, hname.directory, isDotName_eq_false.mp hname.ordinary, Nat.not_lt.mpr hname.short,
    hnone, hnames]

end

theorem Reaches.directory (h : tree.Reaches lastToo budget here names loc) (hnames : names ≠ []) :
    tree.find? here = some .directory := by
  cases h with
  | here => exact absurd rfl hnames
  | dots hdir => exact hdir
  | onto hname | last hname | link hname => exact hname.directory

theorem Reaches.found (h : tree.Reaches lastToo budget here names loc)
    (hsome : tree.find? loc ≠ none) : tree.find? here ≠ none := by
  cases h with
  | here => exact hsome
  | dots hdir => simp [hdir]
  | onto hname | last hname | link hname => simp [hname.directory]

theorem Reaches.follow_eq (h : tree.Reaches lastToo budget here names loc) :
    tree.followFrom lastToo budget here names = .ok loc := by
  induction h with
  | here => rfl
  | dots hdir hdot _ ih =>
    rw [followFrom, advance_dots hdir hdot]
    exact ih
  | @onto budget here loc name rest hname hlink hrest ih =>
    have hgoes : tree.find? (here ++ [name]) ≠ none ∨ rest = [] := by
      by_cases hmore : rest = []
      · exact .inr hmore
      · exact .inl (by simp [hrest.directory hmore])
    rw [followFrom, advance_onto hname hlink hgoes]
    exact ih
  | last hname hlink hlast =>
    rw [followFrom, advance_link hname hlink, hlast]
    rfl
  | link hname hlink hmore htarget _ ih =>
    rw [followFrom, advance_link hname hlink, if_neg (by simpa [imp_iff_not_or] using hmore)]
    dsimp only
    rw [if_neg htarget, ih]

theorem reaches_iff : tree.followFrom lastToo budget here names = .ok loc ↔
    tree.Reaches lastToo budget here names loc := by
  refine ⟨fun h => ?_, Reaches.follow_eq⟩
  induction budget generalizing here names with
  | zero => cases h
  | succ budget ih =>
    induction names generalizing here with
    | nil =>
      cases h
      exact .here
    | cons name rest ih' =>
      have hdir : tree.find? here = some .directory := by
        cases hhere : tree.find? here with
        | none => simp [followFrom, advance, hhere] at h
        | some n => cases n <;> simp [followFrom, advance, hhere] at h ⊢
      cases hdot : isDotName name with
      | true =>
        rw [followFrom, advance_dots hdir hdot] at h
        exact .dots hdir hdot (ih' h)
      | false =>
        have hshort : name.utf8ByteSize ≤ 255 := by
          by_contra hlong
          simp [followFrom, advance, hdir, isDotName_eq_false.mp hdot, Nat.not_le.mp hlong] at h
        have hname : tree.Enters here name := ⟨hdir, hdot, hshort⟩
        by_cases hlink : ∃ target, tree.find? (here ++ [name]) = some (.link target)
        · obtain ⟨target, hlink⟩ := hlink
          rw [followFrom, advance_link hname hlink] at h
          by_cases hlast : (rest.isEmpty && !lastToo) = true
          · obtain ⟨rfl, hfalse⟩ : rest = [] ∧ lastToo = false := by simpa using hlast
            rw [if_pos hlast] at h
            cases h
            exact .last hname hlink hfalse
          · rw [if_neg hlast] at h
            dsimp only at h
            split at h
            · cases h
            · next htarget =>
              exact .link hname hlink (by simpa [imp_iff_not_or] using hlast) htarget (ih h)
        · rw [not_exists] at hlink
          have hgoes : tree.find? (here ++ [name]) ≠ none ∨ rest = [] := by
            by_contra hstuck
            rw [not_or, not_not] at hstuck
            rw [followFrom, advance_missing hname hstuck.1 hstuck.2] at h
            cases h
          rw [followFrom, advance_onto hname hlink hgoes] at h
          exact .onto hname hlink (ih' h)

end Reaching

structure Extends (t t' : FileTree) : Prop where
  ways : ∀ l n, n.leads = true → t.find? l = some n → t'.find? l = some n
  links : ∀ l x, t'.find? l = some (.link x) → t.find? l = some (.link x)

namespace Extends

theorem refl (t : FileTree) : Extends t t :=
  ⟨fun _ _ _ h => h, fun _ _ h => h⟩

theorem trans (h : Extends t t') (h' : Extends t' t'') : Extends t t'' :=
  ⟨fun l n hn hl => h'.ways l n hn (h.ways l n hn hl), fun l x hl => h.links l x (h'.links l x hl)⟩

theorem insert (hloc : loc ≠ []) (hold : ∀ n, t.find? loc = some n → n.leads = false)
    (hnode : ∀ x, node ≠ .link x) : Extends t (t.insert loc node) := by
  refine ⟨fun l n hn hl => ?_, fun l x hl => ?_⟩
  · rw [find?_insert hloc, if_neg, hl]
    rintro rfl
    rw [hold n hl] at hn
    cases hn
  · rw [find?_insert hloc] at hl
    split at hl
    · exact absurd (Option.some.inj hl) (hnode x)
    · exact hl

variable (h : Extends t t')
include h

theorem enters {name : String} (hname : t.Enters here name) : t'.Enters here name :=
  ⟨h.ways _ _ rfl hname.directory, hname.ordinary, hname.short⟩

theorem followFrom (hloc : t.followFrom lastToo budget here names = .ok loc) :
    t'.followFrom lastToo budget here names = .ok loc := by
  rw [reaches_iff] at hloc ⊢
  induction hloc with
  | here => exact .here
  | dots hdir hdot _ ih => exact .dots (h.ways _ _ rfl hdir) hdot ih
  | onto hname hlink _ ih =>
    exact .onto (h.enters hname) (fun target hl => hlink target (h.links _ _ hl)) ih
  | last hname hlink hlast => exact .last (h.enters hname) (h.ways _ _ rfl hlink) hlast
  | link hname hlink hmore htarget _ ih =>
    exact .link (h.enters hname) (h.ways _ _ rfl hlink) hmore htarget ih

theorem locate (hloc : t.locate lastToo workDir path = .ok loc) :
    t'.locate lastToo workDir path = .ok loc := by
  unfold FileTree.locate at hloc ⊢
  split at hloc
  · cases hloc
  split at hloc
  · cases hloc
  · next hempty hlong =>
    rw [if_neg hempty, if_neg hlong]
    exact h.followFrom hloc

theorem stat (hstat : t.stat workDir path = .ok (loc, node)) (hnode : t'.find? loc = some node) :
    t'.stat workDir path = .ok (loc, node) :=
  stat_ok.mpr ⟨h.locate (stat_ok.mp hstat).1, hnode⟩

theorem entrance {place : Entrance} (hplace : t.entrance workDir path = .ok place) :
    t'.entrance workDir path = .ok place := by
  unfold FileTree.entrance at hplace ⊢
  dsimp only at hplace ⊢
  split at hplace
  · cases hplace
  · next hlong =>
    rw [if_neg hlong]
    split at hplace
    · cases hplace
    · next loc hstat =>
      rw [h.stat hstat (h.ways _ _ rfl (stat_ok.mp hstat).2)]
      exact hplace
    · cases hplace

theorem writeLocation (hloc : t.writeLocation workDir path = .ok loc) (hfree : t'.Writable loc) :
    t'.writeLocation workDir path = .ok loc := by
  obtain ⟨⟨place, hplace, hslash⟩, hloc, -⟩ := writeLocation_ok.mp hloc
  exact writeLocation_ok.mpr ⟨⟨place, h.entrance hplace, hslash⟩, h.locate hloc, hfree⟩

end Extends

structure Grows (t t' : FileTree) : Prop where
  nodes : ∀ l n, t.find? l = some n → t'.find? l = some n
  links : ∀ l x, t'.find? l = some (.link x) → t.find? l = some (.link x)

namespace Grows

theorem refl (t : FileTree) : Grows t t :=
  ⟨fun _ _ h => h, fun _ _ h => h⟩

theorem trans (h : Grows t t') (h' : Grows t' t'') : Grows t t'' :=
  ⟨fun l n hl => h'.nodes l n (h.nodes l n hl), fun l x hl => h.links l x (h'.links l x hl)⟩

theorem toExtends (h : Grows t t') : Extends t t' :=
  ⟨fun l n _ hl => h.nodes l n hl, h.links⟩

theorem insert_directory (h : t.find? loc = none) : Grows t (t.insert loc .directory) := by
  have hloc : loc ≠ [] := by
    rintro rfl
    cases h
  refine ⟨fun l n hl => ?_, (Extends.insert hloc (by simp [h]) (by simp)).links⟩
  rw [find?_insert hloc, if_neg, hl]
  rintro rfl
  simp [h] at hl

theorem read (h : Grows t t') (hread : t.read workDir path = .ok bytes) :
    t'.read workDir path = .ok bytes := by
  unfold FileTree.read at hread ⊢
  cases hstat : t.stat workDir path with
  | error cause =>
    rw [hstat] at hread
    cases hread
  | ok r =>
    rw [hstat] at hread
    rw [h.toExtends.stat hstat (h.nodes _ _ (stat_ok.mp hstat).2)]
    exact hread

end Grows

section LinkLast

variable {tree : FileTree}

theorem followFrom_last (h : tree.followFrom true budget here names = .ok loc)
    (hnode : tree.find? loc = some node) :
    ∃ l n, tree.followFrom false budget here names = .ok l ∧ tree.find? l = some n := by
  simp only [reaches_iff] at h ⊢
  induction h with
  | here => exact ⟨_, node, .here, hnode⟩
  | dots hdir hdot _ ih =>
    obtain ⟨l, n, hl, hn⟩ := ih hnode
    exact ⟨l, n, .dots hdir hdot hl, hn⟩
  | onto hname hlink _ ih =>
    obtain ⟨l, n, hl, hn⟩ := ih hnode
    exact ⟨l, n, .onto hname hlink hl, hn⟩
  | last _ _ hlast => cases hlast
  | @link budget here loc name target rest hname hlink _ htarget _ ih =>
    by_cases hrest : rest = []
    · subst hrest
      exact ⟨_, _, .last hname hlink rfl, hlink⟩
    · obtain ⟨l, n, hl, hn⟩ := ih hnode
      exact ⟨l, n, .link hname hlink (.inl hrest) htarget hl, hn⟩

theorem makeDirectory_there (hbare : withoutTrailingSlash path = path)
    (h : tree.stat workDir path = .ok (loc, node)) :
    ∃ cause, tree.makeDirectory workDir path = .error cause := by
  obtain ⟨hloc, hnode⟩ := stat_ok.mp h
  rw [locate] at hloc
  split at hloc
  · cases hloc
  split at hloc
  · cases hloc
  · next hempty hlong =>
    obtain ⟨l, n, hl, hn⟩ := followFrom_last hloc hnode
    refine ⟨.alreadyThere, ?_⟩
    rw [makeDirectory, hbare, if_neg hlong, locate, if_neg hempty, if_neg hlong, hl]
    dsimp only
    rw [hn]

end LinkLast

/-- There is nothing at the place, or a file that may be written over. -/
def Overwritable (tree : FileTree) (loc : Location) : Prop :=
  ∀ n, tree.find? loc = some n → ∃ bytes, n = .file bytes false

section Overwritable

variable {tree : FileTree} {loc : Location} (h : tree.Overwritable loc)

theorem overwritable_of_free (hfree : tree.find? loc = none) : tree.Overwritable loc := by
  simp [Overwritable, hfree]

include h

theorem Overwritable.no_link (target : String) : tree.find? loc ≠ some (.link target) := by
  intro hlink
  obtain ⟨bytes, hn⟩ := h _ hlink
  cases hn

theorem Overwritable.not_leads (n : Node) (hn : tree.find? loc = some n) : n.leads = false := by
  obtain ⟨bytes, rfl⟩ := h n hn
  rfl

end Overwritable

/-- A path that can be opened for writing, and the location it leads to; what is there already can
only be a file. -/
structure Opens (tree : FileTree) (workDir : Location) (path : String) (loc : Location) :
    Prop where
  plain : '\x00' ∉ path.toList
  located : tree.writeLocation workDir path = .ok loc
  file : tree.Overwritable loc

theorem Opens.of_free {tree : FileTree} {workDir loc : Location} {path : String}
    (hplain : '\x00' ∉ path.toList) (hlocated : tree.writeLocation workDir path = .ok loc)
    (hfree : tree.find? loc = none) : tree.Opens workDir path loc :=
  ⟨hplain, hlocated, overwritable_of_free hfree⟩

def store (tree : FileTree) (loc : Location) (bytes : List UInt8) : FileTree :=
  tree.insert loc (.file bytes false)

def storeAll (tree : FileTree) (files : List (Location × List UInt8)) : FileTree :=
  files.foldl (fun t f => t.store f.1 f.2) tree

section Opens

variable {tree tree' : FileTree} {workDir loc : Location} {path : String}

variable (h : tree.Opens workDir path loc)
include h

theorem Opens.ne_root : loc ≠ [] := by
  rintro rfl
  obtain ⟨bytes, hnode⟩ := h.file .directory rfl
  cases hnode

theorem Opens.find?_store (bytes : List UInt8) (l : Location) :
    (tree.store loc bytes).find? l = if l = loc then some (.file bytes false) else tree.find? l :=
  find?_insert h.ne_root tree _ l

theorem Opens.extends_store (bytes : List UInt8) : Extends tree (tree.store loc bytes) :=
  .insert h.ne_root h.file.not_leads (by simp)

theorem Opens.store (h' : tree.Opens workDir path' loc') (bytes : List UInt8) :
    (tree.store loc' bytes).Opens workDir path loc := by
  have hfile : (tree.store loc' bytes).Overwritable loc := by
    intro n hn
    rw [h'.find?_store] at hn
    split at hn
    · exact ⟨bytes, (Option.some.inj hn).symm⟩
    · exact h.file n hn
  refine ⟨h.plain, (h'.extends_store bytes).writeLocation h.located fun n hn => ?_, hfile⟩
  obtain ⟨b, rfl⟩ := hfile n hn
  simp

theorem Opens.read (hext : Extends tree tree') {readOnly : Bool}
    (hfile : tree'.find? loc = some (.file bytes readOnly)) :
    tree'.read workDir path = .ok bytes := by
  have hloc := hext.locate (writeLocation_ok.mp h.located).2.1
  rw [FileTree.read, stat_ok.mpr ⟨hloc, hfile⟩]

theorem Opens.write (bytes : List UInt8) :
    tree.write workDir path bytes = .ok (tree.store loc bytes) := by
  rw [FileTree.write, h.located]
  dsimp only
  split
  · next hdevice =>
    obtain ⟨b, hnode⟩ := h.file _ hdevice
    cases hnode
  · rfl

end Opens

section StoreAll

variable {tree : FileTree} {workDir : Location} {files : List (Location × List UInt8)}
  {f : Location × List UInt8}

def Open (tree : FileTree) (workDir : Location) (files : List (Location × List UInt8)) : Prop :=
  ∀ f ∈ files, ∃ path, tree.Opens workDir path f.1

theorem Open.tail (h : tree.Open workDir (f :: files)) :
    (tree.store f.1 f.2).Open workDir files := by
  intro g hg
  obtain ⟨path, hpath⟩ := h f (by simp)
  obtain ⟨path', hpath'⟩ := h g (by simp [hg])
  exact ⟨path', hpath'.store hpath f.2⟩

variable (h : tree.Open workDir files)
include h

theorem Open.toExtends : Extends tree (tree.storeAll files) := by
  induction files generalizing tree with
  | nil => exact .refl tree
  | cons f files ih =>
    obtain ⟨path, hpath⟩ := h f (by simp)
    exact (hpath.extends_store f.2).trans (ih h.tail)

theorem Open.opens (hpath : tree.Opens workDir path loc) :
    (tree.storeAll files).Opens workDir path loc := by
  induction files generalizing tree with
  | nil => exact hpath
  | cons f files ih =>
    obtain ⟨path', hpath'⟩ := h f (by simp)
    exact ih h.tail (hpath.store hpath' f.2)

theorem Open.find?_other (hl : l ∉ files.map Prod.fst) :
    (tree.storeAll files).find? l = tree.find? l := by
  induction files generalizing tree with
  | nil => rfl
  | cons f files ih =>
    obtain ⟨path, hpath⟩ := h f (by simp)
    rw [map_cons, mem_cons, not_or] at hl
    calc ((tree.store f.1 f.2).storeAll files).find? l = (tree.store f.1 f.2).find? l :=
          ih h.tail hl.2
      _ = tree.find? l := by rw [hpath.find?_store, if_neg hl.1]

theorem Open.find?_stored (hnodup : (files.map Prod.fst).Nodup) (hf : f ∈ files) :
    (tree.storeAll files).find? f.1 = some (.file f.2 false) := by
  induction files generalizing tree with
  | nil => cases hf
  | cons g files ih =>
    rw [map_cons, nodup_cons] at hnodup
    rcases mem_cons.mp hf with rfl | hf
    · obtain ⟨path, hpath⟩ := h f (by simp)
      calc ((tree.store f.1 f.2).storeAll files).find? f.1 = (tree.store f.1 f.2).find? f.1 :=
            h.tail.find?_other hnodup.1
        _ = some (.file f.2 false) := by rw [hpath.find?_store, if_pos rfl]
    · exact ih h.tail hnodup.2 hf

end StoreAll

end FileTree

namespace Run

variable {α β : Type} {x : Run α}

/-- How a run ends that starts in a session, and the session it leaves. -/
def eval (x : Run α) (s : Session) : Except Stop α × Session :=
  x.run.run s

theorem eval_pure (v : α) (s : Session) : eval (pure v) s = (.ok v, s) :=
  rfl

theorem eval_bind (x : Run α) (f : α → Run β) (s : Session) :
    eval (x >>= f) s =
      match eval x s with
      | (.ok v, s') => eval (f v) s'
      | (.error stop, s') => (.error stop, s') := by
  simp only [eval, ExceptT.run_bind, StateT.run_bind]
  rcases (x.run.run s) with ⟨v | v, s'⟩ <;> rfl

theorem eval_bind_ok {v : α} (h : eval x s = (.ok v, s')) (f : α → Run β) :
    eval (x >>= f) s = eval (f v) s' := by
  rw [eval_bind, h]

theorem of_eval_bind {f : α → Run β} {w : β} (h : eval (x >>= f) s = (.ok w, s')) :
    ∃ v t, eval x s = (.ok v, t) ∧ eval (f v) t = (.ok w, s') := by
  rw [eval_bind] at h
  rcases hx : eval x s with ⟨stop | v, t⟩
  · rw [hx] at h
    cases h
  · rw [hx] at h
    exact ⟨v, t, rfl, h⟩

theorem eval_fail (fault : Fault) (s : Session) :
    eval (fail fault : Run α) s = (.error (.fault fault), s) :=
  rfl

theorem eval_lift (x : Except Fault α) (s : Session) :
    eval (lift x) s =
      match x with
      | .ok v => (.ok v, s)
      | .error fault => (.error (.fault fault), s) := by
  cases x <;> rfl

def Talk (x : Run Unit) : Prop :=
  ∀ s, ∃ out, eval x s = (.ok (), { s with out := out })

theorem talk_say (line : String) : Talk (say line) :=
  fun _ => ⟨_, rfl⟩

theorem Talk.bind {x y : Run Unit} (hx : Talk x) (hy : Talk y) : Talk (x >>= fun _ => y) := by
  intro s
  obtain ⟨out, hfirst⟩ := hx s
  obtain ⟨out', hrest⟩ := hy { s with out := out }
  refine ⟨out', ?_⟩
  rw [eval_bind, hfirst]
  exact hrest

theorem eval_attempt (x : Run α) (s : Session) :
    eval (attempt x) s =
      match eval x s with
      | (.ok v, s') => (.ok (.ok v), s')
      | (.error (.fault .endless), s') => (.error (.fault .endless), s')
      | (.error (.fault fault), s') => (.ok (.error fault), s')
      | (.error (.exit code), s') => (.error (.exit code), s') := by
  simp only [eval, attempt, ExceptT.run_mk, StateT.run_bind]
  rcases (x.run.run s) with ⟨(code | fault) | v, s'⟩
  · rfl
  · cases fault <;> rfl
  · rfl

theorem after_bind {f : α → Run β} {P : Session → Prop}
    (hx : P (eval x s).2) (hf : ∀ v s', eval x s = (.ok v, s') → P s' → P (eval (f v) s').2) :
    P (eval (x >>= f) s).2 := by
  rw [eval_bind]
  rcases hr : eval x s with ⟨stop | v, s'⟩ <;> rw [hr] at hx
  · exact hx
  · exact hf v s' hr hx

theorem eval_attempt_snd (x : Run α) (s : Session) : (eval (attempt x) s).2 = (eval x s).2 := by
  rw [eval_attempt]
  rcases eval x s with ⟨(code | fault) | v, s'⟩
  · rfl
  · cases fault <;> rfl
  · rfl

theorem eval_query (ask : FileTree → Location → α) (s : Session) :
    eval (query ask) s = (.ok (ask s.tree s.workDir), s) :=
  rfl

theorem eval_checkPath (h : '\x00' ∉ path.toList) (s : Session) :
    eval (checkPath path) s = (.ok (), s) := by
  rw [checkPath, if_neg (by simpa using h)]
  rfl

theorem eval_mapM {γ : Type} {f : α → Run β} {k : γ → α} {g : γ → β} {s : Session} (xs : List γ)
    (h : ∀ x ∈ xs, eval (f (k x)) s = (.ok (g x), s)) :
    eval ((xs.map k).mapM f) s = (.ok (xs.map g), s) := by
  induction xs with
  | nil => rfl
  | cons x xs ih =>
    rw [map_cons, mapM_cons, eval_bind_ok (h x (by simp)), eval_bind,
      ih fun y hy => h y (by simp [hy])]
    rfl

theorem eval_mapM_lift {f : α → Run β} {g : α → Except Fault β} {s : Session} {xs : List α}
    (h : ∀ x ∈ xs, eval (f x) s = eval (lift (g x)) s) :
    eval (xs.mapM f) s = eval (lift (xs.mapM g)) s := by
  induction xs with
  | nil => rfl
  | cons x xs ih =>
    rw [mapM_cons, mapM_cons, eval_bind, h x mem_cons_self]
    cases g x with
    | error fault => rfl
    | ok y =>
      change eval (xs.mapM f >>= fun ys => pure (y :: ys)) s = _
      rw [eval_bind, ih fun z hz => h z (mem_cons_of_mem _ hz)]
      cases xs.mapM g <;> rfl

def Reads (s : Session) (path : String) (bytes : List UInt8) : Prop :=
  eval (readBytes path) s = (.ok bytes, s)

theorem reads_iff :
    Reads s path bytes ↔ '\x00' ∉ path.toList ∧ s.tree.read s.workDir path = .ok bytes := by
  unfold Reads readBytes inquire
  rw [eval_bind]
  by_cases h : '\x00' ∈ path.toList
  · rw [checkPath, if_pos (by simpa using h), eval_fail]
    simp [h]
  · rw [eval_checkPath h]
    simp only [h, not_false_iff, true_and]
    rw [eval_bind, eval_query]
    dsimp only
    split
    · next hread => simp [hread, eval_pure]
    · next hread => simp [hread, fileFault, eval_fail]

theorem Reads.filled (h : Reads s path bytes) : path.isEmpty = false := by
  rw [Bool.eq_false_iff]
  intro hempty
  have hread := (reads_iff.mp h).2
  rw [FileTree.read, FileTree.stat, FileTree.locate, if_pos hempty] at hread
  cases hread

theorem eval_change (h : '\x00' ∉ path.toList)
    (act : FileTree → Location → Except FileCause FileTree) (s : Session) :
    eval (change path act) s =
      match act s.tree s.workDir with
      | .ok tree => (.ok (), { s with tree := tree })
      | .error cause => (.error (.fault (.file cause path none)), s) := by
  unfold change
  rw [eval_bind, eval_checkPath h]
  change eval (match act s.tree s.workDir with
    | .ok tree => set { s with tree := tree }
    | .error cause => fileFault path cause) s = _
  cases act s.tree s.workDir with
  | ok tree => rfl
  | error cause => rfl

theorem inquire_cases (path : String) (ask : FileTree → Location → Except FileCause α)
    (s : Session) :
    (∃ stop, eval (inquire path ask) s = (.error stop, s)) ∨
      ∃ v, '\x00' ∉ path.toList ∧ ask s.tree s.workDir = .ok v ∧
        eval (inquire path ask) s = (.ok v, s) := by
  by_cases hplain : '\x00' ∈ path.toList
  · refine .inl ⟨.fault .zeroInPath, ?_⟩
    rw [inquire, eval_bind, checkPath, if_pos (by simpa using hplain)]
    rfl
  · rw [inquire, eval_bind_ok (eval_checkPath hplain s), eval_bind_ok (eval_query ask s)]
    cases hanswer : ask s.tree s.workDir with
    | error cause => exact .inl ⟨_, rfl⟩
    | ok v => exact .inr ⟨v, hplain, rfl, rfl⟩

theorem change_cases (path : String) (act : FileTree → Location → Except FileCause FileTree)
    (s : Session) :
    (∃ stop, eval (change path act) s = (.error stop, s)) ∨
      ∃ tree, '\x00' ∉ path.toList ∧ act s.tree s.workDir = .ok tree ∧
        eval (change path act) s = (.ok (), { s with tree := tree }) := by
  by_cases hplain : '\x00' ∈ path.toList
  · refine .inl ⟨.fault .zeroInPath, ?_⟩
    rw [change, eval_bind, checkPath, if_pos (by simpa using hplain)]
    rfl
  · rw [eval_change hplain]
    cases hact : act s.tree s.workDir with
    | error cause => exact .inl ⟨_, rfl⟩
    | ok tree => exact .inr ⟨tree, hplain, rfl, rfl⟩

theorem eval_writeBytes (h : s.tree.Opens s.workDir path loc) (bytes : List UInt8) :
    eval (writeBytes path bytes) s = (.ok (), { s with tree := s.tree.store loc bytes }) := by
  rw [writeBytes, eval_change h.plain, h.write]

structure Holds (s : Session) (path : String) (loc : Location) (bytes : List UInt8) : Prop where
  plain : '\x00' ∉ path.toList
  located : s.tree.locate true s.workDir path = .ok loc
  stored : ∃ readOnly, s.tree.find? loc = some (.file bytes readOnly)

theorem Holds.reads (h : Holds s path loc bytes) : Reads s path bytes := by
  obtain ⟨readOnly, hfile⟩ := h.stored
  refine reads_iff.mpr ⟨h.plain, ?_⟩
  rw [FileTree.read, FileTree.stat_ok.mpr ⟨h.located, hfile⟩]

theorem holds_written (h : s.tree.Opens s.workDir path loc) (bytes : List UInt8) :
    Holds { s with tree := s.tree.store loc bytes } path loc bytes :=
  ⟨h.plain, (h.extends_store bytes).locate (FileTree.writeLocation_ok.mp h.located).2.1, false,
    by rw [h.find?_store, if_pos rfl]⟩

theorem reads_written (h : s.tree.Opens s.workDir path loc) (bytes : List UInt8) :
    Reads { s with tree := s.tree.store loc bytes } path bytes :=
  (holds_written h bytes).reads

theorem Holds.store (h : Holds s path loc bytes) (hopens : s.tree.Opens s.workDir path' loc')
    (hne : loc ≠ loc') (written : List UInt8) :
    Holds { s with tree := s.tree.store loc' written } path loc bytes := by
  obtain ⟨readOnly, hfile⟩ := h.stored
  refine ⟨h.plain, (hopens.extends_store written).locate h.located, readOnly, ?_⟩
  rw [hopens.find?_store, if_neg hne, hfile]

def documentOf (bytes : List UInt8) : Except Fault Json :=
  match decode bytes with
  | .ok chars => parseJson (Text.plainNewlines chars)
  | .error defect => .error (.notUtf8 defect)

theorem eval_readJson (h : Reads s path bytes) :
    eval (readJson path) s = eval (lift (documentOf bytes)) s := by
  rw [readJson, eval_bind, readChars, eval_bind_ok h, documentOf]
  cases decode bytes with
  | error defect => rfl
  | ok chars => rfl

def HoldsDocument (s : Session) (path : String) (v : Json) : Prop :=
  ∃ bytes, Reads s path bytes ∧ documentOf bytes = .ok v

theorem HoldsDocument.read (h : HoldsDocument s path v) : eval (readJson path) s = (.ok v, s) := by
  obtain ⟨bytes, hread, hdocument⟩ := h
  rw [eval_readJson hread, hdocument, eval_lift]

theorem documentOf_regular (h : documentOf bytes = .ok v) : v.Regular ∧ v.depth ≤ maxDepth := by
  unfold documentOf at h
  split at h
  · unfold parseJson at h
    split at h
    · next hread =>
      split at h
      · next hdepth =>
        cases h
        exact ⟨read_regular hread, hdepth⟩
      · cases h
    · cases h
  · cases h

theorem documentOf_indented (hv : v.Regular) (hdepth : v.depth ≤ maxDepth) :
    documentOf (encode v.indented.toList) = .ok v := by
  have hplain : '\r' ∉ v.indented.toList := by
    rw [indented, String.toList_ofList]
    exact return_not_mem_indented 0 v
  rw [documentOf, decode_encode]
  dsimp only
  rw [Text.plainNewlines_plain _ hplain, parseJson, read_indented v hv]
  dsimp only
  rw [if_pos hdepth]

theorem item_regular (h : documentOf bytes = .ok (.arr items)) :
    ∀ x ∈ items, x.Regular ∧ x.depth < maxDepth := by
  obtain ⟨hregular, hdepth⟩ := documentOf_regular h
  intro x hx
  exact ⟨regularItems_iff.mp hregular x hx,
    Nat.lt_of_le_of_lt (depthItems_le_iff.mp (Nat.le_refl _) x hx) hdepth⟩

theorem documentOf_items (h : ∀ x ∈ items, x.Regular ∧ x.depth < maxDepth) :
    documentOf (encode (arr items).indented.toList) = .ok (.arr items) := by
  apply documentOf_indented
  · exact regularItems_iff.mpr fun x hx => (h x hx).1
  · have hitems : depthItems items ≤ maxDepth - 1 :=
      depthItems_le_iff.mpr fun x hx => Nat.le_sub_one_of_lt (h x hx).2
    exact Nat.add_le_of_le_sub (by decide) hitems

theorem eval_writeJson_talk {x : Run Unit} (h : s.tree.Opens s.workDir path loc) (hx : Talk x) :
    ∃ out, eval (writeJson path v >>= fun _ => x) s =
      (.ok (), { s with
        tree := s.tree.store loc (encode v.indented.toList)
        out := out }) := by
  obtain ⟨out, hout⟩ := hx { s with tree := s.tree.store loc (encode v.indented.toList) }
  refine ⟨out, ?_⟩
  rw [eval_bind, writeJson, writeText, eval_writeBytes h]
  exact hout

/-- Room for files in a directory: their names can be opened, each at a place of its own. -/
structure Room (s : Session) (dir : Clean) (names : List String) where
  place : String → Location
  opens : ∀ name ∈ names, s.tree.Opens s.workDir (dir.append name).toText (place name)
  apart : ∀ a ∈ names, ∀ b ∈ names, place a = place b → a = b

namespace Room

variable {s : Session} {dir : Clean} {names : List String}

def fresh {all : List String} (here : String) (hall : names = all)
    (hfree : all.Forall fun name => '\x00' ∉ (dir.append name).toText.toList ∧
      s.tree.writeLocation s.workDir (dir.append name).toText = .ok [here, name] ∧
      s.tree.find? [here, name] = none) : Room s dir names where
  place name := [here, name]
  opens name hname := by
    obtain ⟨hplain, hlocated, hnone⟩ := forall_iff_forall_mem.mp hfree name (hall ▸ hname)
    exact .of_free hplain hlocated hnone
  apart := by simp

def located (room : Room s dir names) (files : List (String × List UInt8)) :
    List (Location × List UInt8) :=
  files.map fun f => (room.place f.1, f.2)

def filled (room : Room s dir names) (files : List (String × List UInt8)) (out : String) :
    Session :=
  { s with tree := s.tree.storeAll (room.located files), out := out }

def keep (room : Room s dir names) {s' : Session} {names' : List String} (hsub : names' ⊆ names)
    (h : ∀ path loc, s.tree.Opens s.workDir path loc → s'.tree.Opens s'.workDir path loc) :
    Room s' dir names' where
  place := room.place
  opens name hname := h _ _ (room.opens name (hsub hname))
  apart a ha b hb := room.apart a (hsub ha) b (hsub hb)

variable (room : Room s dir names) {files : List (String × List UInt8)}

section

variable (h : ∀ f ∈ files, f.1 ∈ names)
include h

theorem open_located : s.tree.Open s.workDir (room.located files) := by
  intro f hf
  obtain ⟨g, hg, rfl⟩ := mem_map.mp hf
  exact ⟨_, room.opens g.1 (h g hg)⟩

theorem nodup_located (hnodup : (files.map Prod.fst).Nodup) :
    ((room.located files).map Prod.fst).Nodup := by
  rw [located, map_map, List.Nodup, pairwise_map]
  rw [List.Nodup, pairwise_map] at hnodup
  exact hnodup.imp_of_mem fun ha hb hne heq => hne (room.apart _ (h _ ha) _ (h _ hb) heq)

theorem reads_filled (hnodup : (files.map Prod.fst).Nodup)
    (out : String) {f : String × List UInt8} (hf : f ∈ files) :
    Reads (room.filled files out) (dir.append f.1).toText f.2 := by
  have hopen := room.open_located h
  have hstored := hopen.find?_stored (room.nodup_located h hnodup) (mem_map.mpr ⟨f, hf, rfl⟩)
  exact reads_iff.mpr ⟨(room.opens f.1 (h f hf)).plain,
    (room.opens f.1 (h f hf)).read hopen.toExtends hstored⟩

theorem opens_filled (out : String) {name : String}
    (hname : name ∈ names) : (room.filled files out).tree.Opens (room.filled files out).workDir
      (dir.append name).toText (room.place name) :=
  (room.open_located h).opens (room.opens name hname)

end

theorem filled_append (name : String) (bytes : List UInt8) (out out' : String) :
    { room.filled files out with
      tree := (room.filled files out).tree.store (room.place name) bytes
      out := out' } = room.filled (files ++ [(name, bytes)]) out' := by
  simp [filled, located, FileTree.storeAll]

theorem find?_filled (h : ∀ f ∈ files, f.1 ∈ names) (out : String) (hl : l ∉ names.map room.place) :
    (room.filled files out).tree.find? l = s.tree.find? l := by
  refine (room.open_located h).find?_other fun hmem => hl ?_
  obtain ⟨_, hf, rfl⟩ := mem_map.mp hmem
  obtain ⟨g, hg, rfl⟩ := mem_map.mp hf
  exact mem_map.mpr ⟨g.1, h g hg, rfl⟩

end Room

theorem eval_makeDirectory_refused {cause : FileCause} (hplain : '\x00' ∉ path.toList)
    (hcause : s.tree.makeDirectory s.workDir path = .error cause)
    (h : s.tree.stat s.workDir path = .ok (loc, .directory)) :
    eval (makeDirectory true path) s = (.ok (), s) := by
  have hthere : s.tree.isDirectory s.workDir path = true := by rw [FileTree.isDirectory, h]
  rw [makeDirectory, eval_bind, eval_attempt, eval_change hplain, hcause]
  dsimp only
  rw [eval_bind, isDirectory, eval_query, hthere]
  rfl

theorem eval_makeDirectory_there (hplain : '\x00' ∉ path.toList)
    (hbare : FileTree.withoutTrailingSlash path = path)
    (h : s.tree.stat s.workDir path = .ok (loc, .directory)) :
    eval (makeDirectory true path) s = (.ok (), s) := by
  obtain ⟨cause, hcause⟩ := FileTree.makeDirectory_there hbare h
  exact eval_makeDirectory_refused hplain hcause h

theorem eval_makeClean_there {path : Clean} (hplain : '\x00' ∉ path.toText.toList)
    (hbare : FileTree.withoutTrailingSlash path.toText = path.toText)
    (h : s.tree.stat s.workDir path.toText = .ok (loc, .directory)) :
    eval (makeClean path) s = (.ok (), s) := by
  have hmake := eval_makeDirectory_there hplain hbare h
  rw [makeClean]
  cases path.parts.length with
  | zero => exact hmake
  | succ depth =>
    rw [makeCleanWithin, eval_bind, eval_attempt, hmake]
    rfl

structure Grown (s s' : Session) : Prop where
  place : s'.workDir = s.workDir
  tree : s.tree.Grows s'.tree

theorem Grown.refl (s : Session) : Grown s s :=
  ⟨rfl, .refl _⟩

theorem Grown.trans {s'' : Session} (h : Grown s s') (h' : Grown s' s'') : Grown s s'' :=
  ⟨h'.place.trans h.place, h.tree.trans h'.tree⟩

theorem Grown.reads (h : Grown s s') (hread : Reads s path bytes) : Reads s' path bytes := by
  obtain ⟨hplain, hbytes⟩ := reads_iff.mp hread
  exact reads_iff.mpr ⟨hplain, by rw [h.place]; exact h.tree.read hbytes⟩

theorem Grown.holds (h : Grown s s') (hfile : Holds s path loc bytes) :
    Holds s' path loc bytes := by
  obtain ⟨readOnly, hnode⟩ := hfile.stored
  refine ⟨hfile.plain, ?_, readOnly, h.tree.nodes _ _ hnode⟩
  rw [h.place]
  exact h.tree.toExtends.locate hfile.located

def Growing (x : Run α) : Prop :=
  ∀ s, Grown s (eval x s).2

theorem Growing.bind {f : α → Run β} (hx : Growing x) (hf : ∀ v, Growing (f v)) :
    Growing (x >>= f) :=
  fun s => after_bind (hx s) fun v s' _ h => h.trans (hf v s')

theorem Growing.attempt (hx : Growing x) : Growing (attempt x) := by
  intro s
  rw [eval_attempt_snd]
  exact hx s

theorem growing_pure (v : α) : Growing (pure v : Run α) :=
  fun s => .refl s

theorem growing_fail (fault : Fault) : Growing (fail fault : Run α) :=
  fun s => .refl s

theorem growing_query (ask : FileTree → Location → α) : Growing (query ask) :=
  fun s => .refl s

theorem growing_addDirectory (path : String) :
    Growing (change path fun tree dir => tree.makeDirectory dir path) := by
  intro s
  rcases change_cases path (fun tree dir => tree.makeDirectory dir path) s with
    ⟨stop, hrun⟩ | ⟨tree, -, htree, hrun⟩ <;> rw [hrun]
  · exact .refl s
  · refine ⟨rfl, ?_⟩
    unfold FileTree.makeDirectory at htree
    split at htree
    · cases htree
    split at htree
    · cases htree
    split at htree
    · cases htree
    · next hnone =>
      cases htree
      exact .insert_directory hnone

theorem growing_makeDirectory (existing : Bool) (path : String) :
    Growing (makeDirectory existing path) := by
  refine (growing_addDirectory path).attempt.bind fun r => ?_
  cases r with
  | ok _ => exact growing_pure ()
  | error fault =>
    cases existing with
    | false => exact growing_fail fault
    | true =>
      refine Growing.bind (growing_query _) fun there => ?_
      cases there with
      | true => exact growing_pure ()
      | false => exact growing_fail fault

theorem growing_makeCleanWithin (depth : Nat) (path : Clean) :
    Growing (makeCleanWithin depth path) := by
  induction depth generalizing path with
  | zero => exact growing_makeDirectory true path.toText
  | succ depth ih =>
    refine (growing_makeDirectory true path.toText).attempt.bind fun r => ?_
    split
    · exact growing_pure ()
    · split
      · exact growing_fail _
      · exact (ih path.parent).bind fun _ => growing_makeDirectory true path.toText
    · exact growing_fail _

theorem growing_makeClean (path : Clean) : Growing (makeClean path) :=
  growing_makeCleanWithin path.parts.length path

end Run
end SceneText
