import Mathlib
import SceneText.Tool.Archive
import SceneText.Proofs.Container
import SceneText.Proofs.Files

/-!
# The layout of packed archives

A directory is packed as its manifest says, file by file, whatever else the entries of the manifest
hold. The archive has a head and an index and then the stored files, one behind the other, so that
cutting it at its offsets gives them back, and every file that was packed is unpacked from its part.
-/

namespace SceneText.ArchiveTool

open Run Archive Json
open Path.Clean (ofText)

/-- An entry of a manifest and the file that it names. -/
structure Listed where
  entry : Json
  name : String
  packed : Bool
  content : List UInt8

namespace Listed

def blob (l : Listed) : List UInt8 :=
  if l.packed then (Lz.pack l.content).getD [] else l.content

/-- The entry names the file and says whether to pack it, and the file is there. -/
structure Sound (s : Session) (dir : Path.Clean) (l : Listed) : Prop where
  name : l.entry.field "name" = .ok (.str l.name)
  packed : ∃ mark, l.entry.field "lz" = .ok mark ∧ mark.truthy = l.packed
  content : Reads s (dir.append l.name).toText l.content

theorem pack_blob {l : Listed} (hp : l.packed = true) (hlen : l.content.length < 2 ^ 32) :
    Lz.pack l.content = some l.blob := by
  rw [blob, if_pos hp, Lz.pack_eq hlen, Option.getD_some]

theorem unpack_blob {l : Listed} (hp : l.packed = true) (hlen : l.content.length < 2 ^ 32)
    (hne : l.content ≠ []) : Lz.unpack l.blob = .ok (some l.content) :=
  Lz.unpack_pack (pack_blob hp hlen) hne

end Listed

section packing

variable {s : Session} {items : List Listed}

theorem eval_loadPart {dir : Path.Clean} {l : Listed} (h : l.Sound s dir)
    (hlen : l.packed = true → l.content.length < 2 ^ 32) :
    eval (loadPart dir l.entry) s = (.ok l.blob, s) := by
  obtain ⟨mark, hmark, htruthy⟩ := h.packed
  rw [loadPart, eval_bind, h.name, eval_lift]
  dsimp only
  rw [eval_bind, h.content]
  dsimp only
  rw [eval_bind, hmark, eval_lift]
  dsimp only
  rw [htruthy]
  cases hp : l.packed with
  | true =>
    rw [Listed.pack_blob hp (hlen hp)]
    rfl
  | false =>
    rw [Listed.blob, hp]
    rfl

theorem eval_pack_listed (dir target : String) {bytes : List UInt8} {loc : Location}
    (hmanifest : HoldsDocument s ((ofText dir).append manifestName).toText
      (.arr (items.map Listed.entry)))
    (hitems : ∀ l ∈ items, l.Sound s (ofText dir))
    (hlen : ∀ l ∈ items, l.packed = true → l.content.length < 2 ^ 32)
    (hbuild : build (items.map Listed.blob) = .ok bytes)
    (hopens : s.tree.Opens s.workDir (ofText target).toText loc) :
    eval (pack dir target) s =
      (.ok (), { s with tree := (s.tree.store loc []).store loc bytes }) := by
  have hblobs : eval ((items.map Listed.entry).mapM (loadPart (ofText dir))) s =
      (.ok (items.map Listed.blob), s) :=
    eval_mapM items fun l hl => eval_loadPart (hitems l hl) (hlen l hl)
  rw [pack, eval_bind_ok hmanifest.read, eval_bind, size, eval_lift]
  dsimp only
  rw [eval_bind, elements, eval_lift]
  dsimp only
  rw [eval_bind_ok hblobs, eval_bind, eval_writeBytes hopens]
  dsimp only
  rw [eval_bind, hbuild, eval_lift]
  exact eval_writeBytes (hopens.store hopens []) bytes

/-- An archive that is packed from a manifest begins with the number of its parts less one and the
offsets at which they begin, the first of them right behind the index. Between its offsets stand the
stored files in the order of the manifest, with nothing before, between or behind them, and those
that were packed and are not empty are unpacked to what the files hold. -/
theorem pack_layout {dir target : String} {loc : Location} (hne : items ≠ [])
    (hmanifest : HoldsDocument s ((ofText dir).append manifestName).toText
      (.arr (items.map Listed.entry)))
    (hitems : ∀ l ∈ items, l.Sound s (ofText dir))
    (hsizes : ∀ l ∈ items, l.content.length < 2 ^ 32)
    (hsmall : ∀ n ∈ begins (4 + 4 * items.length) (items.map Listed.blob), n < 2 ^ 32)
    (hopens : s.tree.Opens s.workDir (ofText target).toText loc) :
    ∃ (s' : Session) (archive : List UInt8) (index : List Nat),
      eval (pack dir target) s = (.ok (), s') ∧
      Reads s' (ofText target).toText archive ∧
      (∀ l, l ≠ loc → s'.tree.find? l = s.tree.find? l) ∧
      archive = word32 (items.length - 1) ++ index.flatMap word32 ++
        (items.map Listed.blob).flatten ∧
      index = begins (4 + 4 * items.length) (items.map Listed.blob) ∧
      index.head? = some (4 + 4 * items.length) ∧
      offsets archive = .ok (index ++ [archive.length]) ∧
      chunks archive (index ++ [archive.length]) = items.map Listed.blob ∧
      ∀ (k : Nat) (l : Listed), items[k]? = some l → l.packed = true → l.content ≠ [] →
        ∃ chunk, (chunks archive (index ++ [archive.length]))[k]? = some chunk ∧
          Lz.unpack chunk = .ok (some l.content) := by
  have hblobs : items.map Listed.blob ≠ [] := by simpa using hne
  rw [← List.length_map Listed.blob] at hsmall ⊢
  have hrun := eval_pack_listed dir target hmanifest hitems (fun l hl _ => hsizes l hl)
    (build_eq hblobs hsmall) hopens
  have hchunks := chunks_laidOut (items.map Listed.blob)
  refine ⟨_, laidOut (items.map Listed.blob), _, hrun, ?_, ?_, rfl, rfl, head_begins hblobs,
    offsets_laidOut hblobs hsmall, hchunks, ?_⟩
  · exact reads_written (s := { s with tree := s.tree.store loc [] }) (hopens.store hopens []) _
  · intro l hl
    rw [(hopens.store hopens []).find?_store, if_neg hl, hopens.find?_store, if_neg hl]
  · intro k l hk hp hcontent
    refine ⟨l.blob, by rw [hchunks, List.getElem?_map, hk]; rfl, ?_⟩
    exact Listed.unpack_blob hp (hsizes l (List.mem_of_getElem? hk)) hcontent

end packing

def duoItems : List Listed :=
  [⟨.obj [("name", .str "x"), ("lz", .bool true)], "x", true, [65, 66]⟩,
   ⟨.obj [("lz", .int 0), ("name", .str "y")], "y", false, [7]⟩]

def duoSession : Session where
  tree := ⟨[(["d"], .directory), (["d", "x"], .file [65, 66] false), (["d", "y"], .file [7] false),
    (["d", "__META__.json"],
      .file (Utf8.encode (arr (duoItems.map Listed.entry)).indented.toList) false)]⟩
  workDir := []

theorem pack_layout_duo :
    ∃ s', eval (pack "d" "b") duoSession = (.ok (), s') ∧
      Reads s' "b" [1, 0, 0, 0, 12, 0, 0, 0, 19, 0, 0, 0, 2, 0, 0, 0, 1, 65, 66, 7] ∧
      offsets [1, 0, 0, 0, 12, 0, 0, 0, 19, 0, 0, 0, 2, 0, 0, 0, 1, 65, 66, 7] = .ok [12, 19, 20] ∧
      Lz.unpack [2, 0, 0, 0, 1, 65, 66] = .ok (some [65, 66]) := by
  have hdocument : documentOf (Utf8.encode (arr (duoItems.map Listed.entry)).indented.toList) =
      .ok (.arr (duoItems.map Listed.entry)) := by
    apply documentOf_indented
    · simp [duoItems, Regular, RegularItems, RegularFields]
    · simp [duoItems, depth, depthItems, depthFields, maxDepth]
  have hmanifest : Reads duoSession ((ofText "d").append manifestName).toText
      (Utf8.encode (arr (duoItems.map Listed.entry)).indented.toList) := rfl
  have hitems : ∀ l ∈ duoItems, l.Sound duoSession (ofText "d") := by
    intro l hl
    simp only [duoItems, List.mem_cons, List.not_mem_nil, or_false] at hl
    rcases hl with rfl | rfl <;> exact ⟨rfl, ⟨_, rfl, rfl⟩, rfl⟩
  have hblobs : duoItems.map Listed.blob = [[2, 0, 0, 0, 1, 65, 66], [7]] := by cbv
  have hopens : duoSession.tree.Opens [] "b" ["b"] :=
    .of_free (by decide) rfl rfl
  obtain ⟨s', archive, index, hrun, hreads, -, rfl, rfl, -, hoffsets, hchunks, hpacked⟩ :=
    @pack_layout duoSession duoItems "d" "b" ["b"] (by decide) ⟨_, hmanifest, hdocument⟩ hitems
      (by decide) (by rw [hblobs]; decide) hopens
  rw [hblobs] at hreads hoffsets hchunks hpacked
  obtain ⟨chunk, hchunk, hunpack⟩ := hpacked 0 _ rfl rfl (by decide)
  rw [hchunks] at hchunk
  cases hchunk
  exact ⟨s', hrun, hreads, hoffsets, hunpack⟩

end SceneText.ArchiveTool
