import SceneText.Archive.Container
import SceneText.Proofs.Words

/-!
# Archives are packed as they were unpacked

Data packed as literals is unpacked to itself. In an archive built from blobs every part is the blob
that was put there, so what is kept of a part is kept of it again after it has been stored anew,
whichever way it went the first time.
-/

namespace SceneText

open List

variable {data : List UInt8}

namespace Lz

theorem literals_cons (h : data ≠ []) :
    literals data =
      UInt8.ofNat ((data.take 128).length - 1) :: (data.take 128 ++ literals (data.drop 128)) := by
  rw [literals, if_neg (by simpa using h)]
  rfl

theorem unpackInto_literal {size : Nat} {out : Array UInt8} {bytes : List UInt8}
    (hpos : 0 < bytes.length) (hshort : bytes.length ≤ 128) (hroom : out.size < size)
    (rest : List UInt8) :
    unpackInto size out (UInt8.ofNat (bytes.length - 1) :: (bytes ++ rest)) =
      unpackInto size (out ++ bytes.toArray) rest := by
  have hcontrol : (UInt8.ofNat (bytes.length - 1)).toNat = bytes.length - 1 :=
    UInt8.toNat_ofNat_of_lt' (by simp [UInt8.size]; omega)
  rw [unpackInto.eq_def, if_neg (by omega)]
  simp only [hcontrol]
  rw [if_neg (by omega), Nat.sub_add_cancel hpos, take_left, drop_left, if_neg (by omega)]

theorem unpackInto_literals (size : Nat) (out : Array UInt8) (data : List UInt8)
    (h : out.size + data.length = size) :
    unpackInto size out (literals data) = .ok (some (out.toList ++ data)) := by
  induction hn : data.length using Nat.strongRecOn generalizing out data with
  | ind n ih =>
    by_cases hd : data = []
    · subst hd
      rw [unpackInto.eq_def, if_pos (by simp at h; omega), append_nil]
    · have hpos : 0 < data.length := length_pos_iff.mpr hd
      have hchunk : (data.take 128).length = min 128 data.length := length_take
      rw [literals_cons hd, unpackInto_literal (by omega) (by omega) (by omega),
        ih (data.drop 128).length (by rw [length_drop]; omega) _ _ ?_ rfl]
      · simp
      · simp only [Array.size_append, size_toArray, hchunk, length_drop]
        omega

theorem unpack_sized {n : Nat} (hn : n < 2 ^ 32) (h : n ≠ 0) (data : List UInt8) :
    unpack (word32 n ++ data) = unpackInto n #[] data := by
  have hlen := length_word32 n
  have htake : (word32 n ++ data).take 4 = word32 n := by rw [← hlen, take_left]
  have hdrop : (word32 n ++ data).drop 4 = data := by rw [← hlen, drop_left]
  simp only [unpack, htake, hdrop, ofLowBytes_word32 hn, if_neg h]
  rw [if_neg (by rw [length_append]; omega)]

theorem pack_eq (h : data.length < 2 ^ 32) :
    pack data = some (word32 data.length ++ literals data) :=
  if_pos (show _ < Width.u32.count from h)

theorem unpack_pack {packed : List UInt8} (h : pack data = some packed) (hd : data ≠ []) :
    unpack packed = .ok (some data) := by
  unfold pack at h
  split at h
  · next hlt =>
    obtain rfl := Option.some.inj h
    have hpos : data.length ≠ 0 := by simpa using hd
    rw [unpack_sized hlt hpos, unpackInto_literals _ _ _ (by simp)]
    rfl
  · cases h

end Lz

namespace Archive

def kept (chunk : List UInt8) : List UInt8 × Bool :=
  match Lz.unpack chunk with
  | .ok (some (b :: rest)) => (b :: rest, true)
  | _ => (chunk, false)

def chunks (data : List UInt8) : List Nat → List (List UInt8)
  | start :: stop :: rest => (data.drop start).take (stop - start) :: chunks data (stop :: rest)
  | _ => []

/-- What a part is known by: its name, its content, and whether it was packed. -/
def Part.face (p : Part) : String × List UInt8 × Bool :=
  (p.name, p.content, p.packed)

def faces (i : Nat) : List (List UInt8) → List (String × List UInt8 × Bool)
  | [] => []
  | chunk :: rest => (partName i, kept chunk) :: faces (i + 1) rest

def Part.stored (p : Part) : List UInt8 :=
  if p.packed then word32 p.content.length ++ Lz.literals p.content else p.content

theorem face_partOf (data : List UInt8) (i start stop : Nat) :
    (partOf data i start stop).face =
      (partName i, kept ((data.drop start).take (stop - start))) := by
  rcases hu : Lz.unpack ((data.drop start).take (stop - start)) with defect | _ | _ | ⟨b, rest⟩ <;>
    simp [partOf, kept, hu, Part.face]

theorem faces_partsFrom (data : List UInt8) (i : Nat) (index : List Nat) :
    (partsFrom data i index).map Part.face = faces i (chunks data index) := by
  induction index generalizing i with
  | nil => rfl
  | cons start rest ih =>
    cases rest with
    | nil => rfl
    | cons stop rest => rw [partsFrom, chunks, map_cons, faces, face_partOf, ih]

theorem names_faces (i : Nat) (cs : List (List UInt8)) :
    (faces i cs).map Prod.fst = (List.range' i cs.length).map partName := by
  induction cs generalizing i with
  | nil => rfl
  | cons chunk rest ih => rw [faces, map_cons, ih, length_cons, range'_succ]; rfl

theorem length_chunks (data : List UInt8) (index : List Nat) :
    (chunks data index).length = index.length - 1 := by
  induction index with
  | nil => rfl
  | cons start rest ih =>
    cases rest with
    | nil => rfl
    | cons stop rest => rw [chunks, length_cons, ih]; rfl

theorem pack_stored {p : Part} (hp : p.packed = true) (hlen : p.content.length < 2 ^ 32) :
    Lz.pack p.content = some p.stored := by
  rw [Lz.pack_eq hlen, Part.stored, if_pos hp]

theorem kept_cases (chunk : List UInt8) :
    (∃ b rest, kept chunk = (b :: rest, true)) ∨ kept chunk = (chunk, false) := by
  unfold kept
  split
  · exact .inl ⟨_, _, rfl⟩
  · exact .inr rfl

theorem kept_stored {p : Part} {chunk : List UInt8} (h : (p.content, p.packed) = kept chunk)
    (hlen : p.packed = true → p.content.length < 2 ^ 32) : kept p.stored = kept chunk := by
  rcases kept_cases chunk with ⟨b, rest, hk⟩ | hk
  · obtain ⟨hc, hp⟩ := Prod.mk.inj (h.trans hk)
    have hunpack := Lz.unpack_pack (pack_stored hp (hlen hp)) (by rw [hc]; simp)
    rw [hc] at hunpack
    rw [hk, kept, hunpack]
  · obtain ⟨hc, hp⟩ := Prod.mk.inj (h.trans hk)
    rw [Part.stored, if_neg (by rw [hp]; simp), hc]

theorem faces_stored (data : List UInt8) (i : Nat) (index : List Nat)
    (hlen : ∀ p ∈ partsFrom data i index, p.packed = true → p.content.length < 2 ^ 32) :
    faces i ((partsFrom data i index).map Part.stored) =
      (partsFrom data i index).map Part.face := by
  induction index generalizing i with
  | nil => rfl
  | cons start rest ih =>
    cases rest with
    | nil => rfl
    | cons stop rest =>
      rw [partsFrom] at hlen ⊢
      have hface := face_partOf data i start stop
      have hkept : kept (partOf data i start stop).stored = _ :=
        kept_stored (Prod.mk.inj hface).2 (hlen _ (by simp))
      rw [map_cons, map_cons, faces, ih _ fun p hp => hlen p (by simp [hp]), hkept, hface]

theorem words_flatMap (index : List Nat) (h : ∀ n ∈ index, n < 2 ^ 32) (rest : List UInt8) :
    words index.length (index.flatMap word32 ++ rest) = some index := by
  induction index with
  | nil => rfl
  | cons n index ih =>
    have hlen := length_word32 n
    have htake : (word32 n ++ (index.flatMap word32 ++ rest)).take 4 = word32 n := by
      rw [← hlen, take_left]
    have hdrop : (word32 n ++ (index.flatMap word32 ++ rest)).drop 4 =
        index.flatMap word32 ++ rest := by
      rw [← hlen, drop_left]
    rw [length_cons, words, flatMap_cons, append_assoc, htake, hdrop,
      ih fun m hm => h m (by simp [hm]), ofLowBytes_word32 (h n (by simp)),
      if_neg (by rw [length_append]; omega)]
    rfl

theorem words_some (n : Nat) (data : List UInt8) (h : 4 * n ≤ data.length) :
    ∃ ws, words n data = some ws ∧ ws.length = n ∧ (∀ w ∈ ws, w < 2 ^ 32) ∧
      (0 < n → ws.head? = some (ofLowBytes (data.take 4))) := by
  induction n generalizing data with
  | zero => exact ⟨[], rfl, rfl, by simp, by omega⟩
  | succ n ih =>
    obtain ⟨ws, hws, hlen, hsmall, -⟩ := ih (data.drop 4) (by rw [length_drop]; omega)
    refine ⟨ofLowBytes (data.take 4) :: ws, ?_, by simp [hlen], ?_, fun _ => rfl⟩
    · rw [words, if_neg (by omega), hws]
      rfl
    · have hword := ofLowBytes_lt (data.take 4)
      rw [length_take, Nat.min_eq_left (by omega)] at hword
      exact forall_mem_cons.mpr ⟨hword, hsmall⟩

/-- The number of parts that the head of an archive announces. -/
def partCount (data : List UInt8) : Nat :=
  ofLowBytes (data.take 4) + 1

theorem parts_ok (data : List UInt8) (hindex : 4 + 4 * partCount data ≤ data.length)
    (hfirst : ofLowBytes ((data.drop 4).take 4) = 4 + 4 * partCount data) :
    ∃ index, index.length = partCount data ∧ (∀ n ∈ index, n < 2 ^ 32) ∧
      parts data = .ok (partsFrom data 0 (index ++ [data.length])) := by
  have hpos : 0 < partCount data := Nat.succ_pos _
  obtain ⟨ws, hws, hlen, -, hhead⟩ := words_some 1 data (by omega)
  obtain ⟨index, hi, hlen', hsmall, hhead'⟩ :=
    words_some (partCount data) (data.drop 4) (by rw [length_drop]; omega)
  refine ⟨index, hlen', hsmall, ?_⟩
  obtain ⟨last, rest, rfl⟩ : ∃ last rest, ws = last :: rest := by
    cases ws with
    | nil => simp at hlen
    | cons last rest => exact ⟨last, rest, rfl⟩
  have hlast : last = ofLowBytes (data.take 4) := Option.some.inj (hhead (by omega))
  subst hlast
  have hfirst' : index.head? = some (partCount data * 4 + 4) := by
    rw [hhead' (by omega), hfirst, Nat.mul_comm, Nat.add_comm]
  simp only [parts, offsets, hws, show words (ofLowBytes (data.take 4) + 1) _ = _ from hi,
    if_pos (show index.head? = some ((ofLowBytes (data.take 4) + 1) * 4 + 4) from hfirst')]

theorem span_lt (data : List UInt8) {bound : Nat} (i : Nat) (index : List Nat)
    (h : ∀ n ∈ index, n < bound) : ∀ p ∈ partsFrom data i index, p.span.natAbs < bound := by
  induction index generalizing i with
  | nil => simp [partsFrom]
  | cons start rest ih =>
    cases rest with
    | nil => simp [partsFrom]
    | cons stop rest =>
      have hstart := h start (by simp)
      have hstop := h stop (by simp)
      have hspan : (partOf data i start stop).span = (stop : Int) - start := by
        unfold partOf
        dsimp only
        split <;> rfl
      refine forall_mem_cons.mpr ⟨?_, ih (i + 1) fun n hn => h n (mem_cons_of_mem _ hn)⟩
      omega

theorem length_begins (cursor : Nat) (blobs : List (List UInt8)) :
    (begins cursor blobs).length = blobs.length := by
  induction blobs generalizing cursor with
  | nil => rfl
  | cons blob rest ih => rw [begins, length_cons, length_cons, ih]

theorem begins_head (cursor : Nat) (blobs : List (List UInt8)) :
    ∃ tail, begins cursor blobs ++ [cursor + blobs.flatten.length] = cursor :: tail := by
  cases blobs with
  | nil => exact ⟨[], rfl⟩
  | cons blob rest => exact ⟨_, rfl⟩

theorem chunks_begins (front : List UInt8) (blobs : List (List UInt8)) :
    chunks (front ++ blobs.flatten)
      (begins front.length blobs ++ [front.length + blobs.flatten.length]) = blobs := by
  induction blobs generalizing front with
  | nil => rfl
  | cons blob rest ih =>
    -- The first blob goes to the front, behind which the others are chunks.
    have hih := ih (front ++ blob)
    rw [length_append, append_assoc] at hih
    rw [begins, flatten_cons, length_append, ← Nat.add_assoc]
    obtain ⟨tail, htail⟩ := begins_head (front.length + blob.length) rest
    rw [htail] at hih
    rw [cons_append, htail, chunks, hih, drop_left, Nat.add_sub_cancel_left, take_left]

theorem length_words (index : List Nat) : (index.flatMap word32).length = 4 * index.length := by
  induction index with
  | nil => rfl
  | cons n index ih =>
    rw [flatMap_cons, length_append, ih, length_word32, length_cons]
    omega

theorem offsets_header (last : Nat) {index : List Nat} (body : List UInt8) (hlast : last < 2 ^ 32)
    (hlen : index.length = last + 1) (hsmall : ∀ n ∈ index, n < 2 ^ 32)
    (hfirst : index.head? = some ((last + 1) * 4 + 4)) :
    offsets (word32 last ++ index.flatMap word32 ++ body) =
      .ok (index ++ [(word32 last ++ index.flatMap word32 ++ body).length]) := by
  have hcount : words 1 (word32 last ++ index.flatMap word32 ++ body) = some [last] := by
    have h := words_flatMap [last] (by simpa using hlast) (index.flatMap word32 ++ body)
    simpa [append_assoc] using h
  have hdrop : (word32 last ++ index.flatMap word32 ++ body).drop 4 =
      index.flatMap word32 ++ body := by
    rw [append_assoc, ← length_word32 last, drop_left]
  have hindex := words_flatMap index hsmall body
  rw [hlen] at hindex
  simp only [offsets, hcount, hdrop, hindex, if_pos hfirst]

def laidOut (blobs : List (List UInt8)) : List UInt8 :=
  word32 (blobs.length - 1) ++ (begins (4 + 4 * blobs.length) blobs).flatMap word32 ++ blobs.flatten

section laidOut

variable {blobs : List (List UInt8)} (hne : blobs ≠ [])
  (hsmall : ∀ n ∈ begins (4 + 4 * blobs.length) blobs, n < 2 ^ 32)
include hne

theorem head_begins :
    (begins (4 + 4 * blobs.length) blobs).head? = some (4 + 4 * blobs.length) := by
  obtain ⟨blob, rest, rfl⟩ := exists_cons_of_ne_nil hne
  rfl

include hsmall

theorem build_eq : build blobs = .ok (laidOut blobs) := by
  have hfits : ¬((blobs.isEmpty || (begins (4 + 4 * blobs.length) blobs).any
      (Width.u32.count ≤ ·)) = true) := by
    simp only [Bool.or_eq_true, List.isEmpty_iff, hne, any_eq_true, decide_eq_true_eq, false_or,
      not_exists, not_and, Nat.not_le]
    exact hsmall
  exact if_neg hfits

theorem offsets_laidOut : offsets (laidOut blobs) =
    .ok (begins (4 + 4 * blobs.length) blobs ++ [(laidOut blobs).length]) := by
  have hpos : 0 < blobs.length := length_pos_iff.mpr hne
  have hfour := hsmall _ (mem_of_mem_head? (head_begins hne))
  exact offsets_header (blobs.length - 1) blobs.flatten (by omega) (by rw [length_begins]; omega)
    hsmall (by rw [head_begins hne]; congr 1; omega)

end laidOut

theorem chunks_laidOut (blobs : List (List UInt8)) :
    chunks (laidOut blobs) (begins (4 + 4 * blobs.length) blobs ++ [(laidOut blobs).length]) =
      blobs := by
  have hfront : (word32 (blobs.length - 1) ++
      (begins (4 + 4 * blobs.length) blobs).flatMap word32).length = 4 + 4 * blobs.length := by
    rw [length_append, length_word32, length_words, length_begins]
  have hchunks := chunks_begins (word32 (blobs.length - 1) ++
    (begins (4 + 4 * blobs.length) blobs).flatMap word32) blobs
  rw [hfront] at hchunks
  rw [laidOut, length_append, hfront]
  exact hchunks

theorem parts_build {blobs : List (List UInt8)} (hne : blobs ≠ [])
    (hsmall : ∀ n ∈ begins (4 + 4 * blobs.length) blobs, n < 2 ^ 32) :
    ∃ data, build blobs = .ok data ∧ ∃ ps, parts data = .ok ps ∧
      ps.map Part.face = faces 0 blobs := by
  refine ⟨_, build_eq hne hsmall, _, by rw [parts, offsets_laidOut hne hsmall], ?_⟩
  rw [faces_partsFrom, chunks_laidOut]

end Archive
end SceneText
