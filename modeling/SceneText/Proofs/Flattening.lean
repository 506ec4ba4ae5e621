import SceneText.Proofs.Lists
import SceneText.Script.Signature

/-!
# Flattened tables are the spelled paths

A nested table is flattened by setting one entry for every path from its top to a list of fields, in
the order in which the paths are met. The signature of the entry is spelled by the keys on the path,
to which a default adds nothing. Several paths may spell one signature: the last of them gives its
fields, and the first of them its place.
-/

namespace SceneText.SignatureTable

open List

variable {table entries : List (SignatureKey × SignatureEntry)} {flat : FlatTable}

mutual

/-- The paths of a nested table, depth first, each with the fields that it leads to. -/
def paths : List (SignatureKey × SignatureEntry) → List (List SignatureKey × List FieldSpec)
  | [] => []
  | (key, entry) :: rest => (pathsOf entry).map (fun p => (key :: p.1, p.2)) ++ paths rest
termination_by structural entries => entries

def pathsOf : SignatureEntry → List (List SignatureKey × List FieldSpec)
  | .fields specs => [([], specs)]
  | .table entries => paths entries
termination_by structural entry => entry

end

def keyBytes : SignatureKey → List UInt8
  | .bytes signature => signature
  | .default => []

def spelled (keys : List SignatureKey) : List UInt8 :=
  keys.flatMap keyBytes

/-- A nested table whose keys are non-empty signatures. Below the top a list of fields may also
stand under the default. -/
inductive Proper : Bool → List (SignatureKey × SignatureEntry) → Prop
  | nil (top : Bool) : Proper top []
  | fields {top : Bool} {signature : List UInt8} {specs : List FieldSpec}
      {rest : List (SignatureKey × SignatureEntry)} (filled : signature ≠ [])
      (there : Proper top rest) : Proper top ((.bytes signature, .fields specs) :: rest)
  | table {top : Bool} {signature : List UInt8}
      {inner rest : List (SignatureKey × SignatureEntry)} (filled : signature ≠ [])
      (below : Proper false inner) (there : Proper top rest) :
      Proper top ((.bytes signature, .table inner) :: rest)
  | default {specs : List FieldSpec} {rest : List (SignatureKey × SignatureEntry)}
      (there : Proper false rest) : Proper false ((.default, .fields specs) :: rest)

def setAll (lead : List UInt8) (found : List (List SignatureKey × List FieldSpec))
    (flat : FlatTable) : FlatTable :=
  found.foldl (fun flat p => insert (.bytes (lead ++ spelled p.1)) p.2 flat) flat

theorem setAll_append (lead : List UInt8) (found more : List (List SignatureKey × List FieldSpec))
    (flat : FlatTable) :
    setAll lead (found ++ more) flat = setAll lead more (setAll lead found flat) :=
  foldl_append

theorem setAll_below (lead signature : List UInt8)
    (found : List (List SignatureKey × List FieldSpec)) (flat : FlatTable) :
    setAll lead (found.map fun p => (.bytes signature :: p.1, p.2)) flat =
      setAll (lead ++ signature) found flat := by
  rw [setAll, foldl_map, setAll]
  simp only [spelled, flatMap_cons, keyBytes, append_assoc]

theorem setAll_fields (lead : List UInt8) (key : SignatureKey) (specs : List FieldSpec)
    (flat : FlatTable) :
    setAll lead ((pathsOf (.fields specs)).map fun p => (key :: p.1, p.2)) flat =
      insert (.bytes (lead ++ spelled [key])) specs flat := rfl

theorem spelled_bytes (signature : List UInt8) : spelled [.bytes signature] = signature :=
  append_nil signature

theorem flattenBelow_eq {top : Bool} (h : Proper top entries) {lead : List UInt8}
    (hlead : lead ≠ []) (flat : FlatTable) :
    flattenBelow (.bytes lead) entries flat = .ok (setAll lead (paths entries) flat) := by
  induction h generalizing lead flat with
  | nil => rfl
  | fields _ _ ih =>
    rw [flattenBelow, flattenEntry, paths, setAll_append, setAll_fields, spelled_bytes]
    exact ih hlead _
  | @table _ signature _ _ _ _ _ below ih =>
    rw [flattenBelow, flattenEntry, paths, pathsOf, setAll_append, setAll_below,
      below (append_ne_nil_of_left_ne_nil hlead signature)]
    exact ih hlead _
  | default _ ih =>
    obtain ⟨b, bs, rfl⟩ := exists_cons_of_ne_nil hlead
    rw [flattenBelow, flattenEntry, paths, setAll_append, setAll_fields, spelled, flatMap_singleton,
      keyBytes, append_nil]
    · exact ih hlead _
    · exact fun h => nomatch h

theorem flatten_eq (h : Proper true table) (flat : FlatTable) :
    flatten table flat = .ok (setAll [] (paths table) flat) := by
  generalize htop : true = top at h
  induction h generalizing flat with
  | nil => rfl
  | fields _ _ ih =>
    rw [flatten, paths, setAll_append, setAll_fields, spelled_bytes, nil_append]
    exact ih _ htop
  | table filled below _ _ ih =>
    rw [flatten, paths, pathsOf, setAll_append, setAll_below, flattenBelow_eq below filled]
    exact ih _ htop
  | default => cases htop

variable {α : Type}

theorem keys_insert (key : SignatureKey) (x : α) (flat : List (SignatureKey × α)) :
    (insert key x flat).map Prod.fst =
      if key ∈ flat.map Prod.fst then flat.map Prod.fst else flat.map Prod.fst ++ [key] := by
  induction flat with
  | nil => rfl
  | cons e flat ih =>
    obtain ⟨k, y⟩ := e
    rw [insert]
    by_cases hk : k = key
    · simp [hk]
    · rw [if_neg hk, map_cons, ih]
      by_cases hmem : key ∈ flat.map Prod.fst
      · simp [hmem]
      · simp [hmem, Ne.symm hk]

theorem lookup_insert (key k : SignatureKey) (x : α) (flat : List (SignatureKey × α)) :
    (insert key x flat).lookup k = if k = key then some x else flat.lookup k := by
  induction flat with
  | nil =>
    by_cases hk : k = key
    · simp [insert, hk]
    · simp [insert, lookup_cons_ne hk, hk]
  | cons e flat ih =>
    obtain ⟨k', y⟩ := e
    rw [insert]
    by_cases hk' : k' = key
    · subst hk'
      by_cases hk : k = k'
      · simp [hk]
      · simp [lookup_cons_ne hk, hk]
    · rw [if_neg hk']
      by_cases hk : k = k'
      · simp [hk, hk']
      · rw [lookup_cons_ne hk, lookup_cons_ne hk, ih]

/-- The signatures that the paths of a table spell, in the order of the paths. -/
def spellings (found : List (List SignatureKey × List FieldSpec)) : List SignatureKey :=
  found.map fun p => .bytes (spelled p.1)

theorem keys_setAll (found : List (List SignatureKey × List FieldSpec)) :
    (setAll [] found []).map Prod.fst = (spellings found).eraseDups := by
  induction found using reverseRecOn with
  | nil => rfl
  | append_singleton found p ih =>
    have hspellings : spellings (found ++ [p]) = spellings found ++ [.bytes (spelled p.1)] :=
      map_append
    rw [setAll_append, setAll, foldl_cons, foldl_nil, keys_insert, ih, hspellings, eraseDups_concat]
    simp only [mem_eraseDups, nil_append]

theorem lookup_setAll (found : List (List SignatureKey × List FieldSpec)) (signature : List UInt8) :
    (setAll [] found []).lookup (.bytes signature) =
      (found.filter fun p => spelled p.1 = signature).getLast?.map Prod.snd := by
  induction found using reverseRecOn with
  | nil => rfl
  | append_singleton found p ih =>
    rw [setAll_append, setAll, foldl_cons, foldl_nil, lookup_insert, ih, filter_append]
    by_cases hp : spelled p.1 = signature
    · simp [hp]
    · simp [hp, Ne.symm hp]

theorem eraseDups_pairwise [BEq α] [LawfulBEq α] (xs : List α) :
    xs.eraseDups.Pairwise fun a b => xs.idxOf a < xs.idxOf b := by
  induction xs using reverseRecOn with
  | nil => exact .nil
  | append_singleton xs x ih =>
    have hkept : xs.eraseDups.Pairwise fun a b => (xs ++ [x]).idxOf a < (xs ++ [x]).idxOf b := by
      refine ih.imp_of_mem fun {a b} ha hb hlt => ?_
      rwa [idxOf_append_of_mem (mem_eraseDups.mp ha), idxOf_append_of_mem (mem_eraseDups.mp hb)]
    rw [eraseDups_concat]
    by_cases hx : x ∈ xs
    · rwa [if_pos hx]
    · rw [if_neg hx, pairwise_append]
      refine ⟨hkept, pairwise_singleton _ _, fun a ha b hb => ?_⟩
      obtain rfl := mem_singleton.mp hb
      have hlt := idxOf_lt_length_iff.mpr (mem_eraseDups.mp ha)
      rw [idxOf_append_of_mem (mem_eraseDups.mp ha), idxOf_append_of_notMem hx]
      omega

/-- Flattening a nested table succeeds. A signature is in the flat table exactly if some path spells
it, with the fields of the last such path, and signatures stand in the order of the first paths that
spell them. -/
theorem flatten_spells_paths (h : Proper true table) :
    ∃ flat, flatten table [] = .ok flat ∧
      (∀ key, key ∈ flat.map Prod.fst ↔ ∃ p ∈ paths table, .bytes (spelled p.1) = key) ∧
      (∀ signature, flat.lookup (.bytes signature) =
        ((paths table).filter fun p => spelled p.1 = signature).getLast?.map Prod.snd) ∧
      (flat.map Prod.fst).Pairwise fun a b =>
        (spellings (paths table)).idxOf a < (spellings (paths table)).idxOf b := by
  refine ⟨_, flatten_eq h [], fun key => ?_, lookup_setAll (paths table), ?_⟩
  · rw [keys_setAll, mem_eraseDups, spellings, mem_map]
  · rw [keys_setAll]
    exact eraseDups_pairwise _

def echoTable : List (SignatureKey × SignatureEntry) :=
  [(.bytes [1], .table [(.bytes [2], .fields [.text]), (.default, .fields [])]),
   (.bytes [1, 2], .fields [.int .u8])]

theorem flatten_spells_paths_echo :
    Proper true echoTable ∧ ∃ flat, flatten echoTable [] = .ok flat ∧
      flat.lookup (.bytes [1, 2]) = some [.int .u8] ∧ flat.lookup (.bytes [1]) = some [] := by
  have hproper : Proper true echoTable :=
    .table (by decide) (.fields (by decide) (.default (.nil false)))
      (.fields (by decide) (.nil true))
  obtain ⟨flat, hflat, -, hlookup, -⟩ := flatten_spells_paths hproper
  exact ⟨hproper, flat, hflat, hlookup [1, 2], hlookup [1]⟩

end SceneText.SignatureTable
