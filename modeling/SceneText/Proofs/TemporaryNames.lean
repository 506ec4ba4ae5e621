import Mathlib.Data.List.Perm.Subperm
import SceneText.Tool.Renaming
import SceneText.Proofs.Tracking

/-!
# Temporary names

A temporary name is a number written with thirty-two hexadecimal digits behind a fixed beginning.
Different numbers have different names. Numbers are tried in turn; since a tree has only so many
entries, a name that is free is found within as many attempts.
-/

namespace SceneText.RenamingTool

open Run FileTree List SceneText.Path
open String (ofList toList_append toList_ofList utf8ByteSize_append)

def hexDigits : List Char := "0123456789abcdef".toList

def temporary (n : Nat) : String :=
  ".tmp_rename_" ++ Hex.paddedLower 32 n

def IsTemporary (name : String) : Prop :=
  ∃ digits : List Char, name = ".tmp_rename_" ++ ofList digits ∧ digits.length = 32 ∧
    ∀ c ∈ digits, c ∈ hexDigits

def temporaryDigits (n : Nat) : List Char :=
  List.replicate (32 - (Nat.toDigits 16 n).length) '0' ++ Nat.toDigits 16 n

theorem temporary_eq (n : Nat) :
    temporary n = ".tmp_rename_" ++ ofList (temporaryDigits n) :=
  rfl

theorem mem_hexDigits_of_toDigits (n : Nat) : ∀ c ∈ Nat.toDigits 16 n, c ∈ hexDigits := by
  have hdigit : ∀ d < 16, d.digitChar ∈ hexDigits := by decide
  induction n using Nat.strongRecOn with
  | ind n ih =>
    rw [Nat.toDigits_eq_if (by decide)]
    split
    · next hlt => simpa using hdigit n hlt
    · next hge =>
      exact forall_mem_append.mpr ⟨ih (n / 16) (by omega),
        forall_mem_singleton.mpr (hdigit _ (Nat.mod_lt n (by decide)))⟩

def valueOf (digits : List Char) : Nat :=
  digits.foldl (fun v c => v * 16 + (Hex.digit? c).getD 0) 0

theorem valueOf_concat (digits : List Char) (c : Char) :
    valueOf (digits ++ [c]) = valueOf digits * 16 + (Hex.digit? c).getD 0 := by
  rw [valueOf, foldl_append]
  rfl

theorem valueOf_zeros (zeros : Nat) (digits : List Char) :
    valueOf (List.replicate zeros '0' ++ digits) = valueOf digits := by
  induction zeros with
  | zero => rfl
  | succ zeros ih =>
    exact ih

theorem valueOf_toDigits (n : Nat) : valueOf (Nat.toDigits 16 n) = n := by
  have hdigit : ∀ d < 16, Hex.digit? d.digitChar = some d := by decide
  induction n using Nat.strongRecOn with
  | ind n ih =>
    rw [Nat.toDigits_eq_if (by decide)]
    split
    · next hlt =>
      show 0 * 16 + (Hex.digit? n.digitChar).getD 0 = n
      rw [hdigit n hlt, Option.getD_some]
      omega
    · next hge =>
      rw [valueOf_concat, ih (n / 16) (by omega), hdigit _ (Nat.mod_lt n (by decide)),
        Option.getD_some]
      omega

theorem temporary_inj {m n : Nat} (h : temporary m = temporary n) : m = n := by
  have hchars := congrArg String.toList h
  rw [temporary_eq, temporary_eq, toList_append, toList_append] at hchars
  have hdigits := append_cancel_left hchars
  rw [toList_ofList, toList_ofList] at hdigits
  have hvalue := congrArg valueOf hdigits
  rwa [temporaryDigits, temporaryDigits, valueOf_zeros, valueOf_zeros, valueOf_toDigits,
    valueOf_toDigits] at hvalue

theorem isTemporary_temporary {n : Nat} (h : n < 16 ^ 32) : IsTemporary (temporary n) := by
  have hlength : (Nat.toDigits 16 n).length ≤ 32 :=
    (Nat.length_toDigits_le_iff (by decide) (by decide)).mpr h
  refine ⟨temporaryDigits n, temporary_eq n, ?_, ?_⟩
  · rw [temporaryDigits, length_append, length_replicate]
    omega
  · intro c hc
    rcases mem_append.mp hc with hc | hc
    · rw [eq_of_mem_replicate hc]
      decide
    · exact mem_hexDigits_of_toDigits n c hc

namespace IsTemporary

variable {x : String}

theorem size (h : IsTemporary x) : x.utf8ByteSize = 44 := by
  obtain ⟨digits, rfl, hlength, hdigits⟩ := h
  have hall : hexDigits.all (fun c => c.utf8Size = 1) = true := by decide
  have hone : ∀ c ∈ hexDigits, c.utf8Size = 1 :=
    fun c hc => of_decide_eq_true (all_eq_true.mp hall c hc)
  have hsize : ∀ chars : List Char, (∀ c ∈ chars, c ∈ hexDigits) →
      (ofList chars).utf8ByteSize = chars.length := by
    intro chars hchars
    induction chars with
    | nil => rfl
    | cons c chars ih =>
      rw [String.ofList_cons, utf8ByteSize_append, String.utf8ByteSize_singleton,
        hone c (hchars c (by simp)), ih fun d hd => hchars d (by simp [hd]), length_cons]
      omega
  rw [utf8ByteSize_append, hsize digits hdigits, hlength]
  rfl

theorem isName (h : IsTemporary x) : IsName x := by
  have hsize := h.size
  obtain ⟨digits, rfl, -, hdigits⟩ := h
  have habsent : ∀ c, c ∉ ".tmp_rename_".toList → c ∉ hexDigits →
      c ∉ (".tmp_rename_" ++ ofList digits).toList := by
    intro c hfront hback hc
    rw [toList_append, mem_append] at hc
    exact hc.elim hfront fun hc => hback (hdigits c (by rwa [toList_ofList] at hc))
  have hne : ∀ y : String, y.utf8ByteSize ≠ 44 → ".tmp_rename_" ++ ofList digits ≠ y := by
    rintro y hy rfl
    exact hy hsize
  exact ⟨hne _ (by decide), hne _ (by decide), hne _ (by decide),
    habsent _ (by decide) (by decide), habsent _ (by decide) (by decide), by omega⟩

theorem fits {top : String} (h : IsTemporary x) (hroom : top.utf8ByteSize + 45 < pathLimit) :
    Fits top x := by
  refine ⟨h.isName, isOverlong_eq_false.mpr ?_⟩
  have hsize := h.size
  have hslash : "/".utf8ByteSize = 1 := rfl
  rw [join_name h.isName, utf8ByteSize_append, opened]
  split
  · omega
  · rw [utf8ByteSize_append]
    omega

end IsTemporary

theorem exists_free {tree : FileTree} {dir : Location} (hroot : dir ≠ [])
    (hdir : tree.find? dir = some .directory) (start : Nat) :
    ∃ n, start < n ∧ n ≤ start + tree.entries.length ∧
      tree.find? (dir ++ [temporary n]) = none := by
  by_contra hall
  have htaken : ∀ i < tree.entries.length,
      tree.find? (dir ++ [temporary (start + 1 + i)]) ≠ none := by
    intro i hi hnone
    exact hall ⟨start + 1 + i, by omega, by omega, hnone⟩
  let taken : List Location :=
    dir :: (List.range tree.entries.length).map fun i => dir ++ [temporary (start + 1 + i)]
  have hsubset : taken ⊆ tree.entries.map Prod.fst := by
    intro l hl
    rcases mem_cons.mp hl with rfl | hl
    · exact mem_keys hroot (by simp [hdir])
    · obtain ⟨i, hi, rfl⟩ := mem_map.mp hl
      exact mem_keys (by simp) (htaken i (mem_range.mp hi))
  have hnodup : taken.Nodup := by
    refine nodup_cons.mpr ⟨by simp, ?_⟩
    rw [List.Nodup, pairwise_map]
    refine nodup_range.imp fun {i j} hne heq => hne ?_
    have hsame := temporary_inj (singleton_inj.mp (append_cancel_left heq))
    omega
  have hlength := (subperm_of_subset hnodup hsubset).length_le
  simp only [taken, length_cons, length_map, length_range] at hlength
  omega

section

variable {s : Session} {top : String} {dir : Location}

theorem eval_temporaryName (s : Session) :
    eval temporaryName s = (.ok (temporary (s.tickets + 1)), { s with tickets := s.tickets + 1 }) :=
  rfl

theorem eval_temporaryPath (tries : Nat) (hleads : s.tree.Leads s.workDir top dir)
    (hlink : s.tree.LinkFree dir) (hroom : top.utf8ByteSize + 45 < pathLimit)
    (hsupply : s.tickets + tries + 1 < 16 ^ 32) :
    ∃ n, s.tickets < n ∧ n ≤ s.tickets + tries + 1 ∧ eval (temporaryPath top tries) s =
        (.ok (join top (temporary n)), { s with tickets := n }) ∧
      (s.tree.find? (dir ++ [temporary n]) ≠ none → ∀ m, s.tickets < m → m ≤ s.tickets + tries →
        s.tree.find? (dir ++ [temporary m]) ≠ none) := by
  induction tries generalizing s with
  | zero => exact ⟨s.tickets + 1, by omega, by omega, rfl, fun _ m _ _ => by omega⟩
  | succ tries ih =>
    have hfits : Fits top (temporary (s.tickets + 1)) :=
      (isTemporary_temporary (by omega)).fits hroom
    have htaken : eval (occupied (join top (temporary (s.tickets + 1))))
        { s with tickets := s.tickets + 1 } =
          (.ok (s.tree.find? (dir ++ [temporary (s.tickets + 1)])).isSome,
            { s with tickets := s.tickets + 1 }) := eval_occupied hleads hfits hlink
    rw [temporaryPath, eval_bind_ok (eval_temporaryName s)]
    rw [eval_bind_ok htaken]
    cases hnode : s.tree.find? (dir ++ [temporary (s.tickets + 1)]) with
    | none => exact ⟨s.tickets + 1, by omega, by omega, rfl, fun h => absurd hnode h⟩
    | some node =>
      obtain ⟨n, hlow, hhigh, heval, hall⟩ :=
        @ih { s with tickets := s.tickets + 1 } hleads hlink (by dsimp only; omega)
      dsimp only at hlow hhigh heval hall
      refine ⟨n, by omega, by omega, heval, fun h m hm hm' => ?_⟩
      by_cases hfirst : m = s.tickets + 1
      · simp [hfirst, hnode]
      · exact hall h m (by omega) (by omega)

end

end SceneText.RenamingTool
