import Mathlib.Data.List.Forall2
import Mathlib.Data.List.Induction
import SceneText.Json.Access

/-!
# Lists

Occurrences in a text, steps that may fault, taken for every item of a list until the first fault,
lists without the repetitions of their items, and look-up in a list of pairs, in particular among
the fields of a record one of which has been set.
-/

namespace SceneText

open List Json

variable {α β : Type} {R : α → β → Prop} {xs : List α} {ys : List β} {a : α} {pairs : List (α × β)}
  {key : String} {fields : Fields} {x : Except Fault α} {f : α → Except Fault β}

theorem occurs_iff {needle text : List Char} :
    Text.occurs needle text = true ↔ needle <:+: text := by
  induction text with
  | nil => simp [Text.occurs]
  | cons c text ih => simp [Text.occurs, ih, infix_cons_iff]

theorem exists_left (h : List.Forall₂ R xs ys) {y : β} (hy : y ∈ ys) : ∃ x ∈ xs, R x y := by
  induction h with
  | nil => simp at hy
  | @cons a b as bs hab _ ih =>
    rcases mem_cons.mp hy with rfl | hy
    · exact ⟨a, by simp, hab⟩
    · obtain ⟨x, hx, hxy⟩ := ih hy
      exact ⟨x, by simp [hx], hxy⟩

theorem exists_right (h : List.Forall₂ R xs ys) {x : α} (hx : x ∈ xs) : ∃ y ∈ ys, R x y :=
  exists_left (List.Forall₂.flip (R := flip R) h) hx

theorem lookup_cons_ne [BEq α] [LawfulBEq α] {k : α} (h : a ≠ k) (v : β) (pairs : List (α × β)) :
    ((k, v) :: pairs).lookup a = pairs.lookup a := by
  rw [lookup_cons, beq_eq_false_iff_ne.mpr h]

theorem lookup_of_mem [BEq α] [LawfulBEq α] (hk : (pairs.map Prod.fst).Nodup) {b : β}
    (h : (a, b) ∈ pairs) : pairs.lookup a = some b := by
  induction pairs with
  | nil => simp at h
  | cons p pairs ih =>
    obtain ⟨k, v⟩ := p
    rw [map_cons, nodup_cons] at hk
    rcases mem_cons.mp h with heq | hmem
    · simp [Prod.mk.inj heq]
    · have hne : a ≠ k := fun e => hk.1 (mem_map.mpr ⟨_, hmem, e⟩)
      rw [lookup_cons_ne hne]
      exact ih hk.2 hmem

theorem lookup_map {γ δ : Type} [BEq α] [LawfulBEq α] [BEq γ] [LawfulBEq γ] (φ : α → γ)
    (ψ : β → δ) {c : γ} (h : ∀ p ∈ pairs, φ p.1 = c ↔ p.1 = a) :
    (pairs.map fun p => (φ p.1, ψ p.2)).lookup c = (pairs.lookup a).map ψ := by
  induction pairs with
  | nil => rfl
  | cons p pairs ih =>
    have hrest := ih fun q hq => h q (mem_cons_of_mem _ hq)
    rw [map_cons, lookup_cons, lookup_cons, hrest]
    by_cases hp : p.1 = a
    · rw [(h p mem_cons_self).mpr hp, hp, beq_self_eq_true, beq_self_eq_true]
      rfl
    · have hφ : φ p.1 ≠ c := fun hc => hp ((h p mem_cons_self).mp hc)
      rw [beq_false_of_ne (Ne.symm hp), beq_false_of_ne (Ne.symm hφ)]

theorem eraseDups_concat [BEq α] [LawfulBEq α] (xs : List α) (x : α) :
    (xs ++ [x]).eraseDups = if x ∈ xs then xs.eraseDups else xs.eraseDups ++ [x] := by
  by_cases hmem : x ∈ xs
  · simp [eraseDups_append, removeAll, hmem]
  · simp [eraseDups_append, removeAll, hmem, eraseDups_cons]

theorem nodup_eraseDups [BEq α] [LawfulBEq α] (xs : List α) : xs.eraseDups.Nodup := by
  induction xs using reverseRecOn with
  | nil => exact nodup_nil
  | append_singleton xs x ih =>
    rw [eraseDups_concat]
    split
    · exact ih
    · next hmem =>
      refine nodup_append.mpr ⟨ih, by simp, fun y hy z hz hyz => hmem ?_⟩
      rw [← eq_of_mem_singleton hz, ← hyz]
      exact mem_eraseDups.mp hy

theorem Json.has_obj (fields : Fields) (key : String) :
    has (.obj fields) key = .ok (fields.lookup key).isSome := by
  rw [has, Except.ok.injEq]
  induction fields with
  | nil => rfl
  | cons f fields ih =>
    obtain ⟨k, v⟩ := f
    by_cases hk : key = k
    · simp [hk]
    · simp [lookup_cons_ne hk, Ne.symm hk, ih]

theorem Json.isTrue_iff (v : Json) : v.isTrue = true ↔ v = .bool true := by
  constructor
  · intro h
    unfold isTrue at h
    split at h
    · rfl
    · cases h
  · rintro rfl
    rfl

theorem Json.joinable_chars (i : Nat) (chars : List Char) :
    joinable i (chars.map fun c => .str (String.singleton c)) =
      .ok (chars.map String.singleton) := by
  induction chars generalizing i with
  | nil => rfl
  | cons c chars ih =>
    rw [map_cons, joinable, ih]
    rfl

theorem lookup_setField (key k : String) (v : Json) (fields : Fields) :
    (setField key v fields).lookup k = if k = key then some v else fields.lookup k := by
  induction fields with
  | nil =>
    by_cases h : k = key
    · simp [setField, h]
    · simp [setField, lookup_cons_ne h, h]
  | cons f fields ih =>
    obtain ⟨k', v'⟩ := f
    rw [setField]
    by_cases hk : k' = key
    · subst hk
      by_cases h : k = k'
      · simp [h]
      · simp [lookup_cons_ne h, h]
    · rw [if_neg hk]
      by_cases h : k = k'
      · simp [h, hk]
      · rw [lookup_cons_ne h, lookup_cons_ne h, ih]

theorem setField_same {v : Json} (h : fields.lookup key = some v) :
    setField key v fields = fields := by
  induction fields with
  | nil => cases h
  | cons f fields ih =>
    obtain ⟨k, v'⟩ := f
    by_cases hk : k = key
    · subst hk
      rw [lookup_cons_self] at h
      rw [setField, if_pos rfl, Option.some.inj h]
    · rw [lookup_cons_ne (Ne.symm hk)] at h
      rw [setField, if_neg hk, ih h]

theorem setField_setField (key : String) (v w : Json) (fields : Fields) :
    setField key w (setField key v fields) = setField key w fields := by
  induction fields with
  | nil => simp [setField]
  | cons f fields ih =>
    obtain ⟨k, v'⟩ := f
    by_cases hk : k = key
    · simp [setField, hk]
    · simp [setField, hk, ih]

theorem any_eq_isSome (fields : Fields) (key : String) :
    (fields.any fun f => f.1 = key) = (fields.lookup key).isSome :=
  Except.ok.inj (has_obj fields key)

theorem lookup_dropField (fields : Fields) (key k : String) :
    (dropField key fields).lookup k = if k = key then none else fields.lookup k := by
  induction fields with
  | nil => simp [dropField]
  | cons f fields ih =>
    obtain ⟨k', v⟩ := f
    rw [dropField, filter_cons]
    by_cases hdrop : k' = key
    · rw [if_neg (by simpa using hdrop)]
      by_cases hk : k = key
      · rw [if_pos hk] at ih ⊢
        exact ih
      · rw [lookup_cons_ne (by rwa [hdrop])]
        exact ih
    · rw [if_pos (by simpa using hdrop)]
      by_cases hk : k = k'
      · rw [hk, lookup_cons_self, lookup_cons_self, if_neg hdrop]
      · rw [lookup_cons_ne hk, lookup_cons_ne hk]
        exact ih

theorem dropField_absent (h : fields.lookup key = none) : dropField key fields = fields := by
  have hany := any_eq_isSome fields key
  rw [h, Option.isSome_none, any_eq_false] at hany
  rw [dropField, filter_eq_self]
  intro f hf
  simpa using hany f hf

theorem dropField_setField (key : String) (v : Json) (fields : Fields) :
    dropField key (setField key v fields) = dropField key fields := by
  induction fields with
  | nil => simp [setField, dropField]
  | cons f fields ih =>
    obtain ⟨k, w⟩ := f
    rw [setField]
    by_cases hk : k = key
    · simp [dropField, hk]
    · rw [dropField, dropField] at ih
      rw [if_neg hk, dropField, dropField, filter_cons, filter_cons, ih]

namespace Fault

variable {fault : Fault}

theorem bind_ok {b : β} (h : x >>= f = .ok b) : ∃ a, x = .ok a ∧ f a = .ok b := by
  cases x with
  | error fault => cases h
  | ok a => exact ⟨a, rfl, h⟩

theorem bind_error (h : x >>= f = .error fault) :
    x = .error fault ∨ ∃ a, x = .ok a ∧ f a = .error fault := by
  cases x with
  | error fault' => exact .inl (congrArg Except.error (Except.error.inj h))
  | ok a => exact .inr ⟨a, rfl, h⟩

theorem mapM_congr {g : α → Except Fault β} (h : ∀ x ∈ xs, f x = g x) : xs.mapM f = xs.mapM g := by
  induction xs with
  | nil => rfl
  | cons x xs ih =>
    rw [mapM_cons, mapM_cons, h x (by simp), ih fun y hy => h y (by simp [hy])]

theorem mapM_ok (f : α → Except Fault β) (g : α → β) (xs : List α) (h : ∀ x ∈ xs, f x = .ok (g x)) :
    xs.mapM f = .ok (xs.map g) := by
  induction xs with
  | nil => rfl
  | cons x xs ih =>
    rw [mapM_cons, h x (by simp), ih fun y hy => h y (by simp [hy])]
    rfl

theorem ok_of_mapM (h : xs.mapM f = .ok ys) {x : α} (hx : x ∈ xs) : ∃ y, f x = .ok y := by
  induction xs generalizing ys with
  | nil => cases hx
  | cons a xs ih =>
    rw [mapM_cons] at h
    obtain ⟨b, hb, h⟩ := bind_ok h
    obtain ⟨bs, hbs, -⟩ := bind_ok h
    rcases mem_cons.mp hx with rfl | hx
    · exact ⟨b, hb⟩
    · exact ih hbs hx

theorem mapM_error_iff :
    xs.mapM f = .error fault ↔ ∃ front x back, xs = front ++ x :: back ∧
      (∀ y ∈ front, ∃ z, f y = .ok z) ∧ f x = .error fault := by
  constructor
  · intro h
    induction xs with
    | nil => cases h
    | cons x xs ih =>
      rw [mapM_cons] at h
      rcases bind_error h with hx | ⟨z, hz, h⟩
      · exact ⟨[], x, xs, rfl, by simp, hx⟩
      · rcases bind_error h with hrest | ⟨zs, -, h⟩
        · obtain ⟨front, y, back, rfl, hfront, hy⟩ := ih hrest
          refine ⟨x :: front, y, back, rfl, ?_, hy⟩
          exact forall_mem_cons.mpr ⟨⟨z, hz⟩, hfront⟩
        · cases h
  · rintro ⟨front, x, back, rfl, hfront, hx⟩
    induction front with
    | nil =>
      rw [nil_append, mapM_cons, hx]
      rfl
    | cons y front ih =>
      obtain ⟨⟨z, hz⟩, hfront⟩ := forall_mem_cons.mp hfront
      rw [cons_append, mapM_cons, hz, ih hfront]
      rfl

theorem mapM_error (f : α → Except Fault β) (P : Fault → Prop) (xs : List α)
    (h : ∀ x ∈ xs, (∃ y, f x = .ok y) ∨ ∃ fault, f x = .error fault ∧ P fault)
    (herr : ∃ x ∈ xs, ∃ fault, f x = .error fault) :
    ∃ fault, xs.mapM f = .error fault ∧ P fault := by
  cases hm : xs.mapM f with
  | ok ys =>
    obtain ⟨x, hx, fault, hf⟩ := herr
    obtain ⟨y, hy⟩ := ok_of_mapM hm hx
    cases hy.symm.trans hf
  | error fault =>
    obtain ⟨front, x, back, rfl, -, hx⟩ := mapM_error_iff.mp hm
    rcases h x (by simp) with ⟨y, hy⟩ | ⟨fault', hf, hp⟩
    · cases hy.symm.trans hx
    · cases hf.symm.trans hx
      exact ⟨_, rfl, hp⟩

end Fault
end SceneText
