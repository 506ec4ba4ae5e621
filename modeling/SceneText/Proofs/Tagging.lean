import SceneText.Entry.Preparation
import SceneText.Proofs.Lists

/-!
# Tags at the head of a message

A tag is put before what is there already, so that the tags a message gets stand in the opposite
order of the table. They are taken off in the order of the table. This undoes the tagging of a
message that starts with no tag exactly if its fields call for one tag at most: otherwise the tag
that is looked for first stands behind the one that was put on last.
-/

namespace SceneText.Entry

open Json String
open Text (hasPrefix)

variable {text : String}

def Distinguished (a b : String) : Prop :=
  ¬ a.toList <+: b.toList ∧ ¬ b.toList <+: a.toList

instance (a b : String) : Decidable (Distinguished a b) :=
  inferInstanceAs (Decidable (_ ∧ _))

def calledTags (fields : Fields) (table : List (String × String)) : List String :=
  (table.filter fun p => (fields.lookup p.1).any isTrue).map Prod.snd

section
variable {fields : Fields} {table : List (String × String)} {key tag : String}
  {said : List String}

theorem isSet_obj (fields : Fields) (key : String) :
    isSet (.obj fields) key = .ok ((fields.lookup key).any isTrue) := by
  rw [isSet, has_obj, field]
  cases fields.lookup key <;> rfl

theorem isSet_iff : (fields.lookup key).any isTrue = true ↔
    fields.lookup key = some (.bool true) := by
  cases fields.lookup key with
  | none => simp
  | some v => simp [isTrue_iff]

theorem calledTags_set (h : (fields.lookup key).any isTrue = true) :
    calledTags fields ((key, tag) :: table) = tag :: calledTags fields table := by
  simp [calledTags, h]

theorem calledTags_unset (h : (fields.lookup key).any isTrue = false) :
    calledTags fields ((key, tag) :: table) = calledTags fields table := by
  simp [calledTags, h]

theorem hasPrefix_iff {start : String} :
    hasPrefix text start = true ↔ start.toList <+: text.toList :=
  List.isPrefixOf_iff_prefix

theorem Distinguished.not_in_front {a b : String} (h : Distinguished a b) (text : String) :
    hasPrefix (a ++ text) b = false := by
  rw [Bool.eq_false_iff, Ne, hasPrefix_iff, toList_append]
  intro hprefix
  rcases List.prefix_or_prefix_of_prefix hprefix (List.prefix_append _ _) with hba | hab
  · exact h.2 hba
  · exact h.1 hab

theorem tagMessage_set (table : List (String × String))
    (h : (fields.lookup key).any isTrue = true) (hfresh : hasPrefix text tag = false) :
    ∃ line, tagMessage (.obj fields) ((key, tag) :: table) (.str text) =
      (tagMessage (.obj fields) table (.str (tag ++ text))).map fun r => (r.1, line :: r.2) := by
  refine ⟨s!"  添加标记: 在message字段前添加了{tag} (基于字段 {key})", ?_⟩
  rw [tagMessage, isSet_obj, h]
  dsimp only [bind, Except.bind, taggable]
  rw [if_pos rfl, hfresh, if_neg Bool.false_ne_true]
  cases tagMessage (.obj fields) table (.str (tag ++ text)) <;> rfl

theorem tagMessage_called (fields : Fields)
    (hapart : (table.map Prod.snd).Pairwise Distinguished)
    (hfree : ∀ p ∈ table, hasPrefix text p.2 = false) :
    ∃ said, tagMessage (.obj fields) table (.str text) =
      .ok (.str (join (calledTags fields table).reverse ++ text), said) := by
  induction table generalizing text with
  | nil => exact ⟨[], by simp [tagMessage, calledTags]⟩
  | cons p table ih =>
    obtain ⟨key, tag⟩ := p
    obtain ⟨hhead, hapart⟩ := List.pairwise_cons.mp hapart
    obtain ⟨htag, hfree⟩ := List.forall_mem_cons.mp hfree
    cases hset : (fields.lookup key).any isTrue with
    | false =>
      rw [calledTags_unset hset, tagMessage, isSet_obj, hset]
      exact ih hapart hfree
    | true =>
      have hnext : ∀ q ∈ table, hasPrefix (tag ++ text) q.2 = false := fun q hq =>
        (hhead q.2 (List.mem_map_of_mem hq)).not_in_front text
      obtain ⟨said, hrest⟩ := ih hapart hnext
      obtain ⟨line, hstep⟩ := tagMessage_set table hset htag
      refine ⟨line :: said, ?_⟩
      rw [hstep, hrest, calledTags_set hset]
      simp [Except.map, join_append, append_assoc]

theorem untagMessage_unset (h : (fields.lookup key).any isTrue = false) (message : Json) :
    untagMessage (.obj fields) ((key, tag) :: table) message =
      untagMessage (.obj fields) table message := by
  rw [untagMessage, isSet_obj, h]
  rfl

theorem untagMessage_set (table : List (String × String)) (tag : String)
    (h : (fields.lookup key).any isTrue = true) (text : String) :
    ∃ line, untagMessage (.obj fields) ((key, tag) :: table) (.str (tag ++ text)) =
      (untagMessage (.obj fields) table (.str text)).map fun r => (r.1, line :: r.2) := by
  have hprefix : hasPrefix (tag ++ text) tag = true := by
    rw [hasPrefix_iff, toList_append]
    exact List.prefix_append _ _
  have hbare : ofList ((tag ++ text).toList.drop tag.length) = text := by
    rw [toList_append, ← length_toList, List.drop_left, ofList_toList]
  refine ⟨s!"  移除标记: 成功移除了message字段开头的{tag} (基于字段 {key})", ?_⟩
  rw [untagMessage, isSet_obj, h]
  dsimp only [bind, Except.bind, taggable]
  rw [if_pos rfl, if_pos hprefix, hbare]
  cases untagMessage (.obj fields) table (.str text) <;> rfl

theorem untagMessage_missing (h : (fields.lookup key).any isTrue = true)
    (hstart : hasPrefix text tag = false) :
    ∃ said, untagMessage (.obj fields) ((key, tag) :: table) (.str text) = .ok (none, said) := by
  rw [untagMessage, isSet_obj, h]
  dsimp only [bind, Except.bind, taggable]
  rw [if_pos rfl, hstart, if_neg Bool.false_ne_true]
  exact ⟨_, rfl⟩

theorem untagMessage_called (fields : Fields) (table : List (String × String))
    (text : String) :
    ∃ said, untagMessage (.obj fields) table
      (.str (join (calledTags fields table) ++ text)) = .ok (some (.str text), said) := by
  induction table with
  | nil => exact ⟨[], by simp [untagMessage, calledTags]⟩
  | cons p table ih =>
    obtain ⟨key, tag⟩ := p
    cases hset : (fields.lookup key).any isTrue with
    | false =>
      rw [calledTags_unset hset, untagMessage_unset hset]
      exact ih
    | true =>
      obtain ⟨said, hrest⟩ := ih
      obtain ⟨line, hstep⟩ := untagMessage_set table tag hset
        (join (calledTags fields table) ++ text)
      refine ⟨line :: said, ?_⟩
      rw [calledTags_set hset, join_cons, append_assoc, hstep, hrest]
      rfl

theorem untagMessage_stuck {called : List String} (h : calledTags fields table = tag :: called)
    (hstart : hasPrefix text tag = false) :
    ∃ said, untagMessage (.obj fields) table (.str text) = .ok (none, said) := by
  induction table with
  | nil => cases h
  | cons p table ih =>
    obtain ⟨key, tag'⟩ := p
    cases hset : (fields.lookup key).any isTrue with
    | false =>
      rw [calledTags_unset hset] at h
      rw [untagMessage_unset hset]
      exact ih h
    | true =>
      rw [calledTags_set hset, List.cons.injEq] at h
      rw [h.1]
      exact untagMessage_missing hset hstart

variable {text : String}

section

variable (h : fields.lookup "message" = some (.str text))
include h

theorem storeMessage_obj (text' : String) (said : List String) :
    ∃ lines, storeMessage (.obj fields) (.str text) (.str text') said =
      .ok { entry := .obj (setField "message" (.str text') fields), said := lines } := by
  rw [storeMessage]
  split
  · next hsame => exact ⟨said, by rw [← hsame, setField_same h]; rfl⟩
  · exact ⟨_, rfl⟩

theorem addTags_obj (hfree : ∀ p ∈ tags, hasPrefix text p.2 = false) :
    ∃ lines, addTags (.obj fields) = {
      entry := .obj (setField "message"
        (.str (join (calledTags fields tags).reverse ++ text)) fields)
      said := lines } := by
  obtain ⟨said, htagged⟩ := tagMessage_called fields (by decide) hfree
  obtain ⟨lines, hstored⟩ := storeMessage_obj h _ said
  refine ⟨lines, ?_⟩
  rw [addTags, Json.get, h, Option.getD_some]
  dsimp only [bind, Except.bind]
  rw [htagged]
  dsimp only
  rw [hstored, Outcome.ofExcept]

theorem removeTags_some {text' : String}
    (huntag : untagMessage (.obj fields) tags (.str text) = .ok (some (.str text'), said)) :
    ∃ lines, removeTags (.obj fields) =
      { entry := .obj (setField "message" (.str text') fields), said := lines } := by
  obtain ⟨lines, hstored⟩ := storeMessage_obj h text' said
  refine ⟨lines, ?_⟩
  rw [removeTags, Json.get, h, Option.getD_some]
  dsimp only [bind, Except.bind]
  rw [huntag]
  dsimp only
  rw [hstored, Outcome.ofExcept]

theorem removeTags_none (huntag : untagMessage (.obj fields) tags (.str text) = .ok (none, said)) :
    removeTags (.obj fields) = { entry := .obj fields, said := said, stop := some (.exit 1) } := by
  rw [removeTags, Json.get, h, Option.getD_some]
  dsimp only [bind, Except.bind]
  rw [huntag]
  rfl

end

theorem calledTags_message (v : Json) (fields : Fields) :
    calledTags (setField "message" v fields) tags = calledTags fields tags := by
  rw [calledTags, calledTags]
  congr 1
  apply List.filter_congr
  intro p hp
  have hkey : p.1 ≠ "message" := by
    revert p
    decide
  rw [lookup_setField, if_neg hkey]

def CallsBoth (fields : Fields) : Prop :=
  fields.lookup "is_select" = some (.bool true) ∧ fields.lookup "is_title" = some (.bool true)

theorem calledTags_both (h : CallsBoth fields) :
    calledTags fields tags = ["[select]", "[title]"] := by
  rw [tags, calledTags_set (isSet_iff.mpr h.1), calledTags_set (isSet_iff.mpr h.2)]
  rfl

theorem calledTags_reverse (h : ¬ CallsBoth fields) :
    (calledTags fields tags).reverse = calledTags fields tags := by
  rw [tags]
  cases hselect : (fields.lookup "is_select").any isTrue with
  | false =>
    rw [calledTags_unset hselect]
    cases htitle : (fields.lookup "is_title").any isTrue with
    | false => rw [calledTags_unset htitle]; rfl
    | true => rw [calledTags_set htitle]; rfl
  | true =>
    have htitle : (fields.lookup "is_title").any isTrue = false :=
      Bool.eq_false_iff.mpr fun htitle => h ⟨isSet_iff.mp hselect, isSet_iff.mp htitle⟩
    rw [calledTags_set hselect, calledTags_unset htitle]
    rfl

/-- An entry whose message starts with no tag gets the tags that its fields call for. Removing them
gives the entry back, unless it calls for both: then the tags stand the other way round than they
are looked for, and removal gives up on the tagged entry. -/
theorem removeTags_addTags_iff (hmessage : fields.lookup "message" = some (.str text))
    (hfree : ∀ p ∈ tags, hasPrefix text p.2 = false) :
    (addTags (.obj fields)).stop = none ∧
    (addTags (.obj fields)).entry = .obj (Json.setField "message"
      (.str (String.join (calledTags fields tags).reverse ++ text)) fields) ∧
    ((removeTags (addTags (.obj fields)).entry).stop = none ∧
      (removeTags (addTags (.obj fields)).entry).entry = .obj fields ↔ ¬ CallsBoth fields) ∧
    (CallsBoth fields → (removeTags (addTags (.obj fields)).entry).stop = some (.exit 1) ∧
      (removeTags (addTags (.obj fields)).entry).entry = (addTags (.obj fields)).entry) := by
  obtain ⟨lines, hadd⟩ := addTags_obj hmessage hfree
  rw [hadd]
  refine ⟨rfl, rfl, ?_⟩
  generalize htagged : String.join (calledTags fields tags).reverse ++ text = tagged
  have hstored : (Json.setField "message" (.str tagged) fields).lookup "message" =
      some (.str tagged) := by rw [lookup_setField, if_pos rfl]
  have hcalled := calledTags_message (.str tagged) fields
  by_cases hboth : CallsBoth fields
  · have hstart : hasPrefix tagged "[select]" = false := by
      rw [calledTags_both hboth] at htagged
      have hdistinct : Distinguished "[title]" "[select]" := by decide
      rw [← htagged, List.reverse_cons, List.reverse_singleton, List.singleton_append,
        String.join_cons, String.join_cons, String.append_assoc]
      exact hdistinct.not_in_front _
    obtain ⟨said, huntag⟩ := untagMessage_stuck (hcalled.trans (calledTags_both hboth)) hstart
    rw [removeTags_none hstored huntag]
    simp [hboth]
  · rw [calledTags_reverse hboth] at htagged
    obtain ⟨said, huntag⟩ :=
      untagMessage_called (Json.setField "message" (.str tagged) fields) tags text
    rw [hcalled, htagged] at huntag
    obtain ⟨lines', hremove⟩ := removeTags_some hstored huntag
    rw [hremove, setField_setField, setField_same hmessage]
    simp [hboth]

end

def headedChoice : Fields :=
  [("is_select", .bool true), ("message", .str "a"), ("is_title", .bool true)]

theorem removeTags_headedChoice :
    (removeTags (addTags (.obj headedChoice)).entry).stop = some (.exit 1) ∧
    (removeTags (addTags (.obj headedChoice)).entry).entry =
      .obj [("is_select", .bool true), ("message", .str "[title][select]a"),
        ("is_title", .bool true)] ∧
    ∀ p ∈ tags, hasPrefix "a" p.2 = false :=
  ⟨rfl, rfl, by decide⟩

def plainChoice : Fields :=
  [("message", .str "a"), ("is_select", .bool true)]

theorem removeTags_addTags_iff_choice :
    (addTags (.obj plainChoice)).entry =
      .obj [("message", .str "[select]a"), ("is_select", .bool true)] ∧
    (removeTags (addTags (.obj plainChoice)).entry).stop = none ∧
    (removeTags (addTags (.obj plainChoice)).entry).entry = .obj plainChoice := by
  have hmessage : plainChoice.lookup "message" = some (.str "a") := rfl
  have hone : ¬ CallsBoth plainChoice := fun h =>
    absurd h.2 (by simp [plainChoice, List.lookup_cons])
  obtain ⟨-, hadd, hiff, -⟩ := removeTags_addTags_iff hmessage (by decide)
  exact ⟨hadd, hiff.mpr hone⟩

end SceneText.Entry
