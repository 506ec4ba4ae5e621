import SceneText.Layout.Shortening
import SceneText.Proofs.Lengths

/-!
# Shortening tells the truth

None of the steps of shortening makes a message longer, whether characters or cells are counted.
Whenever a step has changed the message, its length is looked at again, so that the verdict always
speaks of the text that is given back. A message that fits is not touched, and the drastic steps
start from the text with which the harmless ones gave up.
-/

namespace SceneText.Layout

open List Text Limit
open String (ofList toList_ofList)

variable {old new : List Char} {pair : String × String} {pairs : List (String × String)}

def Shrinks (measure : Measure) (step : List Char → List Char) : Prop :=
  ∀ text, measure.length (step text) ≤ measure.length text

variable {measure : Measure} {step : List Char → List Char}

theorem shrinks_of_sublist (h : ∀ text, (step text).Sublist text) : Shrinks measure step :=
  fun text => measure.length_sublist (h text)

theorem length_replaceFrom (hold : old ≠ []) (h : measure.length new ≤ measure.length old)
    (skip : Nat) (text : List Char) :
    measure.length (replaceFrom old new skip text) + measure.length (text.take skip) ≤
      measure.length text := by
  induction text generalizing skip with
  | nil => simp [replaceFrom]
  | cons c rest ih =>
    cases skip with
    | succ skip =>
      have hrest := ih skip
      rw [replaceFrom, take_succ_cons, measure.length_cons, measure.length_cons]
      omega
    | zero =>
      rw [replaceFrom, take_zero, measure.length_nil, measure.length_cons]
      by_cases hfront : old.isPrefixOf (c :: rest) = true
      · rw [if_pos hfront, measure.length_append]
        obtain ⟨behind, hbehind⟩ := isPrefixOf_iff_prefix.mp hfront
        obtain ⟨d, more, rfl⟩ := exists_cons_of_ne_nil hold
        rw [cons_append, List.cons.injEq] at hbehind
        obtain ⟨rfl, rfl⟩ := hbehind
        have hrest := ih more.length
        rw [take_left] at hrest
        rw [measure.length_cons] at h
        rw [length_cons, Nat.add_sub_cancel]
        omega
      · rw [if_neg hfront, measure.length_cons]
        have hrest := ih 0
        omega

theorem shrinks_replaceAll (hold : old ≠ []) (h : measure.length new ≤ measure.length old) :
    Shrinks measure (replaceAll old new) := by
  intro text
  have hfrom := length_replaceFrom hold h 0 text
  rw [take_zero, measure.length_nil] at hfrom
  rw [replaceAll, if_neg (by simpa using hold)]
  exact hfrom

def NotLonger (pair : String × String) : Prop :=
  pair.1.toList ≠ [] ∧ ∀ measure ∈ [Measure.chars, .cells],
      measure.length pair.2.toList ≤ measure.length pair.1.toList

instance (pair : String × String) : Decidable (NotLonger pair) :=
  inferInstanceAs (Decidable (_ ∧ _))

theorem tables_notLonger :
    ∀ pairs ∈ [doubledSigns, synonyms, bluntSynonyms, possessives], ∀ pair ∈ pairs,
      NotLonger pair := by
  decide +kernel

theorem shrinks_replacePair (h : NotLonger pair) : Shrinks measure (replacePair pair) :=
  shrinks_replaceAll h.1 (h.2 measure (by cases measure <;> decide))

theorem shrinks_replacePairs (h : ∀ pair ∈ pairs, NotLonger pair) :
    Shrinks measure (replacePairs pairs) := by
  intro text
  induction pairs generalizing text with
  | nil => exact Nat.le_refl _
  | cons pair pairs ih =>
    have hrest := ih (fun p hp => h p (by simp [hp])) (replacePair pair text)
    exact Nat.le_trans hrest (shrinks_replacePair (h pair (by simp)) text)

theorem shrinks_collapse (h : NotLonger pair) :
    Shrinks measure (collapse pair.1.toList pair.2.toList) := by
  have hwith : ∀ fuel, Shrinks measure (collapseWith pair.1.toList pair.2.toList fuel) := by
    intro fuel
    induction fuel with
    | zero => exact fun text => Nat.le_refl _
    | succ fuel ih =>
      intro text
      rw [collapseWith]
      by_cases hoccurs : occurs pair.1.toList text = true
      · rw [if_pos hoccurs]
        exact Nat.le_trans (ih _) (shrinks_replacePair h text)
      · apply Nat.le_of_eq
        rw [if_neg hoccurs]
  exact fun text => hwith text.length text

theorem cells_narrow : ∀ row ∈ narrowTable, cells (Char.ofNat row.2) = 1 := by
  decide

theorem cells_narrowChar (c : Char) : cells (narrowChar c) ≤ cells c := by
  rw [narrowChar]
  cases h : narrowTable.lookup c.toNat with
  | none => exact Nat.le_refl _
  | some n =>
    obtain ⟨front, back, heq, -⟩ := lookup_eq_some_iff.mp h
    have hrow : cells (Char.ofNat n) = 1 := cells_narrow (c.toNat, n) (by rw [heq]; simp)
    rw [hrow]
    exact cells_pos c

theorem shrinks_narrow : Shrinks .cells narrow := by
  intro text
  induction text with
  | nil => exact Nat.le_refl _
  | cons c rest ih =>
    exact Nat.add_le_add (cells_narrowChar c) ih

theorem sublist_dropParticleRound (text : List Char) :
    (Attempt.dropParticleRound text).Sublist text := by
  have hfold : ∀ (particles text : List Char),
      (particles.foldl (fun text p => if text.getLast? = some p then text.dropLast else text)
        text).Sublist text := by
    intro particles
    induction particles with
    | nil => exact List.Sublist.refl
    | cons p particles ih =>
      intro text
      rw [foldl_cons]
      by_cases hp : text.getLast? = some p
      · rw [if_pos hp]
        exact (ih _).trans (dropLast_sublist text)
      · rw [if_neg hp]
        exact ih text
  exact hfold endingParticles text

namespace Attempt

structure Honest (measure : Measure) (limit : Limit) (text : List Char) (a : Attempt) : Prop where
  verdict : a.done = limit.admits (measure.length a.text)
  shorter : measure.length a.text ≤ measure.length text
  kept : limit.admits (measure.length text) = true → a.text = text

namespace Honest

variable {limit : Limit} {text : List Char} {a b : Attempt}

theorem start (measure : Measure) (limit : Limit) (text : List Char) :
    Honest measure limit text ⟨text, limit.admits (measure.length text)⟩ :=
  ⟨rfl, Nat.le_refl _, fun _ => rfl⟩

theorem trans (ha : Honest measure limit text a) (hb : Honest measure limit a.text b) :
    Honest measure limit text b where
  verdict := hb.verdict
  shorter := Nat.le_trans hb.shorter ha.shorter
  kept h := by
    have hsame := ha.kept h
    rw [← hsame] at h
    rw [hb.kept h, hsame]

theorem not_fits (h : Honest measure limit text a) (hdone : a.done = false) :
    limit.admits (measure.length text) = false := by
  rw [Bool.eq_false_iff]
  intro hfits
  rw [h.verdict, h.kept hfits, hfits] at hdone
  exact Bool.noConfusion hdone

theorem apply (h : Honest measure limit text a) (hstep : Shrinks measure step) :
    Honest measure limit text (a.apply (fun t => limit.admits (measure.length t)) step) := by
  rw [Attempt.apply]
  by_cases hdone : a.done = true
  · rw [if_pos hdone]
    exact h
  · rw [if_neg hdone]
    have hlong := h.not_fits (Bool.eq_false_iff.mpr hdone)
    refine ⟨rfl, Nat.le_trans (hstep a.text) h.shorter, ?_⟩
    intro hfits
    rw [hlong] at hfits
    exact Bool.noConfusion hfits

theorem applyEach {steps : String × String → List Char → List Char}
    (hsteps : ∀ pair ∈ pairs, Shrinks measure (steps pair)) (h : Honest measure limit text a) :
    Honest measure limit text
      (a.applyEach (fun t => limit.admits (measure.length t)) steps pairs) := by
  induction pairs generalizing a with
  | nil => exact h
  | cons pair pairs ih =>
    rw [Attempt.applyEach, foldl_cons]
    apply ih (fun p hp => hsteps p (by simp [hp]))
    by_cases hoccurs : occurs pair.1.toList a.text = true
    · rw [if_pos hoccurs]
      exact h.apply (hsteps pair (by simp))
    · rw [if_neg hoccurs]
      exact h

theorem loop {turns : Nat → Attempt → Attempt} (hnone : ∀ a, turns 0 a = a)
    (hnext : ∀ fuel a, turns (fuel + 1) a = a ∨
      turns (fuel + 1) a = turns fuel (a.apply (fun t => limit.admits (measure.length t)) step))
    (hstep : Shrinks measure step) (h : Honest measure limit text a) (fuel : Nat) :
    Honest measure limit text (turns fuel a) := by
  induction fuel generalizing a with
  | zero =>
    rw [hnone]
    exact h
  | succ fuel ih =>
    rcases hnext fuel a with hlast | hmore
    · rw [hlast]
      exact h
    · rw [hmore]
      exact ih (h.apply hstep)

end Honest

variable {limit : Limit} {text : List Char} {a : Attempt}

theorem honest_dropClosing (h : Honest measure limit text a) (fuel : Nat) :
    Honest measure limit text (a.dropClosing (fun t => limit.admits (measure.length t)) fuel) := by
  apply Honest.loop (fun _ => rfl) _ (shrinks_of_sublist dropLast_sublist) h
  intro fuel a
  rw [dropClosing]
  split_ifs
  · exact .inl rfl
  · split
    · split_ifs
      · exact .inr rfl
      · exact .inl rfl
    · exact .inl rfl

theorem honest_dropParticles (h : Honest measure limit text a) (fuel : Nat) :
    Honest measure limit text
      (a.dropParticles (fun t => limit.admits (measure.length t)) fuel) := by
  apply Honest.loop (fun _ => rfl) _ (shrinks_of_sublist sublist_dropParticleRound) h
  intro fuel a
  rw [dropParticles]
  split_ifs
  · exact .inl rfl
  · split
    · split_ifs
      · exact .inr rfl
      · exact .inl rfl
    · exact .inl rfl

end Attempt

section
variable (measure : Measure) (limit : Limit) (text : List Char)

open Attempt

def HonestResult (result : List Char × Bool) : Prop :=
  Honest measure limit text ⟨result.1, result.2⟩

theorem honest_shortenGently :
    HonestResult measure limit text (shortenGently measure limit text) := by
  apply honest_dropClosing
  apply Honest.applyEach
  · intro pair hpair
    exact shrinks_replacePair (tables_notLonger synonyms (by simp) pair hpair)
  apply Honest.applyEach
  · intro pair hpair
    exact shrinks_collapse (tables_notLonger doubledSigns (by simp) pair hpair)
  apply Honest.apply
  · -- Full-width letters are made narrow only where cells are counted.
    cases measure with
    | cells => exact (Honest.start .cells limit text).apply shrinks_narrow
    | chars => exact Honest.start .chars limit text
  · exact shrinks_replaceAll (cons_ne_nil _ _) (by simp)

theorem honest_shortenDrastically :
    HonestResult measure limit text (shortenDrastically measure limit text) := by
  apply Honest.apply
  · apply honest_dropParticles
    apply Honest.apply
    · apply Honest.apply
      · apply Honest.apply
        · apply Honest.apply (Honest.start measure limit text)
          exact shrinks_replacePairs (tables_notLonger bluntSynonyms (by simp))
        · exact shrinks_replacePairs (tables_notLonger possessives (by simp))
      · exact shrinks_replaceAll (cons_ne_nil _ _) (by simp)
    · exact shrinks_of_sublist fun _ => filter_sublist
  · exact shrinks_of_sublist fun _ => filter_sublist

theorem shorten_eq (drastic : Bool) :
    shorten measure limit drastic text =
      if drastic && !(shortenGently measure limit text).2 then
        shortenDrastically measure limit (shortenGently measure limit text).1
      else shortenGently measure limit text := by
  rw [shorten]
  rcases shortenGently measure limit text with ⟨short, done⟩
  cases done <;> cases drastic <;> rfl

theorem honest_shorten (drastic : Bool) :
    HonestResult measure limit text (shorten measure limit drastic text) := by
  have hgently := honest_shortenGently measure limit text
  rw [shorten_eq]
  split_ifs
  · exact hgently.trans (honest_shortenDrastically measure limit _)
  · exact hgently

end

theorem shortenBy_str {method : Limit → List Char → List Char × Bool} (operation : String)
    (measure : Measure) (limit : Int) (s : String)
    (h : HonestResult measure (.whole limit) s.toList (method (.whole limit) s.toList)) :
    shortenBy method operation measure (.int limit) (.str s) =
      .ok (.str (ofList (method (.whole limit) s.toList).1),
        (method (.whole limit) s.toList).2) := by
  have hlimit : ofJson "<=" (.int limit) = .ok (.whole limit) := rfl
  rw [shortenBy, measure.lengthOf_str, hlimit]
  change (if (whole limit).admits (measure.length s.toList) = true then _ else _) = _
  by_cases hfits : (whole limit).admits (measure.length s.toList) = true
  · have hkept := h.kept hfits
    have hdone := h.verdict
    dsimp only at hkept hdone
    rw [if_pos hfits, hdone, hkept, hfits, String.ofList_toList]
    rfl
  · rw [if_neg hfits]
    rfl

theorem shortenValue_str (measure : Measure) (limit : Int) (drastic : Bool) (s : String) :
    shortenValue measure (.int limit) drastic (.str s) =
      .ok (.str (ofList (shorten measure (.whole limit) drastic s.toList).1),
        (shorten measure (.whole limit) drastic s.toList).2) := by
  rw [shortenValue.eq_def]
  exact shortenBy_str _ measure limit s (honest_shorten measure (.whole limit) s.toList drastic)

/-- Shortening says that a message fits exactly if the text that it gives back does. This text is
never longer than the message, and is the message if that fits. -/
theorem shortenValue_honest (measure : Measure) (limit : Int) (drastic : Bool) (message : String) :
    ∃ text fits, shortenValue measure (.int limit) drastic (.str message) = .ok (.str text, fits) ∧
      (fits = true ↔ (measure.length text.toList : Int) ≤ limit) ∧
      measure.length text.toList ≤ measure.length message.toList ∧
      ((measure.length message.toList : Int) ≤ limit → text = message) := by
  have h := honest_shorten measure (.whole limit) message.toList drastic
  rw [shortenValue_str]
  generalize shorten measure (.whole limit) drastic message.toList = result at h
  obtain ⟨hverdict, hshorter, hkept⟩ := h
  dsimp only at hverdict hshorter hkept
  refine ⟨_, _, rfl, ?_, ?_, ?_⟩
  · rw [hverdict, toList_ofList, admits_whole, decide_eq_true_iff]
  · rw [toList_ofList]
    exact hshorter
  · intro hfits
    rw [hkept (by rw [admits_whole, decide_eq_true hfits]), String.ofList_toList]

theorem shortenValue_honest_phrase :
    (Measure.cells.length "真是".toList : Int) ≤ 4 ∧
      shortenValue .cells (.int 4) true (.str "真是") = .ok (.str "真是", true) := by
  have hfits : (Measure.cells.length "真是".toList : Int) ≤ 4 := by decide
  obtain ⟨text, fits, heq, hverdict, -, hkept⟩ := shortenValue_honest .cells 4 true "真是"
  obtain rfl := hkept hfits
  obtain rfl := hverdict.mpr hfits
  exact ⟨hfits, heq⟩

/-- The drastic steps are taken where the harmless ones have not been enough, on the text that they
have left, and never make it longer. -/
theorem shortenValue_drastic (measure : Measure) (limit : Int) (message : String) :
    ∃ gentle fits text fits',
      shortenValue measure (.int limit) false (.str message) = .ok (.str gentle, fits) ∧
      shortenValue measure (.int limit) true (.str message) = .ok (.str text, fits') ∧
      (fits = true → text = gentle ∧ fits' = true) ∧
      (fits = false →
        shortenValueDrastically measure (.int limit) (.str gentle) = .ok (.str text, fits') ∧
        measure.length text.toList ≤ measure.length gentle.toList) := by
  rw [shortenValue_str, shortenValue_str, shorten_eq, shorten_eq]
  rcases shortenGently measure (.whole limit) message.toList with ⟨gentle, fits⟩
  have hdrastic := honest_shortenDrastically measure (.whole limit) gentle
  have hmore := shortenBy_str "replace" measure limit (ofList gentle)
    (by rwa [toList_ofList])
  rw [toList_ofList] at hmore
  cases fits with
  | true => exact ⟨_, _, _, _, rfl, rfl, fun _ => ⟨rfl, rfl⟩, fun h => Bool.noConfusion h⟩
  | false =>
    refine ⟨_, _, _, _, rfl, rfl, fun h => Bool.noConfusion h, fun _ => ⟨hmore, ?_⟩⟩
    rw [toList_ofList, toList_ofList]
    exact hdrastic.shorter

theorem shortenValue_drastic_possessive :
    shortenValue .cells (.int 2) false (.str "我的！") = .ok (.str "我的", false) ∧
      shortenValue .cells (.int 2) true (.str "我的！") =
        shortenValueDrastically .cells (.int 2) (.str "我的") := by
  have hgave : shortenValue .cells (.int 2) false (.str "我的！") = .ok (.str "我的", false) := rfl
  obtain ⟨gentle, fits, text, fits', hgentle, htext, -, hmore⟩ :=
    shortenValue_drastic .cells 2 "我的！"
  rw [hgave] at hgentle
  cases hgentle
  exact ⟨hgave, htext.trans (hmore rfl).1.symm⟩

end SceneText.Layout
