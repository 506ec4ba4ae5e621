import SceneText.Proofs.Lossless

/-!
# Signatures that reach further

Signatures overlap: one may begin like another and go on into the operands behind it, or into the
next instruction. When operands change and line breaks go, a longer signature may come to fit where
the old bytes held a shorter one. It has to reach as far as a byte that changed, and only a text, a
jump or a line break that went can be there. Going through the table, four signatures are left that
can be met in this way.
-/

namespace SceneText

open List

variable {signature l : List UInt8} {ts : List Tile} {b : UInt8}

namespace Opcodes

def signatures : List (List UInt8) :=
  table.filterMap fun entry =>
    match entry.1 with
    | .bytes signature => some signature
    | .default => none

theorem mem_signatures : signature ∈ signatures ↔ ∃ specs, (.bytes signature, specs) ∈ table := by
  rw [signatures, mem_filterMap]
  constructor
  · rintro ⟨⟨key, specs⟩, hmem, hkey⟩
    cases key with
    | default => cases hkey
    | bytes s => exact ⟨specs, Option.some.inj hkey ▸ hmem⟩
  · rintro ⟨specs, hmem⟩
    exact ⟨_, hmem, rfl⟩

def lineBreak : List UInt8 := [0x14]

def moving : List (List UInt8) :=
  choiceSignature :: [0x15, 0xff] :: jumpSignatures

def changing : List (List UInt8) :=
  [0x00] :: moving

theorem signature_ne_nil : ∀ s ∈ signatures, s ≠ [] := by decide +kernel

end Opcodes

structure Tile where
  signature : List UInt8
  before : List UInt8
  after : List UInt8

namespace Tile

open Opcodes

def old (ts : List Tile) : List UInt8 :=
  ts.flatMap fun t => t.signature ++ t.before

def new : List Tile → List UInt8
  | [] => []
  | t :: rest => if t.signature = lineBreak then new rest else t.signature ++ t.after ++ new rest

def agreed : List Tile → List UInt8
  | [] => []
  | t :: rest =>
    if t.signature = lineBreak then []
    else if t.signature ∈ changing then t.signature
    else t.signature ++ t.after ++ agreed rest

def sizes : List (List UInt8 × Nat) :=
  [([0x00, 0x02], 0), ([0x02], 1), ([0x05], 4), ([0x06], 4), ([0x08], 1), ([0x11, 0xff], 4),
   ([0x12, 0xff], 4), ([0x20], 0), ([0x5c], 0), ([0xff], 0)]

def Voiced (bytes : List UInt8) : Prop :=
  ∃ b c rest, bytes = b :: c :: rest ∧ 0x20 ≤ b ∧ b ≤ 0xfc ∧ (b < 0x80 → c = 0x00 ∨ 0x20 ≤ c)

structure Apt (t : Tile) : Prop where
  listed : t.signature ∈ signatures
  steady : t.signature ∉ changing → t.before = t.after
  sized : ∀ entry ∈ sizes, t.signature = entry.1 → t.after.length = entry.2
  voiced : t.signature = [0x00] → Voiced t.after

def breakable : List (List UInt8) := [[0x08], [0x00]]

def Broken : List UInt8 → List Tile → Prop
  | _, [] => True
  | last, t :: rest =>
    if t.signature = lineBreak then last ∈ breakable ∧ Broken last rest
    else Broken t.signature rest

def Steady (t : Tile) : Prop := t.signature ≠ lineBreak ∧ t.signature ∉ changing

theorem prefix_append_cases {s front back : List UInt8} (h : s <+: front ++ back) :
    s <+: front ∨ ∃ e, s = front ++ e ∧ e <+: back := by
  rcases prefix_or_prefix_of_prefix h (prefix_append _ _) with hs | ⟨e, rfl⟩
  · exact .inl hs
  · exact .inr ⟨e, rfl, (prefix_append_right_inj _).mp h⟩

theorem agreed_old (h : ∀ t ∈ ts, t.Apt) : agreed ts <+: old ts := by
  induction ts with
  | nil => exact prefix_refl _
  | cons t rest ih =>
    rw [agreed, old, flatMap_cons]
    split
    · exact nil_prefix
    · split
      · rw [append_assoc]
        exact prefix_append _ _
      · next hchanging =>
        rw [(h t (by simp)).steady hchanging, prefix_append_right_inj]
        exact ih fun u hu => h u (by simp [hu])

theorem new_steady {t : Tile} (h : t.Steady) (rest : List Tile) :
    new (t :: rest) = t.signature ++ t.after ++ new rest := by
  rw [new, if_neg h.1]

theorem agreed_append {pre : List Tile} (h : ∀ t ∈ pre, t.Steady) (rest : List Tile) :
    agreed (pre ++ rest) = new pre ++ agreed rest := by
  induction pre with
  | nil => rfl
  | cons t pre ih =>
    have ht := h t (by simp)
    rw [cons_append, agreed, if_neg ht.1, if_neg ht.2, ih fun u hu => h u (by simp [hu]),
      new_steady ht, append_assoc _ (new pre)]

theorem prefix_new {s : List UInt8} (h : s <+: new ts) :
    s <+: agreed ts ∨ ∃ pre t rest e, ts = pre ++ t :: rest ∧ (∀ u ∈ pre, u.Steady) ∧ e ≠ [] ∧
      (t.signature = lineBreak ∧ s = new pre ++ e ∧ e <+: new rest ∨
        t.signature ≠ lineBreak ∧ t.signature ∈ changing ∧ s = new pre ++ t.signature ++ e ∧
          e <+: t.after ++ new rest) := by
  induction ts generalizing s with
  | nil => exact .inl h
  | cons t rest ih =>
    by_cases hbreak : t.signature = lineBreak
    · rw [new, if_pos hbreak] at h
      by_cases hs : s = []
      · exact .inl (hs ▸ nil_prefix)
      · exact .inr ⟨[], t, rest, s, rfl, by simp, hs, .inl ⟨hbreak, rfl, h⟩⟩
    · rw [new, if_neg hbreak] at h
      by_cases hchanging : t.signature ∈ changing
      · rw [agreed, if_neg hbreak, if_pos hchanging]
        rw [append_assoc] at h
        rcases prefix_append_cases h with hs | ⟨e, rfl, he'⟩
        · exact .inl hs
        · by_cases he : e = []
          · exact .inl (by simp [he])
          · exact .inr ⟨[], t, rest, e, rfl, by simp, he, .inr ⟨hbreak, hchanging, rfl, he'⟩⟩
      · have ht : t.Steady := ⟨hbreak, hchanging⟩
        rw [agreed, if_neg hbreak, if_neg hchanging]
        rcases prefix_append_cases h with hs | ⟨s, rfl, hs⟩
        · exact .inl (hs.trans (prefix_append _ _))
        · rcases ih hs with hs | ⟨pre, u, more, e, rfl, hpre, he, hreach⟩
          · exact .inl ((prefix_append_right_inj _).mpr hs)
          · refine .inr ⟨t :: pre, u, more, e, rfl, ?_, he, ?_⟩
            · intro v hv
              rcases mem_cons.mp hv with rfl | hv
              · exact ht
              · exact hpre v hv
            · rw [new_steady ht]
              rcases hreach with ⟨hu, rfl, he'⟩ | ⟨hu, hu', rfl, he'⟩
              · exact .inl ⟨hu, by simp only [append_assoc], he'⟩
              · exact .inr ⟨hu, hu', by simp only [append_assoc], he'⟩

def cuts (c s : List UInt8) : List (List UInt8 × List UInt8) :=
  (List.range s.length).filterMap fun n =>
    if c <+: s.drop n ∧ s.drop (n + c.length) ≠ [] then some (s.take n, s.drop (n + c.length))
    else none

theorem mem_cuts {u c e s : List UInt8} (h : s = u ++ c ++ e) (he : e ≠ []) :
    (u, e) ∈ cuts c s := by
  rw [cuts, mem_filterMap]
  refine ⟨u.length, mem_range.mpr ?_, ?_⟩
  · have := length_pos_iff.mpr he
    rw [h, length_append, length_append]
    omega
  · have hdrop : s.drop u.length = c ++ e := by rw [h, append_assoc, drop_left]
    have htake : s.take u.length = u := by rw [h, append_assoc, take_left]
    rw [← drop_drop, hdrop, htake, drop_left, if_pos ⟨prefix_append c e, he⟩]

def jumpReaches : List (List UInt8 × List UInt8 × List UInt8) :=
  [([0x05, 0x28], [0x06], [0x28, 0x08, 0x00]), ([0x00, 0x02], [0x06], [0x00, 0xff, 0x00]),
   ([0x5c, 0x00], [0x11, 0xff], [0x00]),
   ([], [0x11, 0xff], [0x00, 0x05]), ([], [0x11, 0xff], [0x02, 0x05, 0x0a, 0x00]),
   ([], [0x12, 0xff], [0x00, 0x05]), ([], [0x12, 0xff], [0x00, 0x13, 0xff, 0x01])]

theorem behind_jump : ∀ s ∈ signatures, ∀ c ∈ moving, ∀ cut ∈ cuts c s,
    (cut.1, c, cut.2) ∈ jumpReaches := by
  decide +kernel

def textReaches : List (List UInt8 × List UInt8) :=
  [([0x20], [0x31]), ([0x1d], [0x4c, 0x07, 0x22, 0x00]), ([0x01, 0x01], [0x96, 0x00])]

theorem behind_text : ∀ s ∈ signatures, ∀ cut ∈ cuts [0x00] s,
    cut ∈ textReaches ∨ ∀ b ∈ cut.2.head?, b < 0x20 ∨ 0xfc < b := by
  decide +kernel

theorem behind_break : ∀ s ∈ signatures, ∀ cut ∈ cuts [0x08] s, cut.2.drop 1 ≠ [] →
    cut.2.drop 1 = choiceSignature.drop 2 ∨ cut.2.drop 1 = choiceSignature.drop 6 := by
  decide +kernel

theorem new_cases (ts : List Tile) : new ts = [] ∨ ∃ t rest, t ∈ ts ∧ (∀ u ∈ rest, u ∈ ts) ∧
    new ts = t.signature ++ t.after ++ new rest := by
  induction ts with
  | nil => exact .inl rfl
  | cons t rest ih =>
    by_cases hbreak : t.signature = lineBreak
    · rw [new, if_pos hbreak]
      rcases ih with h | ⟨u, more, hu, hmore, h⟩
      · exact .inl h
      · exact .inr ⟨u, more, by simp [hu], fun v hv => by simp [hmore v hv], h⟩
    · exact .inr ⟨t, rest, by simp, fun u hu => by simp [hu], by rw [new, if_neg hbreak]⟩

theorem prefix_head {t : Tile} (ht : t.Apt) {more : List UInt8}
    (h : b :: l <+: t.signature ++ more) : t.signature.head? = some b := by
  obtain ⟨c, rest, hsig⟩ := exists_cons_of_ne_nil (signature_ne_nil _ ht.listed)
  rw [hsig, cons_append, cons_prefix_cons] at h
  rw [hsig, h.1]
  rfl

theorem new_head (hts : ∀ t ∈ ts, t.Apt) (h : b :: l <+: new ts) :
    ∃ (t : Tile) (rest : List Tile), t.Apt ∧ (∀ u ∈ rest, u.Apt) ∧
      t.signature.head? = some b ∧ b :: l <+: t.signature ++ (t.after ++ new rest) := by
  rcases new_cases ts with hnil | ⟨t, rest, ht, hrest, hnew⟩
  · rw [hnil] at h
    cases prefix_nil.mp h
  · rw [hnew, append_assoc] at h
    exact ⟨t, rest, hts t ht, fun u hu => hts u (hrest u hu), prefix_head (hts t ht) h, h⟩

theorem sized_eq {t : Tile} (ht : t.Apt) {n : Nat} (h : t.signature = signature)
    (hmem : (signature, n) ∈ sizes) : t.after.length = n :=
  ht.sized _ hmem h

theorem head_inner : ∀ s ∈ signatures, (s.head? = some 0xff → s = [0xff]) ∧
    (s.head? = some 0x08 → s = [0x08] ∨ s = choiceSignature) ∧
    (s.head? = some 0x02 → s = [0x02]) ∧ s.head? ≠ some 0x43 := by
  decide +kernel

theorem not_inner (hts : ∀ t ∈ ts, t.Apt) : ¬ [0xff, 0x43] <+: new ts := by
  intro h
  obtain ⟨t, rest, ht, hrest, hhead, h⟩ := new_head hts h
  have hsig := (head_inner _ ht.listed).1 hhead
  have hafter := length_eq_zero_iff.mp (sized_eq ht hsig (by decide))
  rw [hsig, hafter, nil_append, singleton_append, cons_prefix_cons] at h
  obtain ⟨u, -, hu, -, hhead, -⟩ := new_head hrest h.2
  exact (head_inner _ hu.listed).2.2.2 hhead

theorem not_inner_value (hts : ∀ t ∈ ts, t.Apt) : ¬ [0x08, 0x0b, 0xff, 0x43] <+: new ts := by
  intro h
  obtain ⟨t, rest, ht, hrest, hhead, h⟩ := new_head hts h
  rcases (head_inner _ ht.listed).2.1 hhead with hsig | hsig
  · obtain ⟨b, hafter⟩ := length_eq_one_iff.mp (sized_eq ht hsig (by decide))
    rw [hsig, hafter, singleton_append, singleton_append, cons_prefix_cons, cons_prefix_cons] at h
    exact not_inner hrest h.2.2
  · rw [hsig] at h
    simp [choiceSignature] at h

theorem not_inner_choice (hts : ∀ t ∈ ts, t.Apt) :
    ¬ [0x02, 0x0f, 0x08, 0x0b, 0xff, 0x43] <+: new ts := by
  intro h
  obtain ⟨t, rest, ht, hrest, hhead, h⟩ := new_head hts h
  have hsig := (head_inner _ ht.listed).2.2.1 hhead
  obtain ⟨b, hafter⟩ := length_eq_one_iff.mp (sized_eq ht hsig (by decide))
  rw [hsig, hafter, singleton_append, singleton_append, cons_prefix_cons, cons_prefix_cons] at h
  exact not_inner_value hrest h.2.2

def Overlapped (t : Tile) (rest : List Tile) : Prop :=
  (t.signature = [0x11, 0xff] ∧ ([0x00, 0x05] <+: t.after ∨ [0x02, 0x05, 0x0a, 0x00] <+: t.after)) ∨
  (t.signature = [0x12, 0xff] ∧ ([0x00, 0x05] <+: t.after ∨ [0x00, 0x13, 0xff, 0x01] <+: t.after)) ∨
  ∃ u more, rest = u :: more ∧ ((t.signature = [0x20] ∧ u.signature = [0x00] ∧ [0x31] <+: u.after) ∨
      (t.signature = [0x00, 0x02] ∧ u.signature = [0x06] ∧ [0x00, 0xff, 0x00] <+: u.after))

theorem eq_nil_of_new {pre : List Tile} (hapt : ∀ t ∈ pre, t.Apt) (hpre : ∀ t ∈ pre, t.Steady)
    (h : new pre = []) : pre = [] := by
  cases pre with
  | nil => rfl
  | cons t rest =>
    rw [new_steady (hpre t (by simp)), append_eq_nil_iff, append_eq_nil_iff] at h
    exact absurd h.1.1 (signature_ne_nil _ (hapt t (by simp)).listed)

theorem new_append (ts us : List Tile) : new (ts ++ us) = new ts ++ new us := by
  induction ts with
  | nil => rfl
  | cons t rest ih =>
    rw [cons_append, new, new, ih]
    split
    · rfl
    · rw [append_assoc _ (new rest)]

theorem broken_last {last : List UInt8} {pre more : List Tile} {u : Tile}
    (hpre : ∀ v ∈ pre, v.Steady) (hu : u.signature = lineBreak)
    (h : Broken last (pre ++ u :: more)) :
    pre = [] ∨ ∃ init q, pre = init ++ [q] ∧ q.signature ∈ breakable := by
  induction pre generalizing last with
  | nil => exact .inl rfl
  | cons p pre ih =>
    rw [cons_append, Broken, if_neg (hpre p (by simp)).1] at h
    right
    rcases ih (fun v hv => hpre v (by simp [hv])) h with rfl | ⟨init, q, rfl, hq⟩
    · rw [nil_append, Broken, if_pos hu] at h
      exact ⟨[], p, rfl, h.1⟩
    · exact ⟨p :: init, q, rfl, hq⟩

section reach

variable {t u : Tile} {rest pre more : List Tile} {s e : List UInt8}

theorem head_of_new (hts : t :: rest = pre ++ u :: more) (hpre : ∀ v ∈ pre, v.Steady)
    (hne : new pre ≠ []) : ∃ front, pre = t :: front ∧ rest = front ++ u :: more ∧
      new pre = t.signature ++ (t.after ++ new front) := by
  cases pre with
  | nil => exact absurd rfl hne
  | cons p front =>
    rw [cons_append, List.cons.injEq] at hts
    obtain ⟨rfl, hrest⟩ := hts
    exact ⟨front, rfl, hrest, by rw [new_steady (hpre t (by simp)), append_assoc]⟩

theorem rest_of_new (hapt : ∀ v ∈ t :: rest, v.Apt) (hts : t :: rest = pre ++ u :: more)
    (hpre : ∀ v ∈ pre, v.Steady) (hnew : new pre = t.signature) : rest = u :: more := by
  have ht := (hapt t (by simp)).listed
  obtain ⟨front, rfl, hrest, hbytes⟩ := head_of_new hts hpre (hnew ▸ signature_ne_nil _ ht)
  rw [hnew, self_eq_append_right, append_eq_nil_iff] at hbytes
  have hfront : front = [] := by
    apply eq_nil_of_new _ (fun v hv => hpre v (by simp [hv])) hbytes.2
    intro v hv
    exact hapt v (by rw [hts]; simp [hv])
  rw [hrest, hfront, nil_append]

variable (hs : s ∈ signatures) (hapt : ∀ v ∈ t :: rest, v.Apt)
  (hts : t :: rest = pre ++ u :: more) (hpre : ∀ v ∈ pre, v.Steady) (he : e ≠ [])
include hs hapt hts hpre he

theorem overlapped_of_text (hu : u.signature = [0x00]) (h : s = new pre ++ [0x00] ++ e)
    (hfit : e <+: u.after ++ new more)
    (hold : ∀ s ∈ signatures, s <+: old (t :: rest) → s.length ≤ t.signature.length) :
    Overlapped t rest := by
  have ht := (hapt t (by simp)).listed
  obtain ⟨b, c, tail, hafter, hlow, hhigh, hnext⟩ := (hapt u (by rw [hts]; simp)).voiced hu
  rw [hafter, cons_append, cons_append] at hfit
  rcases behind_text s hs _ (mem_cuts h he) with hreach | hout
  · simp only [textReaches, mem_cons, Prod.mk.injEq, not_mem_nil, or_false] at hreach
    rcases hreach with ⟨hnew, rfl⟩ | ⟨-, rfl⟩ | ⟨hnew, rfl⟩
    · obtain ⟨front, -, -, hbytes⟩ := head_of_new hts hpre (by simp [hnew])
      have hsig : t.signature = [0x20] :=
        (by decide +kernel : ∀ s ∈ signatures, s <+: [0x20] → s = [0x20]) _ ht
          (hnew ▸ hbytes ▸ prefix_append _ _)
      refine .inr (.inr ⟨u, more, rest_of_new hapt hts hpre (hnew.trans hsig.symm), .inl ?_⟩)
      rw [cons_prefix_cons] at hfit
      exact ⟨hsig, hu, by rw [hafter, ← hfit.1]; simp⟩
    · -- A printing byte and a control byte are no beginning of a text.
      rw [cons_prefix_cons, cons_prefix_cons] at hfit
      obtain ⟨rfl, rfl, -⟩ := hfit
      exact absurd hnext (by decide)
    · -- This much of the signature is a signature already, and it stood in the old script too.
      have hagreed : [0x01, 0x01, 0x00] <+: agreed (t :: rest) := by
        rw [hts, agreed_append hpre, hnew, agreed, hu, if_neg (by decide), if_pos (by decide)]
        exact prefix_refl _
      have hlen := hold _ (by decide +kernel) (hagreed.trans (agreed_old hapt))
      obtain ⟨front, -, -, hbytes⟩ := head_of_new hts hpre (by simp [hnew])
      have hlen' := congrArg List.length (hnew.symm.trans hbytes)
      simp only [length_append, length_cons, length_nil] at hlen hlen'
      omega
  · obtain ⟨x, e, rfl⟩ := exists_cons_of_ne_nil he
    rw [cons_prefix_cons] at hfit
    rcases hout x rfl with hx | hx
    · exact absurd hx (UInt8.not_lt.mpr (hfit.1 ▸ hlow))
    · exact absurd hx (UInt8.not_lt.mpr (hfit.1 ▸ hhigh))

theorem overlapped_of_jump (hu : u.signature ∈ moving) (h : s = new pre ++ u.signature ++ e)
    (hfit : e <+: u.after ++ new more) : Overlapped t rest := by
  have ht := hapt t (by simp)
  have hu' : u.Apt := hapt u (by rw [hts]; simp)
  have hreach := behind_jump s hs _ hu _ (mem_cuts h he)
  have hwithin : ∀ n, (u.signature, n) ∈ sizes → e.length ≤ n → e <+: u.after := by
    intro n hn hle
    exact prefix_of_prefix_length_le hfit (prefix_append _ _) (sized_eq hu' rfl hn ▸ hle)
  have alone : new pre = [] → t = u ∧ rest = more := by
    intro hnew
    have hnil : pre = [] := by
      apply eq_nil_of_new _ hpre hnew
      intro v hv
      exact hapt v (by rw [hts]; simp [hv])
    rwa [hnil, nil_append, List.cons.injEq] at hts
  simp only [jumpReaches, mem_cons, Prod.mk.injEq, not_mem_nil, or_false] at hreach
  rcases hreach with ⟨hnew, -⟩ | ⟨hnew, hsig, rfl⟩ | ⟨hnew, -⟩ | ⟨hnew, hsig, rfl⟩ |
    ⟨hnew, hsig, rfl⟩ | ⟨hnew, hsig, rfl⟩ | ⟨hnew, hsig, rfl⟩
  · -- The word behind this signature takes up more.
    obtain ⟨front, -, -, hbytes⟩ := head_of_new hts hpre (by simp [hnew])
    have hsig : t.signature = [0x05] :=
      (by decide +kernel : ∀ s ∈ signatures, s <+: [0x05, 0x28] → s = [0x05]) _ ht.listed
        (hnew ▸ hbytes ▸ prefix_append _ _)
    have hlen := congrArg List.length (hnew.symm.trans hbytes)
    rw [length_append, length_append, sized_eq ht hsig (show ([0x05], 4) ∈ sizes by decide)] at hlen
    simp only [length_cons, length_nil] at hlen
    omega
  · obtain ⟨front, hfront, -, hbytes⟩ := head_of_new hts hpre (by simp [hnew])
    have hsteady : t.Steady := hpre t (by simp [hfront])
    have hsig' : t.signature = [0x00, 0x02] :=
      (by decide +kernel : ∀ s ∈ signatures, s ∉ changing → s <+: [0x00, 0x02] →
        s = [0x00, 0x02]) _ ht.listed hsteady.2 (hnew ▸ hbytes ▸ prefix_append _ _)
    exact .inr (.inr ⟨u, more, rest_of_new hapt hts hpre (hnew.trans hsig'.symm),
      .inr ⟨hsig', hsig, hwithin 4 (by rw [hsig]; decide) (by decide)⟩⟩)
  · -- What is in front of the jump would have to end with a text.
    obtain ⟨front, rfl, hrest, hbytes⟩ := head_of_new hts hpre (by simp [hnew])
    have hsig : t.signature = [0x5c] :=
      (by decide +kernel : ∀ s ∈ signatures, s <+: [0x5c, 0x00] → s = [0x5c]) _ ht.listed
        (hnew ▸ hbytes ▸ prefix_append _ _)
    have hafter := length_eq_zero_iff.mp (sized_eq ht hsig (by decide))
    rw [hnew, hsig, hafter, nil_append, singleton_append, List.cons.injEq] at hbytes
    cases front with
    | nil => simp [new] at hbytes
    | cons v front =>
      have hv := hpre v (by simp)
      rw [new_steady hv, append_assoc] at hbytes
      have hsig' : v.signature = [0x00] :=
        (by decide +kernel : ∀ s ∈ signatures, s <+: [0x00] → s = [0x00]) _
          (hapt v (by rw [hts]; simp)).listed (hbytes.2 ▸ prefix_append _ _)
      exact absurd (by rw [hsig']; decide) hv.2
  · obtain ⟨rfl, rfl⟩ := alone hnew
    exact .inl ⟨hsig, .inl (hwithin 4 (by rw [hsig]; decide) (by decide))⟩
  · obtain ⟨rfl, rfl⟩ := alone hnew
    exact .inl ⟨hsig, .inr (hwithin 4 (by rw [hsig]; decide) (by decide))⟩
  · obtain ⟨rfl, rfl⟩ := alone hnew
    exact .inr (.inl ⟨hsig, .inl (hwithin 4 (by rw [hsig]; decide) (by decide))⟩)
  · obtain ⟨rfl, rfl⟩ := alone hnew
    exact .inr (.inl ⟨hsig, .inr (hwithin 4 (by rw [hsig]; decide) (by decide))⟩)

theorem not_across_break (hu : u.signature = lineBreak) (ht : t.signature ≠ lineBreak)
    (hbroken : Broken t.signature rest) (h : s = new pre ++ e) (hfit : e <+: new more) : False := by
  have hmore : ∀ v ∈ more, v.Apt := fun v hv => hapt v (by rw [hts]; simp [hv])
  have hall : Broken t.signature (pre ++ u :: more) := by
    rwa [← hts, Broken, if_neg ht]
  rcases broken_last hpre hu hall with rfl | ⟨init, q, rfl, hq⟩
  · rw [nil_append, List.cons.injEq] at hts
    exact ht (hts.1 ▸ hu)
  · have hsteady := hpre q (by simp)
    have hsig : q.signature = [0x08] :=
      (by decide : ∀ s ∈ breakable, s ∉ changing → s = [0x08]) _ hq hsteady.2
    obtain ⟨b, hafter⟩ := length_eq_one_iff.mp
      (sized_eq (hapt q (by rw [hts]; simp)) hsig (by decide))
    have hcut : s = new init ++ [0x08] ++ (b :: e) := by
      rw [h, new_append, new_steady hsteady, hsig, hafter]
      simp [new]
    rcases behind_break s hs _ (mem_cuts hcut (by simp)) he with rfl | rfl
    · exact not_inner_choice hmore ((by decide : _ <+: choiceSignature.drop 2).trans hfit)
    · exact not_inner hmore ((by decide : _ <+: choiceSignature.drop 6).trans hfit)

end reach

theorem longer_of_overlapped {t : Tile} {rest : List Tile} (hapt : t.Apt)
    (ht : t.signature ≠ lineBreak) (h : Overlapped t rest) :
    ∃ s ∈ signatures, s <+: new (t :: rest) ∧ t.signature.length < s.length := by
  have longer : ∀ e, e ≠ [] → t.signature ++ e ∈ signatures → e <+: t.after ++ new rest →
      ∃ s ∈ signatures, s <+: new (t :: rest) ∧ t.signature.length < s.length := by
    intro e he hmem hfit
    refine ⟨_, hmem, ?_, ?_⟩
    · rw [new, if_neg ht, append_assoc, prefix_append_right_inj]
      exact hfit
    · have := length_pos_iff.mpr he
      rw [length_append]
      omega
  -- Without operands the signature goes on into the next instruction.
  have next : ∀ u more, rest = u :: more → (t.signature, 0) ∈ sizes → u.signature ≠ lineBreak →
      ∀ e, e <+: u.after → u.signature ++ e <+: t.after ++ new rest := by
    intro u more hrest hsize hu e he
    rw [length_eq_zero_iff.mp (sized_eq hapt rfl hsize), hrest, new, if_neg hu,
      nil_append, append_assoc, prefix_append_right_inj]
    exact he.trans (prefix_append _ _)
  rcases h with ⟨hsig, hafter | hafter⟩ | ⟨hsig, hafter | hafter⟩ |
    ⟨u, more, hrest, ⟨hsig, hu, hafter⟩ | ⟨hsig, hu, hafter⟩⟩
  · exact longer _ (by simp) (by rw [hsig]; decide +kernel) (hafter.trans (prefix_append _ _))
  · exact longer _ (by simp) (by rw [hsig]; decide +kernel) (hafter.trans (prefix_append _ _))
  · exact longer _ (by simp) (by rw [hsig]; decide +kernel) (hafter.trans (prefix_append _ _))
  · exact longer _ (by simp) (by rw [hsig]; decide +kernel) (hafter.trans (prefix_append _ _))
  · exact longer _ (by simp [hu]) (by rw [hsig, hu]; decide +kernel)
      (next u more hrest (by rw [hsig]; decide) (by rw [hu]; decide) _ hafter)
  · exact longer _ (by simp [hu]) (by rw [hsig, hu]; decide +kernel)
      (next u more hrest (by rw [hsig]; decide) (by rw [hu]; decide) _ hafter)

theorem longest_iff {t : Tile} {rest : List Tile} (hapt : ∀ v ∈ t :: rest, v.Apt)
    (ht : t.signature ≠ lineBreak) (hbroken : Broken t.signature rest)
    (hold : ∀ s ∈ signatures, s <+: old (t :: rest) → s.length ≤ t.signature.length) :
    (∀ s ∈ signatures, s <+: new (t :: rest) → s.length ≤ t.signature.length) ↔
      ¬ Overlapped t rest := by
  constructor
  · intro hlongest hover
    obtain ⟨s, hs, hfit, hlt⟩ := longer_of_overlapped (hapt t (by simp)) ht hover
    exact absurd (hlongest s hs hfit) (by omega)
  · intro hover s hs hfit
    rcases prefix_new hfit with hagreed | ⟨pre, u, more, e, hts, hpre, he, hreach⟩
    · exact hold s hs (hagreed.trans (agreed_old hapt))
    · exfalso
      rcases hreach with ⟨hu, h, hfit⟩ | ⟨-, hu, h, hfit⟩
      · exact not_across_break hs hapt hts hpre he hu ht hbroken h hfit
      · rcases mem_cons.mp hu with hu | hu
        · exact hover (overlapped_of_text hs hapt hts hpre he hu (hu ▸ h) hfit hold)
        · exact hover (overlapped_of_jump hs hapt hts hpre he hu h hfit)

end Tile
end SceneText
