import SceneText.Proofs.StandIns

/-!
# Requests to a pool

Stand-ins are asked for one by one or for whole texts, and a request may fail because none is left.
Whatever the requests, the stand-ins given out, in the order in which they were first asked for, and
those still free are the stock in its order; a value keeps the stand-in that it has got, and the
table of the pool leads every stand-in back.
-/

namespace SceneText.Pool

open List Json

variable {stock free : List String} {asked : List Json} {pool : Pool} {u v : Json} {q r : String}
  {fault : Fault}

inductive Request
  | get (v : Json)
  | map (text : Json)

/-- What a request gives back, and the pool that it leaves. -/
def perform (pool : Pool) : Request → Except Fault String × Pool
  | .get v => pool.getFor v
  | .map text => pool.mapText text

def serve (pool : Pool) (requests : List Request) : Pool :=
  requests.foldl (fun pool request => (pool.perform request).2) pool

theorem standIn?_eq_some (h : pool.standIn? v = some r) :
    ∃ u, (u, r) ∈ pool.assigned ∧ u.sameKey v = true := by
  obtain ⟨⟨u, q⟩, he, rfl⟩ := Option.map_eq_some_iff.mp h
  have hkey := @find?_some _ (fun pair : Json × String => pair.1.sameKey v) _ _ he
  exact ⟨u, mem_of_find?_eq_some he, hkey⟩

/-- A pool from which nothing has been given out. -/
def start (cs : Charset) (stock : List String) : Pool :=
  { charset := cs, free := stock }

def grant (pool : Pool) (v : Json) : Pool :=
  (pool.get v).2

theorem grant_known (h : pool.standIn? v = some r) : pool.grant v = pool := by
  rw [grant, get, h]

theorem grant_exhausted (h : pool.standIn? v = none) (hfree : pool.free = []) :
    pool.grant v = pool := by
  rw [grant, get, h, hfree]

theorem grant_new (h : pool.standIn? v = none) (hfree : pool.free = q :: free) :
    pool.grant v =
      { pool with
        free := free
        assigned := pool.assigned ++ [(v, q)]
        table := setField q v pool.table } := by
  rw [grant, get, h, hfree]

def unitsAsked (pool : Pool) : List Json → List Json
  | .str s :: rest =>
    if pool.charset.hasText s.toList then pool.unitsAsked rest
    else .str s :: match pool.get (.str s) with
      | (.ok _, pool) => pool.unitsAsked rest
      | (.error _, _) => []
  | _ => []

def asks (pool : Pool) : Request → List Json
  | .get v => v.asKey.toOption.toList
  | .map text => (text.elements.map pool.unitsAsked).toOption.getD []

/-- The values that requests ask for, in order. -/
def history (pool : Pool) : List Request → List Json
  | [] => []
  | request :: rest => pool.asks request ++ history (pool.perform request).2 rest

theorem mapUnits_pool (units : List Json) :
    (pool.mapUnits units).2 = (pool.unitsAsked units).foldl grant pool := by
  induction units generalizing pool with
  | nil => rfl
  | cons unit rest ih =>
    cases unit with
    | str s =>
      rw [mapUnits, mapUnit, unitsAsked]
      by_cases hs : pool.charset.hasText s.toList = true
      · rw [if_pos hs, if_pos hs, ← ih]
        dsimp only
        split <;> simp [*]
      · rw [if_neg hs, if_neg hs, foldl_cons, grant]
        rcases pool.get (.str s) with ⟨fault | standIn, pool⟩
        · rfl
        · dsimp only
          rw [← ih]
          split <;> simp [*]
    | _ => rfl

theorem perform_pool (request : Request) :
    (pool.perform request).2 = (pool.asks request).foldl grant pool := by
  cases request with
  | get v =>
    rw [perform, getFor, asks]
    cases v.asKey <;> rfl
  | map text =>
    rw [perform, mapText, asks]
    cases text.elements with
    | error fault => rfl
    | ok units =>
      change _ = (pool.unitsAsked units).foldl grant pool
      rw [← mapUnits_pool]
      dsimp only
      split <;> simp [*]

theorem get_error (h : (pool.get v).1 = .error fault) : (pool.get v).2 = pool := by
  unfold get at h ⊢
  split
  · rfl
  · next hv =>
    rw [hv] at h
    split
    · rfl
    · next hfree =>
      rw [hfree] at h
      cases h

theorem serve_eq (pool : Pool) (requests : List Request) :
    pool.serve requests = (pool.history requests).foldl grant pool := by
  induction requests generalizing pool with
  | nil => rfl
  | cons request rest ih =>
    rw [history, foldl_append, ← perform_pool, ← ih]
    rfl

def add (asked : List Json) (v : Json) : List Json :=
  if asked.any (·.sameKey v) then asked else asked ++ [v]

def firsts (asked : List Json) : List Json :=
  asked.foldl add []

theorem firsts_concat (asked : List Json) (v : Json) :
    firsts (asked ++ [v]) = add (firsts asked) v := by
  simp [firsts]

theorem firsts_distinct (asked : List Json) :
    (firsts asked).Pairwise fun a b => a.sameKey b = false := by
  induction asked using List.reverseRecOn with
  | nil => exact .nil
  | append_singleton asked v ih =>
    rw [firsts_concat, add]
    split
    · exact ih
    · next hnew =>
      refine pairwise_append.mpr ⟨ih, pairwise_singleton _ _, fun a ha b hb => ?_⟩
      rw [mem_singleton.mp hb]
      exact Bool.eq_false_iff.mpr fun hsame => hnew (any_eq_true.mpr ⟨a, ha, hsame⟩)

/-- What a pool has given out after values were asked for: the stand-ins of the stock from the first
on, each to the value that was first asked for next, and as many as there are. -/
structure Ledger (stock : List String) (asked : List Json) (pool : Pool) : Prop where
  given : pool.assigned = ((firsts asked).take stock.length).zip stock
  kept : pool.assigned.map Prod.snd ++ pool.free = stock
  mirrored : pool.table = pool.assigned.map Prod.swap

namespace Ledger

theorem start (cs : Charset) (stock : List String) : Ledger stock [] (start cs stock) where
  given := by
    rw [show firsts [] = [] from rfl, take_nil, zip_nil_left]
    rfl
  kept := rfl
  mirrored := rfl

section

variable (h : Ledger stock asked pool)
include h

theorem keys : pool.assigned.map Prod.fst = (firsts asked).take stock.length := by
  rw [h.given, map_fst_zip]
  exact length_take_le _ _

theorem distinct : pool.assigned.Pairwise fun a b => a.1.sameKey b.1 = false := by
  rw [← pairwise_map (f := Prod.fst) (R := fun a b : Json => a.sameKey b = false), h.keys]
  exact (firsts_distinct asked).take

theorem nodup (hstock : stock.Nodup) : (pool.assigned.map Prod.snd).Nodup := by
  rw [← h.kept] at hstock
  exact hstock.of_append_left

theorem grant (hstock : stock.Nodup) (v : Json) : Ledger stock (asked ++ [v]) (pool.grant v) := by
  have hkeys := h.keys
  have hlength := congrArg length hkeys
  rw [length_map, length_take] at hlength
  have hstocked := congrArg length h.kept
  rw [length_append, length_map] at hstocked
  have hlater
      (hnot : stock.length ≤ (firsts asked).length ∨ (firsts asked).any (·.sameKey v) = true) :
      Ledger stock (asked ++ [v]) pool := by
    refine ⟨?_, h.kept, h.mirrored⟩
    rw [firsts_concat, add]
    split
    · exact h.given
    · next hnew =>
      rw [take_append_of_le_length (hnot.resolve_right hnew)]
      exact h.given
  cases hv : pool.standIn? v with
  | some r =>
    rw [grant_known hv]
    obtain ⟨u, hu, hsame⟩ := standIn?_eq_some hv
    have hmem : u ∈ (firsts asked).take stock.length := hkeys ▸ mem_map_of_mem hu
    exact hlater (.inr (any_eq_true.mpr ⟨u, mem_of_mem_take hmem, hsame⟩))
  | none =>
    cases hfree : pool.free with
    | nil =>
      rw [hfree, length_nil] at hstocked
      rw [grant_exhausted hv hfree]
      exact hlater (.inl (by omega))
    | cons q free =>
      rw [hfree, length_cons] at hstocked
      rw [grant_new hv hfree]
      have hwhole : (firsts asked).take stock.length = firsts asked := take_of_length_le (by omega)
      have hnew : ¬(firsts asked).any (·.sameKey v) = true := by
        rw [← hwhole, ← hkeys, any_map, any_eq_true]
        rintro ⟨e, he, hsame⟩
        exact find?_eq_none.mp (Option.map_eq_none_iff.mp hv) e he hsame
      have hkept := h.kept
      rw [hfree] at hkept
      have hnext : stock[(firsts asked).length]? = some q := by
        have hcount : (firsts asked).length = (pool.assigned.map Prod.snd).length := by
          rw [length_map]
          omega
        rw [← hkept, hcount, getElem?_append_right (Nat.le_refl _)]
        simp
      have hfresh : q ∉ pool.table.map Prod.fst := by
        rw [← hkept, nodup_append] at hstock
        rw [h.mirrored, map_map]
        exact fun hmem => hstock.2.2 q hmem q mem_cons_self rfl
      refine ⟨?_, by simpa using hkept, ?_⟩
      · rw [firsts_concat, add, if_neg hnew, take_of_length_le (by simp; omega),
          zip_new _ _ _ hnext, ← hwhole, ← h.given]
      · rw [setField_new _ _ _ hfresh, h.mirrored, map_append]
        rfl

theorem grants (hstock : stock.Nodup) (more : List Json) :
    Ledger stock (asked ++ more) (more.foldl Pool.grant pool) := by
  induction more generalizing asked pool with
  | nil => simpa using h
  | cons v more ih => simpa using ih (h.grant hstock v)

theorem lookup_of_standIn? (hstock : stock.Nodup)
    (hv : pool.standIn? v = some r) : ∃ u, pool.table.lookup r = some u ∧ u.sameKey v = true := by
  obtain ⟨u, hu, hsame⟩ := standIn?_eq_some hv
  refine ⟨u, lookup_of_mem ?_ ?_, hsame⟩
  · rw [h.mirrored, map_map]
    exact h.nodup hstock
  · rw [h.mirrored]
    exact mem_map_of_mem hu

theorem standIn?_of_lookup (hr : pool.table.lookup r = some u)
    (hu : u.sameKey u = true) : pool.standIn? u = some r := by
  obtain ⟨front, back, htable, -⟩ := lookup_eq_some_iff.mp hr
  rw [h.mirrored] at htable
  obtain ⟨before, rest, hsplit, -, hrest⟩ := map_eq_append_iff.mp htable
  obtain ⟨⟨k, q⟩, after, rfl, hswap, -⟩ := map_eq_cons_iff.mp hrest
  obtain ⟨rfl, rfl⟩ : q = r ∧ k = u := Prod.mk.inj hswap
  -- No value that was given a stand-in earlier is the same key.
  have hdistinct := h.distinct
  rw [hsplit, pairwise_append] at hdistinct
  have hnone : before.find? (fun pair => pair.1.sameKey k) = none :=
    find?_eq_none.mpr fun e he => by
      rw [hdistinct.2.2 e he _ mem_cons_self]
      exact Bool.false_ne_true
  rw [standIn?, hsplit, find?_append, hnone, Option.none_or, find?_cons_of_pos (by exact hu),
    Option.map_some]

end

end Ledger

theorem standIn?_grant (h : pool.standIn? v = some r) (u : Json) :
    (pool.grant u).standIn? v = some r := by
  cases hu : pool.standIn? u with
  | some q => rwa [grant_known hu]
  | none =>
    cases hfree : pool.free with
    | nil => rwa [grant_exhausted hu hfree]
    | cons q free =>
      rw [grant_new hu hfree]
      obtain ⟨e, he, hr⟩ := Option.map_eq_some_iff.mp h
      rw [standIn?, find?_append, he, Option.some_or, Option.map_some, hr]

theorem standIn?_serve (h : pool.standIn? v = some r) (requests : List Request) :
    (pool.serve requests).standIn? v = some r := by
  rw [serve_eq]
  generalize pool.history requests = asked
  induction asked generalizing pool with
  | nil => exact h
  | cons u asked ih => exact ih (standIn?_grant h u)

/-- However a pool is used, it gives its stand-ins out in their order to the values that are first
asked for, each to one value, and can lead them back. -/
theorem serve_gives_in_order (cs : Charset) (hstock : stock.Nodup) (requests : List Request)
    (hpool : (start cs stock).serve requests = pool) :
    Ledger stock ((start cs stock).history requests) pool ∧
      (pool.assigned.Pairwise fun a b => a.1.sameKey b.1 = false) ∧
      (pool.assigned.map Prod.snd).Nodup ∧
      (∀ v r, pool.standIn? v = some r → ∃ u, pool.table.lookup r = some u ∧ u.sameKey v = true) ∧
      (∀ u r, pool.table.lookup r = some u → u.sameKey u = true → pool.standIn? u = some r) ∧
      (∀ v r more, pool.standIn? v = some r → (pool.serve more).standIn? v = some r) ∧
      ∀ v fault, (pool.perform (.get v)).1 = .error fault → (pool.perform (.get v)).2 = pool := by
  have h : Ledger stock ((start cs stock).history requests) pool := by
    rw [← hpool, serve_eq]
    exact (Ledger.start cs stock).grants hstock _
  refine ⟨h, h.distinct, h.nodup hstock, fun v r hv => h.lookup_of_standIn? hstock hv,
    fun u r hu huu => h.standIn?_of_lookup hu huu, fun v r more hv => standIn?_serve hv more,
    fun v fault hfault => ?_⟩
  rw [perform, getFor] at hfault ⊢
  cases hkey : v.asKey with
  | error fault => rfl
  | ok key =>
    rw [hkey] at hfault
    exact get_error hfault

def pairRequests : List Request :=
  [.get (.str "x"), .map (.arr [.str "a", .int 5]), .get (.str "y"), .get (.str "x"),
   .get (.arr []), .get (.str "z")]

theorem serve_gives_in_order_pair :
    ((start .cp932 ["p", "q"]).serve pairRequests).assigned = [(.str "x", "p"), (.str "y", "q")] ∧
      ((start .cp932 ["p", "q"]).serve pairRequests).table.lookup "q" = some (.str "y") := by
  have h := @serve_gives_in_order ["p", "q"] _ .cp932 (by decide) pairRequests rfl
  refine ⟨h.1.given.trans rfl, ?_⟩
  rw [h.1.mirrored, h.1.given]
  rfl

end SceneText.Pool
