import Olwsx.Cache.Contract

/-!
# Tier L1: the bounded FIFO

`cache/l1.rs`: a map and the insertion-history queue `order`. An insert queues its key only when
the map has no entry for it, then pops the front of the queue, removing that key's entry, while the
queue is longer than `MAX_ENTRIES`. An invalidate of a live key removes it from the map and
filters it out of the queue; an expiry purge on lookup touches the map only.

- `inv_reachable`: in every reachable state every key of the map is queued and the queue holds at
  most `maxEntries` keys (`Inv`); hence at most `maxEntries` entries (`map_card_le`).
- `evict_of_le`: the eviction loop does nothing while the queue is within capacity.
- `lookup_after_insert`: from a reachable state, an insert followed by a lookup before the entry
  expires returns the entry, except exactly when the key had no entry, the queue was full and the
  key's own stale record was at its front.
-/

set_option autoImplicit false

namespace Olwsx.Cache.L1

/-- `MAX_ENTRIES`. -/
def maxEntries : Nat := 1024

/-- `State`: the map and the insertion-history queue, front first. -/
structure State (K : Type) where
  map : Store K
  order : List K

variable {K : Type} [DecidableEq K]

/-- `L1::new()`. -/
def new : State K := ⟨∅, []⟩

/-- `lookup`: the map lookup with lazy expiry; the queue is left as it is. -/
def lookup (st : State K) (key : K) (now : Nat) : State K × Reply :=
  (⟨(st.map.lookupPurge key now).1, st.order⟩, (st.map.lookupPurge key now).2)

/-- The loop `while order.len() > MAX_ENTRIES { pop_front; map.remove(old) }` of `insert`. -/
def evict : List K → Store K → State K
  | [], map => ⟨map, []⟩
  | old :: rest, map =>
      if maxEntries < rest.length + 1 then evict rest (map.erase old) else ⟨map, old :: rest⟩

/-- `insert`: queue the key if the map has no entry for it, store the entry, then evict. -/
def insert (st : State K) (key : K) (entry : Entry) : State K × Reply :=
  (evict (if key ∈ st.map then st.order else st.order ++ [key]) (st.map.insert key entry), .done)

/-- `invalidate`: remove a live key from the map and filter it out of the queue. -/
def invalidate (st : State K) (key : K) : State K × Reply :=
  if key ∈ st.map then (⟨st.map.erase key, st.order.filter (· != key)⟩, .done)
  else (st, .fail .notFound)

/-- One call of the `Cache` trait on L1. -/
def step (st : State K) : Op K → State K × Reply
  | .lookup key now => lookup st key now
  | .insert key entry => insert st key entry
  | .invalidate key => invalidate st key

/-- L1 behind the `Cache` trait; every call returns. -/
def tier : Tier (State K) K := ⟨new, fun st op => some (step st op)⟩

/-! ## The eviction loop -/

/-- Within capacity the loop does nothing. -/
theorem evict_of_le {order : List K} (map : Store K) (h : order.length ≤ maxEntries) :
    evict order map = ⟨map, order⟩ := by
  cases order with
  | nil => rfl
  | cons old rest =>
      simp only [List.length_cons] at h
      simp only [evict, if_neg (show ¬maxEntries < rest.length + 1 by omega)]

/-- The loop leaves the queue within capacity and removes the entry of every key it pops, so a
map whose keys are all queued stays so. -/
theorem evict_inv (order : List K) (map : Store K) (h : ∀ k ∈ map, k ∈ order) :
    (∀ k ∈ (evict order map).map, k ∈ (evict order map).order) ∧
      (evict order map).order.length ≤ maxEntries := by
  induction order generalizing map with
  | nil => exact ⟨h, by simp [evict]⟩
  | cons old rest ih =>
      simp only [evict]
      split
      · refine ih _ fun k hk => ?_
        rw [AList.mem_erase] at hk
        simpa [hk.1] using h k hk.2
      · exact ⟨h, by simp only [List.length_cons]; omega⟩

/-! ## The invariant -/

/-- What every reachable state of L1 satisfies. -/
structure Inv (st : State K) : Prop where
  queued : ∀ k ∈ st.map, k ∈ st.order
  order_le : st.order.length ≤ maxEntries

theorem lookup_inv {st : State K} (h : Inv st) (key : K) (now : Nat) :
    Inv (lookup st key now).1 := by
  refine ⟨fun k hk => h.queued k ?_, h.order_le⟩
  rcases Store.lookupPurge_fst st.map key now with e | e <;> simp only [lookup, e] at hk
  · exact hk
  · exact (AList.mem_erase.1 hk).2

theorem insert_inv {st : State K} (h : Inv st) (key : K) (entry : Entry) :
    Inv (insert st key entry).1 := by
  refine ⟨(evict_inv _ _ fun k hk => ?_).1, (evict_inv _ _ fun k hk => ?_).2⟩ <;>
  · rcases (AList.mem_insert _).1 hk with rfl | hk
    · split <;> simp_all [h.queued k]
    · split <;> simp [h.queued k hk]

theorem invalidate_inv {st : State K} (h : Inv st) (key : K) : Inv (invalidate st key).1 := by
  unfold invalidate
  split
  · refine ⟨fun k hk => ?_, (List.length_filter_le _ _).trans h.order_le⟩
    obtain ⟨hne, hk⟩ := AList.mem_erase.1 hk
    simpa [hne] using h.queued k hk
  · exact h

/-- Every reachable state keeps every key of its map queued, and at most `maxEntries` keys in
the queue. -/
theorem inv_reachable {st : State K} (h : tier.Reachable st) : Inv st := by
  refine Tier.Reachable.rec_total (fun _ _ => rfl) ⟨by simp [tier, new], by simp [tier, new]⟩
    (fun s op hs => ?_) h
  cases op with
  | lookup key now => exact lookup_inv hs key now
  | insert key entry => exact insert_inv hs key entry
  | invalidate key => exact invalidate_inv hs key

omit [DecidableEq K] in
/-- A map whose keys are all queued has at most as many entries as the queue. -/
theorem map_card_le {st : State K} (h : Inv st) : st.map.keys.length ≤ maxEntries :=
  (List.subperm_of_subset st.map.keys_nodup fun k hk =>
    h.queued k (AList.mem_keys.2 hk)).length_le.trans h.order_le

/-- In every reachable state of L1 every key with an entry is queued, the queue holds at most
`maxEntries` (1024) keys, and so the map holds at most 1024 entries. -/
theorem reachable_queue_bounded {st : State K} (h : tier.Reachable st) :
    (∀ k ∈ st.map, k ∈ st.order) ∧ st.order.length ≤ maxEntries ∧
      st.map.keys.length ≤ maxEntries :=
  ⟨(inv_reachable h).queued, (inv_reachable h).order_le, map_card_le (inv_reachable h)⟩

/-- A run with an overwrite of `[2]`, an expiry purge of `[1]` that leaves its queue record
behind, and an invalidate of `[2]`: it ends with an empty map and `order = [[1]]`. -/
def purgeRun : List (Op Key) :=
  [.insert [1] ⟨[1], 0, 0, 1⟩, .insert [2] ⟨[2], 0, 0, 9⟩, .insert [2] ⟨[3], 0, 0, 9⟩,
    .lookup [1] 5, .invalidate [2]]

/-- `reachable_queue_bounded` at the state `purgeRun` reaches. -/
theorem queue_bounded_after_purge :
    ∃ st : State Key, tier.exec new purgeRun = some st ∧ st.order = [[1]] ∧ tier.Reachable st ∧
      ((∀ k ∈ st.map, k ∈ st.order) ∧ st.order.length ≤ maxEntries ∧
        st.map.keys.length ≤ maxEntries) :=
  have hr := Tier.Reachable.exec .init (rfl : tier.exec new purgeRun = some ⟨∅, [[1]]⟩)
  ⟨_, rfl, rfl, hr, reachable_queue_bounded hr⟩

/-! ## Inserts within capacity -/

/-- An insert of a key without an entry, within capacity, queues the key at the back. -/
theorem insert_fresh {st : State K} {key : K} (entry : Entry) (hk : key ∉ st.map)
    (hcap : st.order.length < maxEntries) :
    insert st key entry = (⟨st.map.insert key entry, st.order ++ [key]⟩, .done) := by
  have hle : (st.order ++ [key]).length ≤ maxEntries := by simpa using hcap
  simp [insert, hk, evict_of_le _ hle]

/-- Inserting distinct keys without entries one after another, within capacity, queues them in
order and stores them. -/
theorem exec_insert_fresh (e : Entry) :
    ∀ (ks : List K) (st : State K), ks.Nodup → (∀ k ∈ ks, k ∉ st.map) →
      st.order.length + ks.length ≤ maxEntries →
      ∃ map : Store K, tier.exec st (ks.map (.insert · e)) = some ⟨map, st.order ++ ks⟩ ∧
        ∀ k, k ∈ map ↔ k ∈ st.map ∨ k ∈ ks := by
  intro ks
  induction ks with
  | nil => intro st _ _ _; exact ⟨st.map, by simp [Tier.exec], by simp⟩
  | cons k ks ih =>
      intro st hnd hfresh hcap
      obtain ⟨hk, hnd⟩ := List.nodup_cons.1 hnd
      have hins := insert_fresh e (hfresh k (List.mem_cons_self _ _))
        (by simp only [List.length_cons] at hcap; omega)
      obtain ⟨map, hexec, hmem⟩ := ih ⟨st.map.insert k e, st.order ++ [k]⟩ hnd
        (fun k' hk' => by
          simp only [AList.mem_insert, not_or]
          exact ⟨fun h => hk (h ▸ hk'), hfresh k' (List.mem_cons_of_mem _ hk')⟩)
        (by simp only [List.length_append, List.length_cons, List.length_nil] at hcap ⊢; omega)
      refine ⟨map, ?_, fun k' => by
        simp only [hmem, AList.mem_insert, List.mem_cons, or_assoc, or_left_comm]⟩
      simpa [Tier.exec, tier, step, hins] using hexec

/-! ## A queue record outliving its entry -/

/-- The entry of the failing run: created at instant 0 with a zero TTL. -/
def staleEntry : Entry := ⟨[], 0, 0, 0⟩

/-- The run before the failing insert: key `[]` is inserted and purged as expired by a lookup one
nanosecond later, which leaves its queue record; then 1023 other keys are inserted. -/
def staleRun : List (Op Key) :=
  [.insert [] staleEntry, .lookup [] 1] ++ (zeroKeys 1023).map (.insert · staleEntry)

/-- After `staleRun` the map has no entry for `[]`, yet an insert of `[]` with an entry that lives
for 1000 ns is undone by its own eviction loop: the loop pops the stale record of `[]` and removes
the new entry, so an immediate lookup one nanosecond after its creation is `NotFound`. -/
theorem reinsert_after_purge_lost :
    ∃ st, tier.exec new staleRun = some st ∧ ([] : Key) ∉ st.map ∧
      (⟨[1], 0, 1, 1000⟩ : Entry).isExpired 1 = false ∧
      (lookup (insert st [] ⟨[1], 0, 1, 1000⟩).1 [] 1).2 = .fail .notFound := by
  let st0 : State Key := ⟨∅, [[]]⟩
  have h0 : tier.exec new [.insert [] staleEntry, .lookup [] 1] = some st0 := rfl
  obtain ⟨map, hexec, hmem⟩ := exec_insert_fresh staleEntry (zeroKeys 1023) st0
    (zeroKeys_nodup _) (fun k _ => AList.not_mem_empty k) (by simp [st0, maxEntries])
  have hnil : ([] : Key) ∉ map := by simp [hmem, st0, nil_not_mem_zeroKeys]
  refine ⟨_, by rw [staleRun, Tier.exec_append, h0, Option.some_bind]; exact hexec, hnil, by decide, ?_⟩
  have hlen : maxEntries < (zeroKeys 1023 ++ [[]]).length + 1 := by simp [maxEntries]
  have hle : (zeroKeys 1023 ++ [[]]).length ≤ maxEntries := by simp [maxEntries]
  have hins : (insert ⟨map, st0.order ++ zeroKeys 1023⟩ [] ⟨[1], 0, 1, 1000⟩).1 =
      ⟨(map.insert [] ⟨[1], 0, 1, 1000⟩).erase [], zeroKeys 1023 ++ [[]]⟩ := by
    show (evict (if [] ∈ map then [[]] ++ zeroKeys 1023 else [[]] ++ zeroKeys 1023 ++ [[]])
      (map.insert [] ⟨[1], 0, 1, 1000⟩)) = _
    rw [if_neg hnil, List.singleton_append, List.cons_append, evict, if_pos hlen, evict_of_le _ hle]
  rw [hins]
  simp [lookup, Store.lookupPurge]

/-! ## When an insert loses its own entry -/

/-- One key over capacity, the loop pops the front key once. -/
theorem evict_of_succ {old : K} {rest : List K} (map : Store K)
    (h : rest.length = maxEntries) : evict (old :: rest) map = ⟨map.erase old, rest⟩ := by
  rw [evict, if_pos (by omega), evict_of_le _ h.le]

/-- From a reachable state, an insert followed by a lookup of the key before the entry expires
returns the entry, except in exactly one case: the key had no entry, the queue was full, and the
key's own stale record was at its front. Then the eviction loop pops that record and removes the
new entry, and the lookup is `NotFound`. -/
theorem lookup_after_insert {st : State K} (h : tier.Reachable st) (key : K) (entry : Entry)
    {now : Nat} (hx : entry.isExpired now = false) :
    (lookup (insert st key entry).1 key now).2 =
      if key ∉ st.map ∧ st.order.length = maxEntries ∧ st.order.head? = some key then
        .fail .notFound
      else .hit entry := by
  have hi := inv_reachable h
  have hhit : ∀ m : Store K, m.lookup key = some entry → (m.lookupPurge key now).2 = .hit entry :=
    fun m hm => by simp [Store.lookupPurge, hm, hx]
  by_cases hk : key ∈ st.map
  · rw [if_neg (fun hc => hc.1 hk)]
    simpa [insert, hk, evict_of_le _ hi.order_le] using hhit _ (AList.lookup_insert _)
  by_cases hfull : st.order.length = maxEntries
  · obtain ⟨old, rest, ho⟩ : ∃ old rest, st.order = old :: rest :=
      List.exists_cons_of_length_pos (by rw [hfull]; decide)
    have hev : (insert st key entry).1 = ⟨(st.map.insert key entry).erase old, rest ++ [key]⟩ := by
      rw [insert, if_neg hk, ho, List.cons_append, evict_of_succ]
      simpa [ho] using hfull
    rw [hev]
    by_cases hold : old = key
    · subst hold
      rw [if_pos ⟨hk, hfull, by simp [ho]⟩]
      simp [lookup, Store.lookupPurge]
    · rw [if_neg (by simp [ho, hold])]
      exact hhit _ (by rw [AList.lookup_erase_ne (Ne.symm hold), AList.lookup_insert])
  · rw [if_neg (fun hc => hfull hc.2.1)]
    have hle : (st.order ++ [key]).length ≤ maxEntries := by
      simpa using lt_of_le_of_ne hi.order_le hfull
    simpa [insert, hk, evict_of_le _ hle] using hhit _ (AList.lookup_insert _)

/-- `lookup_after_insert` at the fresh state, where the insert keeps its entry. -/
theorem lookup_after_insert_new :
    tier.Reachable (new : State Key) ∧ (⟨[1], 0, 0, 5⟩ : Entry).isExpired 0 = false ∧
    (lookup (insert new [1] ⟨[1], 0, 0, 5⟩).1 [1] 0).2 =
      if [1] ∉ (new : State Key).map ∧ (new : State Key).order.length = maxEntries ∧
        (new : State Key).order.head? = some [1] then .fail .notFound else .hit ⟨[1], 0, 0, 5⟩ :=
  ⟨.init, rfl, lookup_after_insert .init [1] _ rfl⟩

end Olwsx.Cache.L1
