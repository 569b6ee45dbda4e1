import Olwsx.Cache.Freshness
import Olwsx.Cache.L2Invariant

/-!
# Below capacity the bounded tiers are the facade

L3 keeps every write. Run from fresh states on the same calls, L1 gives L3's reply to every call
as long as the run makes at most `MAX_ENTRIES` inserts, and L2 as long as it makes at most
`MAX_ITEMS` inserts whose entries have a nonzero TTL (so that L2 stores them as given) and fit
under `MAX_VALUE_BYTES`. The overwrites, lookups, expiry purges and invalidates in between are
unrestricted.

Each comparison is a lockstep simulation (`Tier.run_eq_of_simulation`) whose relation keeps the
two maps equal and a budget of room: the queue of L1, or `t1` and `t2` of L2, has room for as many
keys as inserts remain, so the eviction loops never pop a key.

Past capacity the bounded tiers only miss (`bounded_tiers_only_miss`): with no budget, the
simulation keeps the bounded tier's map below L3's (`Store.Sub`), and each reply of the bounded
tier is L3's reply or `NotFound` (`MissOr`).
-/

set_option autoImplicit false

namespace Olwsx.Cache

variable {K : Type} [DecidableEq K]

/-! ## L1 and L3 -/

/-- L1 and L3 in lockstep with `n` inserts left: the same map, and room in the queue for `n`
more keys. -/
def SimL1 (n : Nat) (st : L1.State K) (map : Store K) : Prop :=
  st.map = map ∧ st.order.length + n ≤ L1.maxEntries

theorem simL1_step (n : Nat) (st : L1.State K) (map : Store K) (op : Op K)
    (hR : SimL1 n st map) (hn : op.isInsert → 0 < n) :
    ∃ st' map' r, L1.tier.step st op = some (st', r) ∧ L3.tier.step map op = some (map', r) ∧
      SimL1 (if op.isInsert then n - 1 else n) st' map' := by
  obtain ⟨rfl, hlen⟩ := hR
  cases op with
  | lookup key now => exact ⟨_, _, _, rfl, rfl, rfl, hlen⟩
  | insert key entry =>
      have hn : 0 < n := hn rfl
      have hgrow : (if key ∈ st.map then st.order else st.order ++ [key]).length ≤
          st.order.length + 1 := by
        split <;> simp
      refine ⟨_, _, _, rfl, rfl, ?_⟩
      simp only [L1.step, L1.insert, L1.evict_of_le _ (hgrow.trans (by omega)), Op.isInsert,
        if_true]
      exact ⟨rfl, show (if key ∈ st.map then st.order else st.order ++ [key]).length + (n - 1) ≤
        L1.maxEntries by omega⟩
  | invalidate key =>
      by_cases hk : key ∈ st.map
      · refine ⟨⟨st.map.erase key, st.order.filter (· != key)⟩, st.map.erase key, .done,
          by simp [L1.tier, L1.step, L1.invalidate, hk], by simp [L3.tier, L3.invalidate, hk],
          rfl, ?_⟩
        have := List.length_filter_le (· != key) st.order
        simp only [Op.isInsert, Bool.false_eq_true, if_false]; omega
      · exact ⟨st, st.map, .fail .notFound, by simp [L1.tier, L1.step, L1.invalidate, hk],
          by simp [L3.tier, L3.invalidate, hk], rfl, hlen⟩

/-! ## L2 and L3 -/

/-- The inserts L2 stores as given: a nonzero TTL, and a value within `MAX_VALUE_BYTES`. -/
def StoredAsGiven (op : Op K) : Prop :=
  ∀ key entry, op = .insert key entry → 0 < entry.ttl ∧ entry.value.length ≤ L2.maxValueBytes

/-- L2 and L3 in lockstep with `n` inserts left: L2's invariant, the same map, and room in `t1`
and `t2` for `n` more keys. -/
def SimL2 (n : Nat) (st : L2.State K) (map : Store K) : Prop :=
  L2.Inv st ∧ st.map = map ∧ st.size + n ≤ L2.maxItems

theorem simL2_step (n : Nat) (st : L2.State K) (map : Store K) (op : Op K)
    (hG : StoredAsGiven op) (hR : SimL2 n st map) (hn : op.isInsert → 0 < n) :
    ∃ st' map' r, L2.tier.step st op = some (st', r) ∧ L3.tier.step map op = some (map', r) ∧
      SimL2 (if op.isInsert then n - 1 else n) st' map' := by
  obtain ⟨hi, rfl, hsize⟩ := hR
  cases op with
  | lookup key now =>
      cases he : st.map.lookup key with
      | none =>
          have hs : L2.step st (.lookup key now) = _ := L2.lookup_of_miss now he
          exact ⟨_, _, _, hs, by simp [L3.tier, L3.lookup, Store.lookupPurge, he], hi.step hs,
            rfl, hsize⟩
      | some e =>
          cases hx : e.isExpired now
          · have hs : L2.step st (.lookup key now) = _ := L2.lookup_of_live hi he hx
            have hk : key ∈ st.t1 ++ st.t2 := hi.live key (AList.lookup_isSome.1 (by simp [he]))
            refine ⟨_, st.map, _, hs, by simp [L3.tier, L3.lookup, Store.lookupPurge, he, hx],
              hi.step hs, by simp, ?_⟩
            rw [L2.touchMove_size, if_pos (by simpa using hk)]; exact hsize
          · have hs : L2.step st (.lookup key now) = _ := L2.lookup_of_expired he hx
            exact ⟨_, _, _, hs, by simp [L3.tier, L3.lookup, Store.lookupPurge, he, hx],
              hi.step hs, rfl, hsize⟩
  | insert key entry =>
      obtain ⟨httl, hv⟩ := hG key entry rfl
      have hn : 0 < n := hn rfl
      have hsz := L2.touchMove_size_le_succ { st with map := st.map.insert key (L2.stored entry) } key
      have hs : L2.step st (.insert key entry) = _ := L2.insert_eq hi key entry hv
      rw [L2.capRound, if_neg (show ¬L2.maxItems < _ by exact Nat.not_lt.2 (hsz.trans (by
        simp only [L2.State.size] at hsize ⊢; omega)))] at hs
      refine ⟨_, _, _, hs, rfl, hi.step hs, by simp [L2.stored_of_pos httl], ?_⟩
      simp only [Op.isInsert, if_true]
      exact le_trans (Nat.add_le_add_right hsz _) (by simp only [L2.State.size] at hsize ⊢; omega)
  | invalidate key =>
      have hs : L2.step st (.invalidate key) = some (L2.invalidate st key) := rfl
      refine ⟨_, st.map.erase key, _, hs, ?_, hi.step hs, rfl, ?_⟩
      · by_cases hk : key ∈ st.map <;>
          simp [L3.tier, L3.invalidate, L2.invalidate, hk, Store.erase_of_not_mem]
      · have := List.length_filter_le (· != key) st.t1
        have := List.length_filter_le (· != key) st.t2
        simp only [L2.invalidate, L2.State.size, Op.isInsert, Bool.false_eq_true, if_false]
          at hsize ⊢
        omega
/-! ## Runs from fresh tiers -/

/-- Run from fresh states on the same calls, whose inserts all have a nonzero TTL and a value
within `MAX_VALUE_BYTES`: with at most `MAX_ENTRIES` (1024) inserts L1 gives L3's reply to every
call, and with at most `MAX_ITEMS` (65536) inserts L2 does. -/
theorem bounded_tiers_agree_with_facade (ops : List (Op K))
    (hops : ∀ op ∈ ops, ∀ key entry, op = .insert key entry →
      0 < entry.ttl ∧ entry.value.length ≤ L2.maxValueBytes) :
    (ops.countP (·.isInsert) ≤ L1.maxEntries → L1.tier.run L1.new ops = L3.tier.run L3.new ops) ∧
    (ops.countP (·.isInsert) ≤ L2.maxItems → L2.tier.run L2.new ops = L3.tier.run L3.new ops) :=
  ⟨fun h => Tier.run_eq_of_simulation L3.tier (fun _ => True) SimL1
      (fun n s t op _ hR hn => simL1_step n s t op hR hn) ops _ _ _ (fun _ _ => trivial)
      ⟨rfl, by simp [L1.new]⟩ h,
    fun h => Tier.run_eq_of_simulation L3.tier StoredAsGiven SimL2
      (fun n s t op hG hR hn => simL2_step n s t op hG hR hn) ops _ _ _ hops
      ⟨L2.inv_new, rfl, by simp [L2.new, L2.State.size]⟩ h⟩

/-- `bounded_tiers_agree_with_facade` on an insert, a live lookup, an invalidate and a miss. -/
theorem agree_with_facade_on_sample_run :
    let ops : List (Op Key) :=
      [.insert [1] ⟨[7], 3, 0, 10⟩, .lookup [1] 4, .invalidate [1], .lookup [1] 5]
    (∀ op ∈ ops, ∀ key entry, op = .insert key entry →
      0 < entry.ttl ∧ entry.value.length ≤ L2.maxValueBytes) ∧
    (ops.countP (·.isInsert) ≤ L1.maxEntries → L1.tier.run L1.new ops = L3.tier.run L3.new ops) ∧
    (ops.countP (·.isInsert) ≤ L2.maxItems → L2.tier.run L2.new ops = L3.tier.run L3.new ops) :=
  have hops : ∀ op ∈ ([.insert [1] ⟨[7], 3, 0, 10⟩, .lookup [1] 4, .invalidate [1],
      .lookup [1] 5] : List (Op Key)), ∀ key entry, op = .insert key entry →
      0 < entry.ttl ∧ entry.value.length ≤ L2.maxValueBytes := by
    simp [L2.maxValueBytes]
  ⟨hops, bounded_tiers_agree_with_facade _ hops⟩

/-! ## Past capacity: misses only -/

/-- A bounded tier's reply next to the facade's: the same reply, or a `NotFound` miss. -/
def MissOr (r r' : Reply) : Prop := r = r' ∨ r = .fail .notFound

/-- The lookup of L1 and L3 on a map below another: the same reply or a miss, and the maps stay
one below the other. -/
theorem Store.Sub.lookupPurge_missOr {m h : Store K} (hs : m.Sub h) (key : K) (now : Nat) :
    MissOr (m.lookupPurge key now).2 (h.lookupPurge key now).2 ∧
      (m.lookupPurge key now).1.Sub (h.lookupPurge key now).1 := by
  cases he : m.lookup key with
  | none => exact ⟨.inr (by simp [Store.lookupPurge, he]), by
      simpa [Store.lookupPurge, he] using hs.lookupPurge_right he now⟩
  | some e =>
      have he' := hs key e he
      cases hx : e.isExpired now
      · exact ⟨.inl (by simp [Store.lookupPurge, he, he', hx]), by
          simpa [Store.lookupPurge, he, he', hx] using hs⟩
      · exact ⟨.inl (by simp [Store.lookupPurge, he, he', hx]), by
          simpa [Store.lookupPurge, he, he', hx] using hs.erase key⟩

theorem l1_step_missOr (st : L1.State K) (map : Store K) (op : Op K) (hs : st.map.Sub map) :
    ∃ st' map' r r', L1.tier.step st op = some (st', r) ∧ L3.tier.step map op = some (map', r') ∧
      MissOr r r' ∧ st'.map.Sub map' := by
  cases op with
  | lookup key now =>
      obtain ⟨hr, hsub⟩ := hs.lookupPurge_missOr key now
      exact ⟨_, _, _, _, rfl, rfl, hr, hsub⟩
  | insert key entry =>
      exact ⟨_, _, _, _, rfl, rfl, .inl rfl, (L1.evict_sub _ _).trans (hs.insert key entry)⟩
  | invalidate key =>
      by_cases hk : key ∈ st.map
      · exact ⟨⟨st.map.erase key, st.order.filter (· != key)⟩, map.erase key, .done, .done,
          by simp [L1.tier, L1.step, L1.invalidate, hk],
          by simp [L3.tier, L3.invalidate, hs.mem hk], .inl rfl, hs.erase key⟩
      · refine ⟨st, (L3.invalidate map key).1, .fail .notFound, (L3.invalidate map key).2,
          by simp [L1.tier, L1.step, L1.invalidate, hk], rfl, .inr rfl, ?_⟩
        by_cases hm : key ∈ map
        · simpa [L3.invalidate, hm] using hs.erase_right hk
        · simpa [L3.invalidate, hm] using hs

theorem l2_step_missOr (st : L2.State K) (map : Store K) (op : Op K) (hG : StoredAsGiven op)
    (hi : L2.Inv st) (hs : st.map.Sub map) :
    ∃ st' map' r r', L2.tier.step st op = some (st', r) ∧ L3.tier.step map op = some (map', r') ∧
      MissOr r r' ∧ L2.Inv st' ∧ st'.map.Sub map' := by
  cases op with
  | lookup key now =>
      cases he : st.map.lookup key with
      | none =>
          have h2 : L2.step st (.lookup key now) = _ := L2.lookup_of_miss now he
          exact ⟨_, _, _, _, h2, rfl, .inr rfl, hi.step h2, hs.lookupPurge_right he now⟩
      | some e =>
          have he' := hs key e he
          cases hx : e.isExpired now
          · have h2 : L2.step st (.lookup key now) = _ := L2.lookup_of_live hi he hx
            exact ⟨_, map, _, _, h2, by simp [L3.tier, L3.lookup, Store.lookupPurge, he', hx],
              .inl rfl, hi.step h2, by simpa using hs⟩
          · have h2 : L2.step st (.lookup key now) = _ := L2.lookup_of_expired he hx
            exact ⟨_, _, _, _, h2, by simp [L3.tier, L3.lookup, Store.lookupPurge, he', hx],
              .inl rfl, hi.step h2, hs.erase key⟩
  | insert key entry =>
      obtain ⟨httl, hv⟩ := hG key entry rfl
      have h2 : L2.step st (.insert key entry) = _ := L2.insert_eq hi key entry hv
      refine ⟨_, _, _, _, h2, rfl, .inl rfl, hi.step h2, (L2.capRound_sub _ _).trans ?_⟩
      simpa [L2.stored_of_pos httl] using hs.insert key entry
  | invalidate key =>
      have h2 : L2.step st (.invalidate key) = some (L2.invalidate st key) := rfl
      refine ⟨_, (L3.invalidate map key).1, _, (L3.invalidate map key).2, h2, rfl, ?_, hi.step h2,
        ?_⟩ <;> by_cases hk : key ∈ st.map
      · exact .inl (by simp [L2.invalidate, L3.invalidate, hk, hs.mem hk])
      · exact .inr (by simp [L2.invalidate, hk])
      · simpa [L3.invalidate, hs.mem hk] using hs.erase key
      · by_cases hm : key ∈ map
        · simpa [L3.invalidate, hm] using hs.erase key
        · simpa [L3.invalidate, hm] using (Store.Sub.erase_left _ _).trans hs

/-- Past capacity the bounded tiers lose entries but never answer wrongly. On every run of calls
from fresh tiers every call returns in L1 and in L3, and each reply of L1 is L3's reply to the
same call or a `NotFound` miss. The same holds of L2 on runs whose inserts all have a nonzero TTL
and a value within `MAX_VALUE_BYTES`. -/
theorem bounded_tiers_only_miss (ops : List (Op K)) :
    (∃ rs rs', L1.tier.run L1.new ops = some rs ∧ L3.tier.run L3.new ops = some rs' ∧
      List.Forall₂ MissOr rs rs') ∧
    ((∀ op ∈ ops, StoredAsGiven op) → ∃ rs rs', L2.tier.run L2.new ops = some rs ∧
      L3.tier.run L3.new ops = some rs' ∧ List.Forall₂ MissOr rs rs') :=
  ⟨Tier.run_rel_of_simulation L3.tier (fun _ => True) (fun st map => st.map.Sub map) MissOr
      (fun s t op _ hR => l1_step_missOr s t op hR) ops _ _ (fun _ _ => trivial)
      (Store.Sub.refl _),
    fun hops => Tier.run_rel_of_simulation L3.tier StoredAsGiven
      (fun st map => L2.Inv st ∧ st.map.Sub map) MissOr
      (fun s t op hG hR => l2_step_missOr s t op hG hR.1 hR.2)
      ops _ _ hops ⟨L2.inv_new, Store.Sub.refl _⟩⟩

/-- `bounded_tiers_only_miss` on an insert, a live lookup, an invalidate and a miss. -/
theorem only_miss_on_sample_run :
    let ops : List (Op Key) :=
      [.insert [1] ⟨[7], 3, 0, 10⟩, .lookup [1] 4, .invalidate [1], .lookup [1] 5]
    (∀ op ∈ ops, StoredAsGiven op) ∧
    (∃ rs rs', L1.tier.run L1.new ops = some rs ∧ L3.tier.run L3.new ops = some rs' ∧
      List.Forall₂ MissOr rs rs') ∧
    (∃ rs rs', L2.tier.run L2.new ops = some rs ∧ L3.tier.run L3.new ops = some rs' ∧
      List.Forall₂ MissOr rs rs') := by
  intro ops
  have hops : ∀ op ∈ ops, StoredAsGiven op := by simp [ops, StoredAsGiven, L2.maxValueBytes]
  exact ⟨hops, (bounded_tiers_only_miss ops).1, (bounded_tiers_only_miss ops).2 hops⟩

end Olwsx.Cache
