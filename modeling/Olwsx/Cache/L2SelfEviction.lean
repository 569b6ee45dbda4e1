import Olwsx.Cache.L2Invariant

/-!
# An insert of L2 can evict its own key

`touch` appends a new key to `t1` before the capacity loop runs `replace`. When `t1` was empty,
`t2` full, and `p_target` is `0` (or `1` with the key in `b2`), the guard of `replace`'s first
branch holds for the one-key `t1`, and the new key is the victim: the insert returns `Ok` and the
entry is gone. `SelfEvicting` names these states.

- `insert_then_lookup`: from every reachable state an insert that fits returns `Ok`; outside
  `SelfEvicting` a lookup before the stored entry expires returns it, and inside a lookup is
  `NotFound`.
- `insert_evicts_itself`: a run from `L2::new()` reaches a `SelfEvicting` state, so the first
  half of the exception happens.
-/

set_option autoImplicit false

namespace Olwsx.Cache.L2

variable {K : Type} [DecidableEq K]

/-- The states in which an insert of a new `key` evicts `key` itself. -/
def SelfEvicting (st : State K) (key : K) : Prop :=
  st.t1 = [] ∧ key ∉ st.t2 ∧ st.t2.length = maxItems ∧
    (st.pTarget = 0 ∨ (st.pTarget = 1 ∧ key ∈ st.b2))

instance (st : State K) (key : K) : Decidable (SelfEvicting st key) :=
  inferInstanceAs (Decidable (_ ∧ _))

theorem touchMove_of_not_mem {st : State K} {key : K} (h : key ∉ st.t1 ++ st.t2) :
    touchMove st key = { st with t1 := st.t1 ++ [key] } := by
  have h1 : key ∉ st.t1 := fun h1 => h (List.mem_append_left _ h1)
  have h2 : key ∉ st.t2 := fun h2 => h (List.mem_append_right _ h2)
  simp [touchMove, h1, h2]

/-- `replace` keeps the entry of a key it does not pop: one that is not at the front of `t1` when
the first branch is taken, nor at the front of `t2` when it is not. -/
theorem replace_lookup_of_not_front {t : State K} {key missKey : K}
    (h1 : ∀ rest, t.t1 = key :: rest → ¬EvictsT1 t missKey)
    (h2 : ∀ rest, t.t2 = key :: rest → EvictsT1 t missKey) :
    (replace t missKey).map.lookup key = t.map.lookup key := by
  rcases replace_cases t missKey with ⟨k, rest, hev, ht, he⟩ | ⟨k, rest, hev, ht, he⟩ | ⟨-, -, he⟩
  · have hne : key ≠ k := by rintro rfl; exact h1 rest ht hev
    simp [he, AList.lookup_erase_ne hne]
  · have hne : key ≠ k := by rintro rfl; exact hev (h2 rest ht)
    simp [he, AList.lookup_erase_ne hne]
  · rw [he]

/-- Outside `SelfEvicting`, the state an insert ends in keeps the stored entry. -/
theorem insert_keeps_key {st : State K} (h : Inv st) {key : K} (entry : Entry)
    (hse : ¬SelfEvicting st key) :
    (capRound key (touchMove { st with map := st.map.insert key (stored entry) } key)).map.lookup
      key = some (stored entry) := by
  have hmap : (touchMove { st with map := st.map.insert key (stored entry) } key).map.lookup key =
      some (stored entry) := by simp
  unfold capRound
  split
  · rename_i hover
    have hnew : key ∉ st.t1 ++ st.t2 := fun hk => by
      rw [touchMove_size, if_pos (by simpa using hk)] at hover
      exact absurd h.size_le (Nat.not_le.2 hover)
    have hmove : touchMove { st with map := st.map.insert key (stored entry) } key =
        { st with map := st.map.insert key (stored entry), t1 := st.t1 ++ [key] } :=
      touchMove_of_not_mem hnew
    rw [hmove] at hover hmap ⊢
    have hsz : st.size = maxItems := by
      have := h.size_le
      simp only [State.size, List.length_append, List.length_singleton] at hover this ⊢; omega
    refine (replace_lookup_of_not_front (fun rest ht hev => hse ?_) (fun rest ht => ?_)).trans hmap
    · have ht1 : st.t1 = [] := by
        rcases List.append_eq_cons_iff.1 ht with ⟨ht1, -⟩ | ⟨_, ha, -⟩
        · exact ht1
        · exact absurd (List.mem_append_left st.t2 (ha ▸ List.mem_cons_self _ _)) hnew
      have hk2 : key ∉ st.t2 := fun hm => hnew (List.mem_append_right _ hm)
      obtain ⟨-, hp⟩ := hev
      simp only [ht1, List.nil_append, List.length_singleton] at hp
      refine ⟨ht1, hk2, by simpa [State.size, ht1] using hsz, ?_⟩
      rcases hp with hp | ⟨hb, hp⟩
      · exact .inl (by omega)
      · exact .inr ⟨by omega, hb⟩
    · exact absurd (show key ∈ st.t2 by simp [show st.t2 = key :: rest from ht])
        (fun hm => hnew (List.mem_append_right _ hm))
  · exact hmap

/-- In `SelfEvicting`, the insert pops its own key from the one-key `t1`. -/
theorem insert_evicts_key {st : State K} {key : K} (entry : Entry) (hse : SelfEvicting st key) :
    key ∉ (capRound key (touchMove { st with map := st.map.insert key (stored entry) } key)).map := by
  obtain ⟨ht1, hk2, hlen, hp⟩ := hse
  have hnew : key ∉ st.t1 ++ st.t2 := by simpa [ht1] using hk2
  have hmove : touchMove { st with map := st.map.insert key (stored entry) } key =
      { st with map := st.map.insert key (stored entry), t1 := st.t1 ++ [key] } :=
    touchMove_of_not_mem hnew
  rw [hmove]
  set t : State K := { st with map := st.map.insert key (stored entry), t1 := st.t1 ++ [key] }
  have htt : t.t1 = [key] := by simp [t, ht1]
  have hover : maxItems < t.size := by simp [State.size, htt, t, hlen]
  have hev : EvictsT1 t key := by
    refine ⟨by simp [htt], ?_⟩
    rw [htt, List.length_singleton]
    rcases hp with hp | ⟨hp, hb⟩
    · exact .inl (by simp [t, hp])
    · exact .inr ⟨hb, by simp [t, hp]⟩
  rw [capRound, if_pos hover, replace_of_evictsT1 hev htt]
  simp

/-- From every reachable state an insert whose value fits returns `Ok`. Outside `SelfEvicting`, a
lookup of the key while the stored entry is unexpired returns an entry with the inserted value and
flags; in a `SelfEvicting` state the insert has evicted its own key and a lookup is `NotFound`. -/
theorem insert_then_lookup {st : State K} (h : tier.Reachable st) (key : K) (entry : Entry)
    (hv : entry.value.length ≤ maxValueBytes) :
    ∃ st', insert st key entry = some (st', .done) ∧
      (¬SelfEvicting st key → ∀ now, (stored entry).isExpired now = false →
        ∃ st'' e, lookup st' key now = some (st'', .hit e) ∧
          e.value = entry.value ∧ e.flags = entry.flags) ∧
      (SelfEvicting st key → ∀ now, ∃ st'', lookup st' key now = some (st'', .fail .notFound)) := by
  have hi := inv_reachable h
  have hs := insert_eq hi key entry hv
  have hi' := hi.step (show L2.step st (.insert key entry) = _ from hs)
  exact ⟨_, hs,
    fun hse now hx => ⟨_, _, lookup_of_live hi' (insert_keeps_key hi entry hse) hx, rfl, rfl⟩,
    fun hse now => ⟨_, lookup_of_miss now (AList.lookup_eq_none.2 (insert_evicts_key entry hse))⟩⟩

/-- `insert_then_lookup` at the fresh state. -/
theorem insert_then_lookup_new :
    tier.Reachable (new : State Key) ∧ ([] : List UInt8).length ≤ maxValueBytes ∧
    ∃ st', insert new [1] ⟨[], 0, 0, 1⟩ = some (st', .done) ∧
      (¬SelfEvicting new [1] → ∀ now, (stored ⟨[], 0, 0, 1⟩).isExpired now = false →
        ∃ st'' e, lookup st' [1] now = some (st'', .hit e) ∧ e.value = [] ∧ e.flags = 0) ∧
      (SelfEvicting new [1] → ∀ now, ∃ st'', lookup st' [1] now = some (st'', .fail .notFound)) :=
  ⟨.init, by decide, insert_then_lookup .init [1] ⟨[], 0, 0, 1⟩ (by decide)⟩

/-! ## A run into `SelfEvicting` -/

theorem touchMove_of_mem_t1 {st : State K} {key : K} (h : key ∈ st.t1) :
    touchMove st key = { st with t1 := st.t1.erase key, t2 := st.t2 ++ [key] } := by
  simp [touchMove, h]

/-- An insert of an unlisted key below capacity appends it to `t1` and stores the entry. -/
theorem insert_fresh_below {st : State K} (h : Inv st) {key : K} (entry : Entry)
    (hv : entry.value.length ≤ maxValueBytes) (hk : key ∉ st.t1 ++ st.t2)
    (hs : st.size < maxItems) :
    insert st key entry =
      some ({ st with map := st.map.insert key (stored entry), t1 := st.t1 ++ [key] }, .done) := by
  have hmove : touchMove { st with map := st.map.insert key (stored entry) } key =
      { st with map := st.map.insert key (stored entry), t1 := st.t1 ++ [key] } :=
    touchMove_of_not_mem hk
  rw [insert_eq h key entry hv, hmove, capRound, if_neg]
  simp only [State.size, List.length_append, List.length_singleton] at hs ⊢
  omega

/-- Inserting distinct unlisted keys one after another, within capacity, appends them to `t1`. -/
theorem exec_insert_fresh (e : Entry) (hv : e.value.length ≤ maxValueBytes) :
    ∀ (ks : List K) (st : State K), Inv st → ks.Nodup → (∀ k ∈ ks, k ∉ st.t1 ++ st.t2) →
      st.size + ks.length ≤ maxItems →
      ∃ map : Store K, tier.exec st (ks.map (.insert · e)) =
          some { st with t1 := st.t1 ++ ks, map := map } ∧
        ∀ k, map.lookup k = if k ∈ ks then some (stored e) else st.map.lookup k := by
  intro ks
  induction ks with
  | nil => intro st _ _ _ _; exact ⟨st.map, by simp [Tier.exec], by simp⟩
  | cons k ks ih =>
      intro st h hnd hfresh hcap
      obtain ⟨hk, hnd⟩ := List.nodup_cons.1 hnd
      have hins := insert_fresh_below h e hv (hfresh k (List.mem_cons_self _ _))
        (by simp only [List.length_cons] at hcap; omega)
      obtain ⟨map, hexec, hmap⟩ := ih _ (h.step (show L2.step st (.insert k e) = _ from hins)) hnd
        (fun k' hk' => by
          have := hfresh k' (List.mem_cons_of_mem _ hk')
          simp only [List.mem_append, List.mem_singleton, not_or] at this ⊢
          exact ⟨⟨this.1, fun h => hk (h ▸ hk')⟩, this.2⟩)
        (by simp only [State.size, List.length_append, List.length_cons, List.length_nil]
              at hcap ⊢; omega)
      refine ⟨map, ?_, fun k' => ?_⟩
      · simpa [Tier.exec, tier, L2.step, hins] using hexec
      · rw [hmap k']
        by_cases h1 : k' ∈ ks
        · simp [h1]
        · by_cases h2 : k' = k
          · subst h2; simp [h1]
          · simp [h1, h2, AList.lookup_insert_ne h2]

/-- Looking up, in order, the live unexpired keys at the front of `t1` promotes them to the back
of `t2`. -/
theorem exec_lookup_promote (now : Nat) :
    ∀ (ks rest : List K) (st : State K), Inv st → st.t1 = ks ++ rest →
      (∀ k ∈ ks, ∃ e, st.map.lookup k = some e ∧ e.isExpired now = false) →
      tier.exec st (ks.map (.lookup · now)) = some { st with t1 := rest, t2 := st.t2 ++ ks } := by
  intro ks
  induction ks with
  | nil =>
      intro rest st _ ht _
      obtain rfl : rest = st.t1 := by simpa using ht.symm
      simp [Tier.exec]
  | cons k ks ih =>
      intro rest st h ht hlive
      obtain ⟨e, he, hx⟩ := hlive k (List.mem_cons_self _ _)
      have hk : k ∈ st.t1 := by simp [ht]
      have hl := lookup_of_live h he hx
      rw [touchMove_of_mem_t1 hk] at hl
      have hexec := ih rest _ (h.step (show L2.step st (.lookup k now) = _ from hl))
        (by simp [ht]) (fun k' hk' => hlive k' (List.mem_cons_of_mem _ hk'))
      simpa [Tier.exec, tier, L2.step, hl] using hexec

/-- Each lookup of a key without an entry, absent from `b1` and present in `b2`, lowers
`p_target` by one. -/
theorem exec_lookup_ghost {key : K} (now : Nat) :
    ∀ (n : Nat) (st : State K), st.map.lookup key = none → key ∉ st.b1 → key ∈ st.b2 →
      tier.exec st (List.replicate n (.lookup key now)) =
        some { st with pTarget := st.pTarget - n } := by
  intro n
  induction n with
  | zero => intro st _ _ _; simp [Tier.exec]
  | succ n ih =>
      intro st he h1 h2
      have hl := lookup_of_miss now he
      rw [if_neg h1, if_pos h2] at hl
      have hexec := ih { st with pTarget := st.pTarget - 1 } he h1 h2
      simp only [List.replicate_succ, Tier.exec, tier, L2.step, hl] at hexec ⊢
      rw [hexec, Nat.sub_sub, Nat.add_comm]

/-- The entry of the run: no bytes, a TTL of 1 ns, created at instant 0. -/
def runEntry : Entry := ⟨[], 0, 0, 1⟩

/-- A run into `SelfEvicting`, all at instant 0: `MAX_ITEMS` inserts of distinct keys, a lookup of
each (promoting all of them to `t2`), an insert of `[1]` that evicts `[0]` from `t2` into `b2`,
`MAX_ITEMS / 2` lookups of the ghost `[0]` that bring `p_target` down to 0, and a lookup of `[1]`
that promotes it, leaving `t1` empty and `t2` full. -/
def selfEvictionRun : List (Op Key) :=
  (zeroKeys maxItems).map (.insert · runEntry) ++ (zeroKeys maxItems).map (.lookup · 0) ++
    [.insert [1] runEntry] ++ List.replicate (maxItems / 2) (.lookup [0] 0) ++ [.lookup [1] 0]

/-- After `selfEvictionRun` the state is `SelfEvicting` for the new key `[2]`: an insert of `[2]`
returns `Ok`, yet a lookup at instant 0, while the stored entry is unexpired, is `NotFound`. -/
theorem insert_evicts_itself :
    ∃ st, tier.exec new selfEvictionRun = some st ∧ SelfEvicting st [2] ∧
      ∃ st', insert st [2] ⟨[5], 9, 0, 1⟩ = some (st', .done) ∧
        (stored ⟨[5], 9, 0, 1⟩).isExpired 0 = false ∧
        ∃ st'', lookup st' [2] 0 = some (st'', .fail .notFound) := by
  have hrun : stored runEntry = runEntry := rfl
  have hlive : runEntry.isExpired 0 = false := rfl
  have hnd := zeroKeys_nodup maxItems
  have hlen := length_zeroKeys maxItems
  have h1 := singleton_not_mem_zeroKeys (show (1 : UInt8) ≠ 0 by decide) maxItems
  have h2 := singleton_not_mem_zeroKeys (show (2 : UInt8) ≠ 0 by decide) maxItems
  obtain ⟨tl, hks⟩ : ∃ tl, zeroKeys maxItems = [0] :: tl := ⟨_, zeroKeys_succ 65535⟩
  rw [hks] at hnd hlen h1 h2
  rw [selfEvictionRun, hks]
  simp only [List.mem_cons, not_or] at h1 h2
  -- all keys inserted into `t1`
  obtain ⟨m1, hx1, hm1⟩ := exec_insert_fresh runEntry (by decide) ([0] :: tl) (new : State Key)
    inv_new hnd (by simp [new]) (by simp [new, State.size, hlen])
  have hr1 := Tier.Reachable.init.exec hx1
  -- all of them promoted to `t2`
  have hx2 : tier.exec _ (([0] :: tl).map (.lookup · 0)) =
      some (⟨[], [0] :: tl, [], [], m1, maxItems / 2⟩ : State Key) :=
    exec_lookup_promote 0 ([0] :: tl) [] _ (inv_reachable hr1) (by simp [new])
      (fun k hk => ⟨runEntry, by simp [hm1, hk, hrun], hlive⟩)
  have hr2 := hr1.exec hx2
  -- `[1]` inserted over capacity: `replace` evicts `[0]` from `t2` into `b2`
  have hx3 : tier.exec (⟨[], [0] :: tl, [], [], m1, maxItems / 2⟩ : State Key)
      [.insert [1] runEntry] =
      some (⟨[[1]], tl, [], [[0]], (m1.insert [1] runEntry).erase [0], maxItems / 2⟩ :
        State Key) := by
    have hmove : touchMove (⟨[], [0] :: tl, [], [], m1.insert [1] runEntry, maxItems / 2⟩ :
        State Key) [1] = ⟨[[1]], [0] :: tl, [], [], m1.insert [1] runEntry, maxItems / 2⟩ :=
      touchMove_of_not_mem (by simp [h1])
    have hev : ¬EvictsT1 (⟨[[1]], [0] :: tl, [], [], m1.insert [1] runEntry,
        maxItems / 2⟩ : State Key) [1] := by
      simp [EvictsT1, maxItems]
    have hover : maxItems < (⟨[[1]], [0] :: tl, [], [], m1.insert [1] runEntry,
        maxItems / 2⟩ : State Key).size := by
      simp [State.size, hlen]
    have hs := insert_eq (inv_reachable hr2) [1] runEntry (by decide)
    rw [hrun, hmove, capRound, if_pos hover, replace_of_not_evictsT1 hev rfl] at hs
    simp only [Tier.exec, tier, L2.step, hs]
    rfl
  have hr3 := hr2.exec hx3
  -- the ghost `[0]` looked up until `p_target` is 0
  have hx4 : tier.exec (⟨[[1]], tl, [], [[0]], (m1.insert [1] runEntry).erase [0],
      maxItems / 2⟩ : State Key) (List.replicate (maxItems / 2) (.lookup [0] 0)) =
      some ⟨[[1]], tl, [], [[0]], (m1.insert [1] runEntry).erase [0], 0⟩ := by
    rw [exec_lookup_ghost 0 (maxItems / 2) _ (by simp) (by simp) (by simp), Nat.sub_self]
  have hr4 := hr3.exec hx4
  -- `[1]` promoted: `t1` empty, `t2` full, `p_target` 0
  have hx5 : tier.exec (⟨[[1]], tl, [], [[0]], (m1.insert [1] runEntry).erase [0], 0⟩ : State Key)
      [.lookup [1] 0] =
      some ⟨[], tl ++ [[1]], [], [[0]], (m1.insert [1] runEntry).erase [0], 0⟩ := by
    have hlk : ((m1.insert [1] runEntry).erase [0]).lookup [1] = some runEntry := by
      rw [AList.lookup_erase_ne (by decide), AList.lookup_insert]
    have hl := lookup_of_live (inv_reachable hr4) hlk hlive
    rw [touchMove_of_mem_t1 (by simp)] at hl
    simp [Tier.exec, tier, L2.step, hl]
  have hr5 := hr4.exec hx5
  have hse : SelfEvicting (⟨[], tl ++ [[1]], [], [[0]], (m1.insert [1] runEntry).erase [0], 0⟩ :
      State Key) [2] :=
    ⟨rfl, by simp [h2.2], by simp [maxItems] at hlen ⊢; omega, .inl rfl⟩
  refine ⟨_, by simp only [Tier.exec_append, hx1, hx2, hx3, hx4, hx5, Option.some_bind], hse, _,
    insert_eq (inv_reachable hr5) [2] ⟨[5], 9, 0, 1⟩ (by decide), rfl, _,
    lookup_of_miss 0 (AList.lookup_eq_none.2 (insert_evicts_key _ hse))⟩

end Olwsx.Cache.L2
