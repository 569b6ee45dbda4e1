import Olwsx.Cache.L2

/-!
# The invariant of L2 and its capacity loops

`Shape` is what every operation of L2 keeps whatever the capacity: the live lists hold distinct
keys, every key with an entry is in one of them, and the ghost lists and `p_target` are within
`MAX_ITEMS`. `Inv` adds the capacity bound, which the loops restore after a move adds a key.

One spec lemma per operation says what the operation does from a state of `Inv`
(`lookup_of_expired`, `lookup_of_live`, `lookup_of_miss`, `insert_eq`, and `invalidate` itself);
`Inv.step` follows, and `inv_reachable` by the invariant principle of `Tier`.

- `reachable_arc_invariant`: the lists' shape and every bound, in every reachable state.
- `reachable_loops_terminate`: every call returns; a round over capacity removes exactly one key;
  an insert makes at most one round and a lookup none.
- `purged_key_stays_listed`: a lookup that purges an expired entry leaves its key in `t1`.
-/

set_option autoImplicit false

namespace Olwsx.Cache.L2

variable {K : Type} [DecidableEq K]

/-- What every operation of L2 keeps, apart from the capacity bound. -/
structure Shape (st : State K) : Prop where
  nodup : (st.t1 ++ st.t2).Nodup
  live : ∀ k ∈ st.map, k ∈ st.t1 ++ st.t2
  b1_le : st.b1.length ≤ maxItems
  b2_le : st.b2.length ≤ maxItems
  p_le : st.pTarget ≤ maxItems

/-- The invariant of L2: `Shape` and at most `MAX_ITEMS` live-listed keys. -/
structure Inv (st : State K) extends Shape st : Prop where
  size_le : st.size ≤ maxItems

/-! ## Each step keeps the shape -/

theorem Shape.replace {st : State K} (h : Shape st) (missKey : K) :
    Shape (replace st missKey) := by
  rcases replace_cases st missKey with ⟨k, rest, -, ht, he⟩ | ⟨k, rest, -, ht, he⟩ | ⟨-, -, he⟩
  · have hnd := h.nodup
    rw [ht, List.cons_append] at hnd
    rw [he]
    refine ⟨(List.nodup_cons.1 hnd).2, fun x hx => ?_, length_pushGhost_le h.b1_le k, h.b2_le,
      h.p_le⟩
    obtain ⟨hne, hx⟩ := AList.mem_erase.1 hx
    simpa [ht, hne] using h.live x hx
  · have hnd := h.nodup
    rw [ht] at hnd
    rw [he]
    refine ⟨((List.sublist_cons_self k rest).append_left _).nodup hnd, fun x hx => ?_, h.b1_le,
      length_pushGhost_le h.b2_le k, h.p_le⟩
    obtain ⟨hne, hx⟩ := AList.mem_erase.1 hx
    simpa [ht, hne] using h.live x hx
  · rw [he]; exact h

theorem Shape.capRound {st : State K} (h : Shape st) (key : K) : Shape (capRound key st) := by
  unfold L2.capRound; split
  · exact h.replace key
  · exact h

/-- The move of a listed key permutes the live lists. -/
theorem touchMove_perm_of_mem {st : State K} {key : K} (h : key ∈ st.t1 ++ st.t2) :
    ((touchMove st key).t1 ++ (touchMove st key).t2).Perm (st.t1 ++ st.t2) := by
  unfold touchMove
  by_cases h1 : key ∈ st.t1
  · simp only [if_pos h1]
    rw [← List.append_assoc]
    exact (List.perm_append_singleton _ _).trans ((List.perm_cons_erase h1).symm.append_right _)
  · have h2 : key ∈ st.t2 := by simpa [h1] using h
    simp only [if_neg h1, if_pos h2]
    exact ((List.perm_append_singleton _ _).trans (List.perm_cons_erase h2).symm).append_left _

/-- The move of a new key adds it to the live lists. -/
theorem touchMove_perm_of_not_mem {st : State K} {key : K} (h : key ∉ st.t1 ++ st.t2) :
    ((touchMove st key).t1 ++ (touchMove st key).t2).Perm (key :: (st.t1 ++ st.t2)) := by
  have h1 : key ∉ st.t1 := fun h1 => h (List.mem_append_left _ h1)
  have h2 : key ∉ st.t2 := fun h2 => h (List.mem_append_right _ h2)
  simp only [touchMove, if_neg h1, if_neg h2, List.append_assoc, List.singleton_append]
  exact List.perm_middle

/-- After the move, the shape holds of a state whose only key with an entry and no list is the
moved one. -/
theorem shape_touchMove {st : State K} {key : K} (hnd : (st.t1 ++ st.t2).Nodup)
    (hlive : ∀ k ∈ st.map, k = key ∨ k ∈ st.t1 ++ st.t2) (hb1 : st.b1.length ≤ maxItems)
    (hb2 : st.b2.length ≤ maxItems) (hp : st.pTarget ≤ maxItems) : Shape (touchMove st key) := by
  by_cases hk : key ∈ st.t1 ++ st.t2
  · have hP := touchMove_perm_of_mem hk
    refine ⟨hP.nodup_iff.2 hnd, fun k hm => hP.mem_iff.2 ?_, by simpa, by simpa, by simpa⟩
    rcases hlive k (by simpa using hm) with rfl | h
    · exact hk
    · exact h
  · have hP := touchMove_perm_of_not_mem hk
    refine ⟨hP.nodup_iff.2 (List.nodup_cons.2 ⟨hk, hnd⟩), fun k hm => hP.mem_iff.2 ?_, by simpa,
      by simpa, by simpa⟩
    rcases hlive k (by simpa using hm) with rfl | h
    · exact List.mem_cons_self _ _
    · exact List.mem_cons_of_mem _ h

theorem touchMove_size_le {st : State K} (key : K) (h : st.size ≤ maxItems) :
    (touchMove st key).size ≤ maxItems + 1 :=
  (touchMove_size_le_succ st key).trans (by omega)

/-- From a state of `Shape` at most one key over capacity, the loop's round restores `Inv`. -/
theorem inv_capRound {st : State K} (h : Shape st) (hs : st.size ≤ maxItems + 1) (key : K) :
    Inv (capRound key st) :=
  ⟨h.capRound key, capRound_size_le key h.p_le hs⟩

/-! ## The operations from a state of `Inv` -/

theorem lookup_of_expired {st : State K} {key : K} {now : Nat} {e : Entry}
    (he : st.map.lookup key = some e) (hx : e.isExpired now = true) :
    lookup st key now = some ({ st with map := st.map.erase key }, .fail .expired) := by
  simp [lookup, he, hx]

/-- Moving a key that has an entry keeps the number of live-listed keys. -/
theorem touchMove_size_of_lookup {st : State K} (h : Shape st) {key : K} {e : Entry}
    (he : st.map.lookup key = some e) : (touchMove st key).size = st.size := by
  rw [touchMove_size, if_pos (by simpa using h.live key (AList.lookup_isSome.1 (by simp [he])))]

/-- A live unexpired entry is returned, and its key moved without a round of the loop. -/
theorem lookup_of_live {st : State K} (h : Inv st) {key : K} {now : Nat} {e : Entry}
    (he : st.map.lookup key = some e) (hx : e.isExpired now = false) :
    lookup st key now = some (touchMove st key, .hit e) := by
  simp only [lookup, he, hx, Bool.false_eq_true, if_false, touch_eq_enforceCap key h.size_le,
    enforceCap_of_le key ((touchMove_size_of_lookup h.toShape he).symm ▸ h.size_le),
    Option.map_some']

theorem lookup_of_miss {st : State K} {key : K} (now : Nat) (he : st.map.lookup key = none) :
    lookup st key now = some ({ st with pTarget := if key ∈ st.b1 then min maxItems (st.pTarget + 1)
      else if key ∈ st.b2 then st.pTarget - 1 else st.pTarget }, .fail .notFound) := by
  simp only [lookup, he]
  split_ifs <;> rfl

/-- An insert that fits stores the entry, moves the key, and makes at most one round of the
capacity loop over the two loops of the code. -/
theorem insert_eq {st : State K} (h : Inv st) (key : K) (entry : Entry)
    (hv : entry.value.length ≤ maxValueBytes) :
    insert st key entry =
      some (capRound key (touchMove { st with map := st.map.insert key (stored entry) } key),
        .done) := by
  have hsz : ({ st with map := st.map.insert key (stored entry) } : State K).size ≤ maxItems :=
    h.size_le
  have hs := touchMove_size_le key hsz
  have hp : (touchMove { st with map := st.map.insert key (stored entry) } key).pTarget ≤
      maxItems := by
    rw [touchMove_pTarget]; exact h.p_le
  simp only [insert, Nat.not_lt.2 hv, if_false, touch_eq_enforceCap key hsz,
    enforceCap_eq key hp hs, Option.some_bind, enforceCap_of_le key (capRound_size_le key hp hs),
    Option.map_some']

/-- Every step from a state of `Inv` ends in a state of `Inv`. -/
theorem Inv.step {st st' : State K} {op : Op K} {r : Reply} (h : Inv st)
    (hs : step st op = some (st', r)) : Inv st' := by
  cases op with
  | lookup key now =>
      cases he : st.map.lookup key with
      | none =>
          rw [L2.step, lookup_of_miss now he, Option.some.injEq, Prod.mk.injEq] at hs
          obtain ⟨rfl, -⟩ := hs
          refine ⟨⟨h.nodup, h.live, h.b1_le, h.b2_le, ?_⟩, h.size_le⟩
          have := h.p_le; dsimp only; split_ifs <;> omega
      | some e =>
          cases hx : e.isExpired now
          · rw [L2.step, lookup_of_live h he hx, Option.some.injEq, Prod.mk.injEq] at hs
            obtain ⟨rfl, -⟩ := hs
            exact ⟨shape_touchMove h.nodup (fun k hm => .inr (h.live k hm)) h.b1_le h.b2_le h.p_le,
              (touchMove_size_of_lookup h.toShape he).symm ▸ h.size_le⟩
          · rw [L2.step, lookup_of_expired he hx, Option.some.injEq, Prod.mk.injEq] at hs
            obtain ⟨rfl, -⟩ := hs
            exact ⟨⟨h.nodup, fun k hm => h.live k (AList.mem_erase.1 hm).2, h.b1_le, h.b2_le,
              h.p_le⟩, h.size_le⟩
  | insert key entry =>
      by_cases hv : maxValueBytes < entry.value.length
      · simp only [L2.step, insert, if_pos hv, Option.some.injEq, Prod.mk.injEq] at hs
        obtain ⟨rfl, -⟩ := hs
        exact h
      · rw [L2.step, insert_eq h key entry (by omega), Option.some.injEq, Prod.mk.injEq] at hs
        obtain ⟨rfl, -⟩ := hs
        refine inv_capRound (@shape_touchMove K _ { st with map := st.map.insert key (stored entry) }
          key h.nodup (fun k hm => ?_) h.b1_le h.b2_le h.p_le) ?_ key
        · rcases (AList.mem_insert _).1 hm with rfl | hm
          · exact .inl rfl
          · exact .inr (h.live k hm)
        · exact touchMove_size_le key h.size_le
  | invalidate key =>
      simp only [L2.step, invalidate, Option.some.injEq, Prod.mk.injEq] at hs
      obtain ⟨rfl, -⟩ := hs
      refine ⟨⟨?_, fun k hm => ?_, h.b1_le, h.b2_le, h.p_le⟩, ?_⟩
      · rw [← List.filter_append]; exact h.nodup.filter _
      · obtain ⟨hne, hm⟩ := AList.mem_erase.1 hm
        rw [← List.filter_append]
        exact List.mem_filter.2 ⟨h.live k hm, by simpa using hne⟩
      · have := h.size_le
        simp only [State.size] at this ⊢
        have := List.length_filter_le (· != key) st.t1
        have := List.length_filter_le (· != key) st.t2
        omega

omit [DecidableEq K] in
theorem inv_new : Inv (new : State K) :=
  ⟨⟨List.nodup_nil, fun k hk => absurd hk (AList.not_mem_empty k), Nat.zero_le _, Nat.zero_le _,
    Nat.div_le_self _ _⟩, Nat.zero_le _⟩

/-- Every reachable state of L2 satisfies `Inv`. -/
theorem inv_reachable {st : State K} (h : tier.Reachable st) : Inv st :=
  Tier.Reachable.rec_inv inv_new (fun _ _ _ _ hi hs => hi.step hs) h

/-! ## Every reachable state -/

/-- In every reachable state of L2, `t1` and `t2` hold distinct keys and share none, every key
with an entry is in one of them, `t1` and `t2` together, `b1`, `b2` and `p_target` are each within
`MAX_ITEMS` (65536), and the map holds at most 65536 entries. -/
theorem reachable_arc_invariant {st : State K} (h : tier.Reachable st) :
    (st.t1.Nodup ∧ st.t2.Nodup ∧ ∀ k ∈ st.t1, k ∉ st.t2) ∧
    (∀ k ∈ st.map, k ∈ st.t1 ∨ k ∈ st.t2) ∧
    st.t1.length + st.t2.length ≤ maxItems ∧ st.b1.length ≤ maxItems ∧
    st.b2.length ≤ maxItems ∧ st.pTarget ≤ maxItems ∧ st.map.keys.length ≤ maxItems := by
  have hi := inv_reachable h
  obtain ⟨h1, h2, h12⟩ := List.nodup_append.1 hi.nodup
  refine ⟨⟨h1, h2, fun k hk hk2 => h12 hk hk2⟩, fun k hk => List.mem_append.1 (hi.live k hk),
    hi.size_le, hi.b1_le, hi.b2_le, hi.p_le, ?_⟩
  have hsub := List.subperm_of_subset st.map.keys_nodup fun k hk =>
    hi.live k (AList.mem_keys.2 hk)
  simpa using hsub.length_le.trans (le_of_eq_of_le (List.length_append _ _) hi.size_le)

/-- A run that promotes `[1]` to `t2` by a hit and purges the expired entry of `[3]`, which stays
in `t1`: it ends with `t1 = [[2], [3]]` and `t2 = [[1]]`. -/
def purgeRun : List (Op Key) :=
  [.insert [1] ⟨[1], 0, 0, 100⟩, .insert [2] ⟨[2], 0, 0, 100⟩, .lookup [1] 3,
    .insert [3] ⟨[3], 0, 0, 1⟩, .lookup [3] 5]

/-- The state `purgeRun` ends in: `[3]` is purged from the map but stays in `t1`. -/
def purgeState : State Key :=
  ⟨[[2], [3]], [[1]], [], [],
    ((∅ : Store Key).insert [1] (stored ⟨[1], 0, 0, 100⟩)).insert [2] (stored ⟨[2], 0, 0, 100⟩),
    maxItems / 2⟩

/-- `reachable_arc_invariant` at the state `purgeRun` reaches. -/
theorem arc_invariant_after_purge :
    ∃ st : State Key, tier.exec new purgeRun = some st ∧ st.t1 = [[2], [3]] ∧ st.t2 = [[1]] ∧
      tier.Reachable st ∧
      ((st.t1.Nodup ∧ st.t2.Nodup ∧ ∀ k ∈ st.t1, k ∉ st.t2) ∧
        (∀ k ∈ st.map, k ∈ st.t1 ∨ k ∈ st.t2) ∧
        st.t1.length + st.t2.length ≤ maxItems ∧ st.b1.length ≤ maxItems ∧
        st.b2.length ≤ maxItems ∧ st.pTarget ≤ maxItems ∧ st.map.keys.length ≤ maxItems) :=
  have hr := Tier.Reachable.exec .init (rfl : tier.exec new purgeRun = some purgeState)
  ⟨_, rfl, rfl, rfl, hr, reachable_arc_invariant hr⟩

/-- From a state of `Inv` a lookup returns, leaves the ghost lists alone, and removes at most its
own key's entry, when expired. -/
theorem lookup_frame {st : State K} (h : Inv st) (key : K) (now : Nat) :
    ∃ st' r, lookup st key now = some (st', r) ∧ st'.b1 = st.b1 ∧ st'.b2 = st.b2 ∧
      (st'.map = st.map ∨ (st'.map = st.map.erase key ∧ r = .fail .expired)) := by
  cases he : st.map.lookup key with
  | none => exact ⟨_, _, lookup_of_miss now he, rfl, rfl, .inl rfl⟩
  | some e =>
      cases hx : e.isExpired now
      · exact ⟨_, _, lookup_of_live h he hx, by simp, by simp, .inl (by simp)⟩
      · exact ⟨_, _, lookup_of_expired he hx, rfl, rfl, .inr ⟨rfl, rfl⟩⟩

/-- From every reachable state of L2 every call returns, so both capacity loops end. Over
capacity, `replace` removes exactly one key from `t1` or `t2` (never the branch popping an empty
`t2`) in every state the loops reach, all of which keep the state's `p_target`. An insert makes at
most one round of the loops (`capRound`), and a lookup none: it keeps the ghost lists and removes
no entry but its own expired one. -/
theorem reachable_loops_terminate {st : State K} (h : tier.Reachable st) :
    (∀ op : Op K, ∃ st' r, step st op = some (st', r)) ∧
    (∀ (t : State K) (key : K), t.pTarget = st.pTarget → maxItems < t.size →
      (∃ k rest, t.t1 = k :: rest ∧ (replace t key).t1 = rest ∧ (replace t key).t2 = t.t2) ∨
      (∃ k rest, t.t2 = k :: rest ∧ (replace t key).t2 = rest ∧ (replace t key).t1 = t.t1)) ∧
    (∀ key entry, entry.value.length ≤ maxValueBytes →
      insert st key entry =
        some (capRound key (touchMove { st with map := st.map.insert key (stored entry) } key),
          .done)) ∧
    (∀ key now st' r, lookup st key now = some (st', r) →
      st'.b1 = st.b1 ∧ st'.b2 = st.b2 ∧
        (st'.map = st.map ∨ (st'.map = st.map.erase key ∧ r = .fail .expired))) := by
  have hi := inv_reachable h
  refine ⟨fun op => ?_, fun t key hp hs => replace_removes_one key (hp ▸ hi.p_le) hs,
    fun key entry hv => insert_eq hi key entry hv, fun key now st' r hl => ?_⟩
  · cases op with
    | lookup key now =>
        obtain ⟨st', r, hl, -⟩ := lookup_frame hi key now
        exact ⟨st', r, hl⟩
    | insert key entry =>
        by_cases hv : maxValueBytes < entry.value.length
        · exact ⟨st, .fail .tooLarge, by simp [L2.step, insert, hv]⟩
        · exact ⟨_, _, insert_eq hi key entry (by omega)⟩
    | invalidate key => exact ⟨_, _, rfl⟩
  · obtain ⟨_, _, hl', hframe⟩ := lookup_frame hi key now
    cases hl.symm.trans hl'
    exact hframe

/-- `reachable_loops_terminate` at the state `purgeRun` reaches. -/
theorem loops_terminate_after_purge :
    ∃ st : State Key, tier.exec new purgeRun = some st ∧ st.t1 = [[2], [3]] ∧ st.t2 = [[1]] ∧
      tier.Reachable st ∧
      ((∀ op : Op Key, ∃ st' r, step st op = some (st', r)) ∧
        (∀ (t : State Key) (key : Key), t.pTarget = st.pTarget → maxItems < t.size →
          (∃ k rest, t.t1 = k :: rest ∧ (replace t key).t1 = rest ∧ (replace t key).t2 = t.t2) ∨
          (∃ k rest, t.t2 = k :: rest ∧ (replace t key).t2 = rest ∧ (replace t key).t1 = t.t1)) ∧
        (∀ key entry, entry.value.length ≤ maxValueBytes →
          insert st key entry =
            some (capRound key (touchMove { st with map := st.map.insert key (stored entry) } key),
              .done)) ∧
        (∀ key now st' r, lookup st key now = some (st', r) →
          st'.b1 = st.b1 ∧ st'.b2 = st.b2 ∧
            (st'.map = st.map ∨ (st'.map = st.map.erase key ∧ r = .fail .expired)))) :=
  have hr := Tier.Reachable.exec .init (rfl : tier.exec new purgeRun = some purgeState)
  ⟨_, rfl, rfl, rfl, hr, reachable_loops_terminate hr⟩

/-! ## An expiry purge leaves its key listed -/

/-- Inserting `[1]` with a TTL of 1 ns at instant 0 and looking it up at instant 5 purges the
entry but leaves `[1]` in `t1`. An invalidate of `[1]` then answers `NotFound`, yet changes the
state: it filters `[1]` out of `t1`. -/
theorem purged_key_stays_listed :
    tier.exec new [.insert [1] ⟨[1], 0, 0, 1⟩, .lookup [1] 5] =
      some (⟨[[1]], [], [], [], ∅, maxItems / 2⟩ : State Key) ∧
    invalidate (⟨[[1]], [], [], [], ∅, maxItems / 2⟩ : State Key) [1] =
      (⟨[], [], [], [], ∅, maxItems / 2⟩, .fail .notFound) :=
  ⟨rfl, rfl⟩

end Olwsx.Cache.L2
