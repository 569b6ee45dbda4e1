import Olwsx.Cache.L1
import Olwsx.Cache.L2
import Olwsx.Cache.L3

/-!
# No stale reads

Each tier answers a lookup from its map, and an entry enters the map only through an insert. So
whatever a tier returns for a key, the last write of the key put it there: the last insert of the
key, with no invalidate of the key after it. This module proves that for all three tiers and every
run from the fresh state.

The writes of a run are replayed on a map of their own, the `history`. An insert stores its entry,
an invalidate removes its key, and a lookup changes nothing. For L2 only an insert whose value fits
under `MAX_VALUE_BYTES` stores anything, and it stores the entry with its TTL filled in (`L2.stored`).
`Store.Sub m h` says that every entry of `m` is also `h`'s entry for its key. The eviction loops,
the expiry purges and the invalidates only remove entries (`L1.evict_sub`, `L2.capLoop_sub`,
`L2.touch_sub`). So every call keeps the tier's map below the history (`L1.step_sub`,
`L2.step_sub`, `L3.step_sub`), and so does every run (`Tier.exec_sub`). `lastWrite_of_history`
reads the history's entry for a key back as the last write of the key in the run.

- `hit_is_last_write`: after any run from the fresh state, a lookup of L1, L2 or L3 that returns an
  entry returns an unexpired entry that the last write of the key stored.
-/

set_option autoImplicit false

namespace Olwsx.Cache

variable {K : Type} [DecidableEq K]

/-! ## Maps below a history -/

/-- Every entry of `m` is `h`'s entry for its key. -/
def Store.Sub (m h : Store K) : Prop :=
  ∀ k e, m.lookup k = some e → h.lookup k = some e

namespace Store.Sub

theorem refl (m : Store K) : m.Sub m := fun _ _ => id

theorem trans {a b c : Store K} (hab : a.Sub b) (hbc : b.Sub c) : a.Sub c :=
  fun k e he => hbc k e (hab k e he)

theorem empty (h : Store K) : (∅ : Store K).Sub h := by
  intro k e he
  simp [AList.lookup_empty] at he

theorem erase_left (m : Store K) (key : K) : Store.Sub (m.erase key) m := by
  intro k e he
  by_cases hk : k = key
  · subst hk
    rw [AList.lookup_erase] at he
    cases he
  · rwa [AList.lookup_erase_ne hk] at he

theorem erase {m h : Store K} (hs : m.Sub h) (key : K) :
    Store.Sub (m.erase key) (h.erase key) := by
  intro k e he
  by_cases hk : k = key
  · subst hk
    rw [AList.lookup_erase] at he
    cases he
  · rw [AList.lookup_erase_ne hk] at he ⊢
    exact hs k e he

theorem insert {m h : Store K} (hs : m.Sub h) (key : K) (e : Entry) :
    Store.Sub (m.insert key e) (h.insert key e) := by
  intro k e' he
  by_cases hk : k = key
  · subst hk
    rwa [AList.lookup_insert] at he ⊢
  · rw [AList.lookup_insert_ne hk] at he ⊢
    exact hs k e' he

/-- Removing a key that `m` has no entry for keeps `m` below. -/
theorem erase_right {m h : Store K} (hs : m.Sub h) {key : K} (hk : key ∉ m) :
    m.Sub (h.erase key) := by
  simpa [Store.erase_of_not_mem hk] using hs.erase key

theorem mem {m h : Store K} (hs : m.Sub h) {key : K} (hk : key ∈ m) : key ∈ h := by
  obtain ⟨e, he⟩ := Option.isSome_iff_exists.1 (AList.lookup_isSome.2 hk)
  exact AList.lookup_isSome.1 (by rw [hs key e he]; rfl)

/-- The lookup of L1 and L3 removes at most the looked-up entry. -/
theorem lookupPurge (m : Store K) (key : K) (now : Nat) : (m.lookupPurge key now).1.Sub m := by
  rcases Store.lookupPurge_fst m key now with he | he <;> rw [he]
  · exact refl m
  · exact erase_left m key

/-- A lookup of a key that `m` has no entry for keeps `m` below. -/
theorem lookupPurge_right {m h : Store K} (hs : m.Sub h) {key : K} (hk : m.lookup key = none)
    (now : Nat) : m.Sub (h.lookupPurge key now).1 := by
  rcases Store.lookupPurge_fst h key now with he | he <;> rw [he]
  · exact hs
  · exact hs.erase_right (AList.lookup_eq_none.1 hk)

end Store.Sub

/-- A hit of the lookup of L1 and L3 is the map's entry, and it has not expired. -/
theorem Store.lookupPurge_hit {m : Store K} {key : K} {now : Nat} {e : Entry}
    (h : (m.lookupPurge key now).2 = .hit e) : m.lookup key = some e ∧ e.isExpired now = false := by
  cases hl : m.lookup key with
  | none => simp [Store.lookupPurge, hl] at h
  | some e0 =>
      cases hx : e0.isExpired now <;> simp [Store.lookupPurge, hl, hx] at h
      subst h
      exact ⟨rfl, hx⟩

/-! ## The history of a run -/

/-- What a call does to the history: an insert that the tier `accepts` stores what the tier
`stores` of its entry, an invalidate removes its key, a lookup changes nothing. -/
def record (accepts : Entry → Bool) (stores : Entry → Entry) (h : Store K) : Op K → Store K
  | .lookup _ _ => h
  | .insert key entry => if accepts entry then h.insert key (stores entry) else h
  | .invalidate key => h.erase key

/-- The history of a run: its writes replayed, in order, on an empty map. -/
def history (accepts : Entry → Bool) (stores : Entry → Entry) (ops : List (Op K)) : Store K :=
  ops.foldl (record accepts stores) ∅

/-- Whether a call writes `key`: an insert of it that the tier accepts, or an invalidate of it. -/
def Op.writes (accepts : Entry → Bool) (key : K) : Op K → Bool
  | .lookup _ _ => false
  | .insert k entry => decide (k = key) && accepts entry
  | .invalidate k => decide (k = key)

/-- `e` is what the last write of `key` in `ops` stored: that write is an insert that the tier
accepts, of an entry it stores as `e`. -/
def LastWrite (accepts : Entry → Bool) (stores : Entry → Entry) (ops : List (Op K)) (key : K)
    (e : Entry) : Prop :=
  ∃ pre entry post, ops = pre ++ .insert key entry :: post ∧ accepts entry = true ∧
    stores entry = e ∧ ∀ op ∈ post, op.writes accepts key = false

section History

variable {accepts : Entry → Bool} {stores : Entry → Entry}

/-- A call that does not write `key` leaves the history's entry for it alone. -/
theorem lookup_record_of_writes_false {h : Store K} {op : Op K} {key : K}
    (hw : op.writes accepts key = false) :
    (record accepts stores h op).lookup key = h.lookup key := by
  cases op with
  | lookup => rfl
  | insert k entry =>
      simp only [record]
      split
      · exact AList.lookup_insert_ne fun hk => by simp_all [Op.writes]
      · rfl
  | invalidate k => exact AList.lookup_erase_ne fun hk => by simp [Op.writes, hk] at hw

/-- The history's entry for a key is what the last write of the key stored. -/
theorem lastWrite_of_history {key : K} {e : Entry} {ops : List (Op K)}
    (h : (history accepts stores ops).lookup key = some e) : LastWrite accepts stores ops key e := by
  induction ops using List.reverseRecOn with
  | nil => simp [history, AList.lookup_empty] at h
  | append_singleton ops op ih =>
      rw [history, List.foldl_append, List.foldl_cons, List.foldl_nil] at h
      cases hw : op.writes accepts key
      · obtain ⟨pre, entry, post, rfl, ha, hs, hp⟩ :=
          ih ((lookup_record_of_writes_false hw).symm.trans h)
        refine ⟨pre, entry, post ++ [op], by simp, ha, hs, fun o ho => ?_⟩
        rcases List.mem_append.1 ho with ho | ho
        · exact hp o ho
        · rwa [List.mem_singleton.1 ho]
      · cases op with
        | lookup => cases hw
        | insert k entry =>
            obtain ⟨rfl, ha⟩ : k = key ∧ accepts entry = true := by simpa [Op.writes] using hw
            simp only [record, ha, if_true, AList.lookup_insert, Option.some.injEq] at h
            exact ⟨ops, entry, [], rfl, ha, h, by simp⟩
        | invalidate k =>
            obtain rfl : k = key := by simpa [Op.writes] using hw
            simp [record, AList.lookup_erase] at h

end History

/-! ## Runs stay below their history -/

section Runs

variable {σ : Type} {T : Tier σ K} (mapOf : σ → Store K) {accepts : Entry → Bool}
  {stores : Entry → Entry}

/-- A tier whose every call keeps its map below the history, extended by that call, keeps it
there over every run. -/
theorem Tier.exec_sub
    (hstep : ∀ s op s' r h, (mapOf s).Sub h → T.step s op = some (s', r) →
      (mapOf s').Sub (record accepts stores h op)) :
    ∀ {ops : List (Op K)} {s st : σ} {h : Store K}, (mapOf s).Sub h → T.exec s ops = some st →
      (mapOf st).Sub (ops.foldl (record accepts stores) h)
  | [], _, _, _, hs, he => by cases he; exact hs
  | op :: ops, s, st, h, hs, he => by
      simp only [Tier.exec] at he
      rw [List.foldl_cons]
      split at he
      · cases he
      · exact Tier.exec_sub hstep (hstep _ _ _ _ _ hs ‹_›) he

/-- A tier that starts empty, keeps its map below the history, and answers a hit only with an
unexpired entry of its map, answers every hit after a run with the last write of the key. -/
theorem Tier.hit_lastWrite (hinit : mapOf T.init = ∅)
    (hstep : ∀ s op s' r h, (mapOf s).Sub h → T.step s op = some (s', r) →
      (mapOf s').Sub (record accepts stores h op))
    (hhit : ∀ s key now s' e, T.step s (.lookup key now) = some (s', .hit e) →
      (mapOf s).lookup key = some e ∧ e.isExpired now = false)
    {ops : List (Op K)} {st st' : σ} {key : K} {now : Nat} {e : Entry}
    (hx : T.exec T.init ops = some st) (hl : T.step st (.lookup key now) = some (st', .hit e)) :
    e.isExpired now = false ∧ LastWrite accepts stores ops key e := by
  obtain ⟨hm, hexp⟩ := hhit _ _ _ _ _ hl
  have h0 : (mapOf T.init).Sub ∅ := by rw [hinit]; exact Store.Sub.empty ∅
  have hsub := Tier.exec_sub mapOf hstep h0 hx
  exact ⟨hexp, lastWrite_of_history (hsub key e hm)⟩

end Runs

/-! ## The three tiers -/

namespace L1

/-- The eviction loop only removes entries. -/
theorem evict_sub (order : List K) (map : Store K) : (evict order map).map.Sub map := by
  induction order generalizing map with
  | nil => exact .refl _
  | cons old rest ih =>
      simp only [evict]
      split
      · exact (ih _).trans (.erase_left _ _)
      · exact .refl _

theorem step_sub {st : State K} {h : Store K} (hs : st.map.Sub h) (op : Op K) :
    (step st op).1.map.Sub (record (fun _ => true) id h op) := by
  cases op with
  | lookup key now => exact (Store.Sub.lookupPurge _ _ _).trans hs
  | insert key entry => exact (evict_sub _ _).trans (hs.insert key entry)
  | invalidate key =>
      show (invalidate st key).1.map.Sub (h.erase key)
      unfold invalidate
      split
      · exact hs.erase key
      · exact hs.erase_right ‹_›

end L1

namespace L2

/-- Whether `insert` stores an entry: its value fits under `MAX_VALUE_BYTES`. -/
def accepts (entry : Entry) : Bool := decide (entry.value.length ≤ maxValueBytes)

theorem replace_sub (st : State K) (missKey : K) : (replace st missKey).map.Sub st.map := by
  rcases replace_cases st missKey with ⟨k, _, -, -, he⟩ | ⟨k, _, -, -, he⟩ | ⟨-, -, he⟩ <;>
    rw [he]
  · exact .erase_left _ _
  · exact .erase_left _ _
  · exact .refl _

theorem capRound_sub (key : K) (st : State K) : (capRound key st).map.Sub st.map := by
  unfold capRound
  split
  · exact replace_sub st key
  · exact .refl _

/-- The capacity loop only removes entries. -/
theorem capLoop_sub (key : K) :
    ∀ (n : Nat) {st st' : State K}, capLoop key n st = some st' → st'.map.Sub st.map
  | 0, st, st', h => by
      simp only [capLoop] at h
      split at h
      · cases h
      · cases h; exact .refl _
  | n + 1, st, st', h => by
      simp only [capLoop] at h
      split at h
      · exact (capLoop_sub key n h).trans (replace_sub st key)
      · cases h; exact .refl _

theorem touch_sub {st st' : State K} {key : K} (h : touch st key = some st') :
    st'.map.Sub st.map := by
  unfold touch at h
  split_ifs at h
  · cases h; exact .refl _
  · cases h; exact .refl _
  · exact (capLoop_sub key _ h :)

theorem step_sub {st st' : State K} {op : Op K} {r : Reply} {h : Store K} (hs : st.map.Sub h)
    (hstep : step st op = some (st', r)) : st'.map.Sub (record accepts stored h op) := by
  cases op with
  | lookup key now =>
      refine Store.Sub.trans ?_ hs
      simp only [step, lookup] at hstep
      split at hstep
      · split at hstep
        · cases hstep; exact .erase_left _ _
        · obtain ⟨t, ht, he⟩ := Option.map_eq_some'.1 hstep
          cases he
          exact touch_sub ht
      · split_ifs at hstep <;> cases hstep <;> exact .refl _
  | insert key entry =>
      simp only [step, insert] at hstep
      split at hstep
      · cases hstep
        simpa [record, accepts, Nat.not_le.2 ‹_›] using hs
      · obtain ⟨t, ht, he⟩ := Option.map_eq_some'.1 hstep
        obtain ⟨u, hu, ht⟩ := Option.bind_eq_some.1 ht
        cases he
        simpa [record, accepts, Nat.not_lt.1 ‹_›] using
          ((capLoop_sub key _ ht).trans (touch_sub hu)).trans (hs.insert key (stored entry))
  | invalidate key =>
      simp only [step, invalidate, Option.some.injEq, Prod.mk.injEq] at hstep
      obtain ⟨rfl, -⟩ := hstep
      exact hs.erase key

/-- A hit is the map's entry, and it has not expired. -/
theorem lookup_hit {st st' : State K} {key : K} {now : Nat} {e : Entry}
    (h : lookup st key now = some (st', .hit e)) :
    st.map.lookup key = some e ∧ e.isExpired now = false := by
  unfold lookup at h
  split at h
  · rename_i e0 he0
    split at h
    · simp at h
    · rename_i hx
      obtain ⟨t, -, ht⟩ := Option.map_eq_some'.1 h
      simp only [Prod.mk.injEq, Reply.hit.injEq] at ht
      exact ht.2 ▸ ⟨he0, by simpa using hx⟩
  · split_ifs at h <;> simp at h

end L2

namespace L3

theorem step_sub {map map' : Store K} {op : Op K} {r : Reply} {h : Store K} (hs : map.Sub h)
    (hstep : tier.step map op = some (map', r)) : map'.Sub (record (fun _ => true) id h op) := by
  cases op with
  | lookup key now =>
      obtain rfl : (map.lookupPurge key now).1 = map' := congrArg Prod.fst (Option.some.inj hstep)
      exact (Store.Sub.lookupPurge _ _ _).trans hs
  | insert key entry =>
      cases hstep
      exact hs.insert key entry
  | invalidate key =>
      simp only [tier, invalidate, Option.some.injEq] at hstep
      split at hstep <;> cases hstep
      · exact hs.erase key
      · exact hs.erase_right ‹_›

end L3

/-- No tier answers a lookup with a stale or made-up entry. After any run of calls from the fresh
state, a lookup of L1, L2 or L3 that returns an entry returns an unexpired entry that the last
write of the key stored: the run has an insert of the key with no invalidate or insert of the key
after it. For L2 an insert counts only when its value fits under `MAX_VALUE_BYTES`, and the entry
returned is the one it stored, with a zero TTL replaced by `DEFAULT_TTL`. -/
theorem hit_is_last_write (ops : List (Op K)) (key : K) (now : Nat) (e : Entry) :
    (∀ st st', L1.tier.exec L1.new ops = some st →
      L1.tier.step st (.lookup key now) = some (st', .hit e) →
      e.isExpired now = false ∧ LastWrite (fun _ => true) id ops key e) ∧
    (∀ st st', L2.tier.exec L2.new ops = some st →
      L2.tier.step st (.lookup key now) = some (st', .hit e) →
      e.isExpired now = false ∧ LastWrite L2.accepts L2.stored ops key e) ∧
    (∀ map map', L3.tier.exec L3.new ops = some map →
      L3.tier.step map (.lookup key now) = some (map', .hit e) →
      e.isExpired now = false ∧ LastWrite (fun _ => true) id ops key e) := by
  refine ⟨fun st st' hx hl => ?_, fun st st' hx hl => ?_, fun map map' hx hl => ?_⟩
  · refine Tier.hit_lastWrite L1.State.map rfl
      (fun s op s' r h hs hstep => ?_) (fun s key now s' e hl => ?_) hx hl
    · obtain rfl : (L1.step s op).1 = s' := congrArg Prod.fst (Option.some.inj hstep)
      exact L1.step_sub hs op
    · exact Store.lookupPurge_hit (congrArg Prod.snd (Option.some.inj hl))
  · exact Tier.hit_lastWrite L2.State.map rfl
      (fun _ _ _ _ _ hs hstep => L2.step_sub hs hstep) (fun _ _ _ _ _ hl => L2.lookup_hit hl) hx hl
  · refine Tier.hit_lastWrite (T := L3.tier) id rfl
      (fun _ _ _ _ _ hs hstep => L3.step_sub hs hstep) (fun s key now s' e hl => ?_) hx hl
    exact Store.lookupPurge_hit (congrArg Prod.snd (Option.some.inj hl))

/-- `hit_is_last_write` on a run that writes key `[1]` twice: each tier reads the second entry
back, and it is the last write of the key. -/
theorem overwrite_read_back :
    let ops : List (Op Key) := [.insert [1] ⟨[1], 0, 0, 5⟩, .insert [1] ⟨[2], 0, 0, 5⟩]
    let e : Entry := ⟨[2], 0, 0, 5⟩
    (∃ st st', L1.tier.exec L1.new ops = some st ∧
      L1.tier.step st (.lookup [1] 3) = some (st', .hit e) ∧
      LastWrite (fun _ => true) id ops [1] e) ∧
    (∃ st st', L2.tier.exec L2.new ops = some st ∧
      L2.tier.step st (.lookup [1] 3) = some (st', .hit e) ∧
      LastWrite L2.accepts L2.stored ops [1] e) ∧
    (∃ map map', L3.tier.exec L3.new ops = some map ∧
      L3.tier.step map (.lookup [1] 3) = some (map', .hit e) ∧
      LastWrite (fun _ => true) id ops [1] e) := by
  intro ops e
  have h := hit_is_last_write ops [1] 3 e
  exact ⟨⟨_, _, rfl, rfl, (h.1 _ _ rfl rfl).2⟩, ⟨_, _, rfl, rfl, (h.2.1 _ _ rfl rfl).2⟩,
    ⟨_, _, rfl, rfl, (h.2.2 _ _ rfl rfl).2⟩⟩

end Olwsx.Cache
