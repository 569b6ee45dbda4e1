import Olwsx.Cache.Contract

/-!
# Tier L2: the adaptive replacement cache

`cache/l2.rs`: the live lists `t1` (seen once) and `t2` (seen again), the ghost lists `b1` and
`b2` of evicted keys, the map, and the target size `p_target` of `t1`. Lists are `VecDeque`s,
front first; `push_back` appends.

The two capacity loops `while t1.len() + t2.len() > MAX_ITEMS { replace(..) }` are `enforceCap`:
`capLoop` given `size` rounds. A round that changes the state removes one key from `t1` or `t2`
(`replace_progress`), so the rounds run out only when a round leaves the state as it was, and then
the loop of the code never ends (`capLoop_eq_none`). The operations are `Option`-valued, `none`
standing for a call that does not return.

The lemmas here say what each function does, case by case; `touch` is split into the move of the
key (`touchMove`) and the capacity loop (`touch_eq_enforceCap`).
-/

set_option autoImplicit false

namespace Olwsx.Cache.L2

/-- `MAX_ITEMS`. -/
def maxItems : Nat := 65536

/-- `MAX_VALUE_BYTES`, 64 MiB. -/
def maxValueBytes : Nat := 64 * 1024 * 1024

/-- `DEFAULT_TTL`, 300 s in nanoseconds. -/
def defaultTtl : Nat := 300 * 1000000000

/-- `State`. -/
structure State (K : Type) where
  t1 : List K
  t2 : List K
  b1 : List K
  b2 : List K
  map : Store K
  pTarget : Nat

variable {K : Type} [DecidableEq K]

/-- `L2::new()`: empty lists and map, `p_target = MAX_ITEMS / 2`. -/
def new : State K := ⟨[], [], [], [], ∅, maxItems / 2⟩

/-- `t1.len() + t2.len()`, the count the capacity loops test. -/
def State.size (st : State K) : Nat := st.t1.length + st.t2.length

/-- A ghost list after `push_back(k)` and the trim `if len() > MAX_ITEMS { pop_front() }`. -/
def pushGhost (b : List K) (k : K) : List K :=
  if maxItems < (b ++ [k]).length then (b ++ [k]).tail else b ++ [k]

/-- The guard of `replace`'s first branch: `t1` is non-empty, and longer than `p_target` or as
long as it with `miss_key` in `b2`. -/
def EvictsT1 (st : State K) (missKey : K) : Prop :=
  0 < st.t1.length ∧ (st.pTarget < st.t1.length ∨ (missKey ∈ st.b2 ∧ st.t1.length = st.pTarget))

instance (st : State K) (missKey : K) : Decidable (EvictsT1 st missKey) :=
  inferInstanceAs (Decidable (_ ∧ _))

/-- `replace`: evict the front of `t1` into `b1` under `EvictsT1`, otherwise the front of `t2`
into `b2`. An evicted key loses its entry. -/
def replace (st : State K) (missKey : K) : State K :=
  if EvictsT1 st missKey then
    match st.t1 with
    | k :: rest => { st with t1 := rest, map := st.map.erase k, b1 := pushGhost st.b1 k }
    | [] => st
  else
    match st.t2 with
    | k :: rest => { st with t2 := rest, map := st.map.erase k, b2 := pushGhost st.b2 k }
    | [] => st

/-- The loop `while t1.len() + t2.len() > MAX_ITEMS { replace(st, key) }` given `fuel` rounds;
`none` when it is still over capacity after them. -/
def capLoop (key : K) : Nat → State K → Option (State K)
  | 0, st => if maxItems < st.size then none else some st
  | n + 1, st => if maxItems < st.size then capLoop key n (replace st key) else some st

/-- The capacity loop as the code runs it, given `size` rounds (see `capLoop_eq_none`). -/
def enforceCap (key : K) (st : State K) : Option (State K) :=
  capLoop key st.size st

/-- `touch`: promote `key` from `t1` to the back of `t2`, or move it to the back of `t2`, or
append a new key to `t1` and run the capacity loop. -/
def touch (st : State K) (key : K) : Option (State K) :=
  if key ∈ st.t1 then some { st with t1 := st.t1.erase key, t2 := st.t2 ++ [key] }
  else if key ∈ st.t2 then some { st with t2 := st.t2.erase key ++ [key] }
  else enforceCap key { st with t1 := st.t1 ++ [key] }

/-- `lookup`. A live entry is purged and `Expired` when expired, else touched and returned. A
miss moves `p_target` one step up (capped at `MAX_ITEMS`) for a key in `b1`, else one step down
(saturating) for a key in `b2`. -/
def lookup (st : State K) (key : K) (now : Nat) : Option (State K × Reply) :=
  match st.map.lookup key with
  | some e =>
      if e.isExpired now then some ({ st with map := st.map.erase key }, .fail .expired)
      else (touch st key).map fun st' => (st', .hit e)
  | none =>
      if key ∈ st.b1 then
        some ({ st with pTarget := min maxItems (st.pTarget + 1) }, .fail .notFound)
      else if key ∈ st.b2 then some ({ st with pTarget := st.pTarget - 1 }, .fail .notFound)
      else some (st, .fail .notFound)

/-- The entry `insert` stores: the caller's, with a zero TTL replaced by `DEFAULT_TTL`. -/
def stored (entry : Entry) : Entry :=
  { entry with ttl := if entry.ttl = 0 then defaultTtl else entry.ttl }

theorem stored_of_pos {entry : Entry} (h : 0 < entry.ttl) : stored entry = entry := by
  simp [stored, Nat.pos_iff_ne_zero.1 h]

/-- `insert`: `TooLarge` above `MAX_VALUE_BYTES`; otherwise store, touch, and run the capacity
loop once more. -/
def insert (st : State K) (key : K) (entry : Entry) : Option (State K × Reply) :=
  if maxValueBytes < entry.value.length then some (st, .fail .tooLarge)
  else
    ((touch { st with map := st.map.insert key (stored entry) } key).bind
      (enforceCap key)).map fun st' => (st', .done)

/-- `invalidate`: remove the entry and filter the key out of `t1` and `t2`, live or not; the
ghost lists are left alone. `NotFound` when there was no entry. -/
def invalidate (st : State K) (key : K) : State K × Reply :=
  ({ st with
      map := st.map.erase key
      t1 := st.t1.filter (· != key)
      t2 := st.t2.filter (· != key) },
    if key ∈ st.map then .done else .fail .notFound)

/-- One call of the `Cache` trait on L2. -/
def step (st : State K) : Op K → Option (State K × Reply)
  | .lookup key now => lookup st key now
  | .insert key entry => insert st key entry
  | .invalidate key => some (invalidate st key)

/-- L2 behind the `Cache` trait. -/
def tier : Tier (State K) K := ⟨new, step⟩

/-! ## `replace` -/

theorem replace_of_evictsT1 {st : State K} {missKey k : K} {rest : List K}
    (h : EvictsT1 st missKey) (ht : st.t1 = k :: rest) :
    replace st missKey = { st with t1 := rest, map := st.map.erase k, b1 := pushGhost st.b1 k } := by
  unfold replace; rw [if_pos h]; simp [ht]

theorem replace_of_not_evictsT1 {st : State K} {missKey k : K} {rest : List K}
    (h : ¬EvictsT1 st missKey) (ht : st.t2 = k :: rest) :
    replace st missKey = { st with t2 := rest, map := st.map.erase k, b2 := pushGhost st.b2 k } := by
  unfold replace; rw [if_neg h]; simp [ht]

/-- What `replace` can do: evict the front of `t1` into `b1`, evict the front of `t2` into `b2`,
or, with `t2` empty outside the first branch, nothing. -/
theorem replace_cases (st : State K) (missKey : K) :
    (∃ k rest, EvictsT1 st missKey ∧ st.t1 = k :: rest ∧
      replace st missKey = { st with t1 := rest, map := st.map.erase k, b1 := pushGhost st.b1 k }) ∨
    (∃ k rest, ¬EvictsT1 st missKey ∧ st.t2 = k :: rest ∧
      replace st missKey = { st with t2 := rest, map := st.map.erase k, b2 := pushGhost st.b2 k }) ∨
    (¬EvictsT1 st missKey ∧ st.t2 = [] ∧ replace st missKey = st) := by
  by_cases h : EvictsT1 st missKey
  · obtain ⟨k, rest, ht⟩ := List.exists_cons_of_length_pos h.1
    exact .inl ⟨k, rest, h, ht, replace_of_evictsT1 h ht⟩
  · cases ht : st.t2 with
    | cons k rest => exact .inr (.inl ⟨k, rest, h, rfl, replace_of_not_evictsT1 h ht⟩)
    | nil => exact .inr (.inr ⟨h, rfl, by unfold replace; rw [if_neg h]; simp [ht]⟩)

omit [DecidableEq K] in
theorem length_pushGhost_le {b : List K} (h : b.length ≤ maxItems) (k : K) :
    (pushGhost b k).length ≤ maxItems := by
  unfold pushGhost; split <;> simp_all

/-- A round of the loop either removes one key from `t1` or `t2` or leaves the state as it was. -/
theorem replace_progress (st : State K) (missKey : K) :
    (replace st missKey).size + 1 = st.size ∨ replace st missKey = st := by
  rcases replace_cases st missKey with ⟨k, rest, -, ht, he⟩ | ⟨k, rest, -, ht, he⟩ | ⟨-, -, he⟩
  · left; simp [he, State.size, ht]; omega
  · left; simp [he, State.size, ht]; omega
  · exact .inr he

/-- Over capacity, with `p_target` within `MAX_ITEMS`, `replace` removes exactly one key from the
front of `t1` or of `t2`: the branch that pops `t2` is never taken with `t2` empty. -/
theorem replace_removes_one {st : State K} (missKey : K) (hp : st.pTarget ≤ maxItems)
    (hs : maxItems < st.size) :
    (∃ k rest, st.t1 = k :: rest ∧ (replace st missKey).t1 = rest ∧
      (replace st missKey).t2 = st.t2) ∨
    (∃ k rest, st.t2 = k :: rest ∧ (replace st missKey).t2 = rest ∧
      (replace st missKey).t1 = st.t1) := by
  rcases replace_cases st missKey with ⟨k, rest, -, ht, he⟩ | ⟨k, rest, -, ht, he⟩ | ⟨hn, h2, -⟩
  · exact .inl ⟨k, rest, ht, by simp [he], by simp [he]⟩
  · exact .inr ⟨k, rest, ht, by simp [he], by simp [he]⟩
  · exfalso
    simp only [State.size, h2, List.length_nil, Nat.add_zero] at hs
    exact hn ⟨by omega, .inl (by omega)⟩

theorem replace_size {st : State K} (missKey : K) (hp : st.pTarget ≤ maxItems)
    (hs : maxItems < st.size) : (replace st missKey).size + 1 = st.size := by
  rcases replace_removes_one missKey hp hs with ⟨k, rest, ht, h1, h2⟩ | ⟨k, rest, ht, h2, h1⟩ <;>
    simp [State.size, ht, h1, h2] <;> omega

@[simp] theorem replace_pTarget (st : State K) (missKey : K) :
    (replace st missKey).pTarget = st.pTarget := by
  rcases replace_cases st missKey with ⟨_, _, -, -, he⟩ | ⟨_, _, -, -, he⟩ | ⟨-, -, he⟩ <;>
    simp [he]

/-! ## The capacity loop -/

theorem capLoop_of_le {st : State K} (key : K) (h : st.size ≤ maxItems) :
    ∀ n, capLoop key n st = some st
  | 0 => by simp [capLoop, Nat.not_lt.2 h]
  | _ + 1 => by simp [capLoop, Nat.not_lt.2 h]

theorem enforceCap_of_le {st : State K} (key : K) (h : st.size ≤ maxItems) :
    enforceCap key st = some st :=
  capLoop_of_le key h _

/-- The model's loop runs out of rounds only on a state that a round leaves unchanged over
capacity, where the loop of the code never ends. -/
theorem capLoop_eq_none (key : K) :
    ∀ (n : Nat) (st : State K), st.size ≤ n → capLoop key n st = none →
      ∃ j, maxItems < ((replace · key)^[j] st).size ∧
        replace ((replace · key)^[j] st) key = (replace · key)^[j] st
  | 0, st, hn, _ => by simp [maxItems] at hn; simp [capLoop, hn] at *
  | n + 1, st, hn, h => by
      simp only [capLoop] at h
      split at h
      · rcases replace_progress st key with hp | hp
        · obtain ⟨j, hj⟩ := capLoop_eq_none key n _ (by omega) h
          exact ⟨j + 1, hj⟩
        · exact ⟨0, ‹_›, hp⟩
      · cases h

/-- At most one round of the capacity loop: `replace` when over capacity, nothing otherwise. -/
def capRound (key : K) (st : State K) : State K :=
  if maxItems < st.size then replace st key else st

theorem capRound_size_le {st : State K} (key : K) (hp : st.pTarget ≤ maxItems)
    (hs : st.size ≤ maxItems + 1) : (capRound key st).size ≤ maxItems := by
  unfold capRound
  split
  · have := replace_size key hp ‹_›; omega
  · omega

/-- With `p_target` within `MAX_ITEMS` and at most one key over capacity, the loop makes at most
one round. -/
theorem enforceCap_eq {st : State K} (key : K) (hp : st.pTarget ≤ maxItems)
    (hs : st.size ≤ maxItems + 1) : enforceCap key st = some (capRound key st) := by
  unfold capRound
  unfold enforceCap
  split
  · obtain ⟨n, hn⟩ : ∃ n, st.size = n + 1 := ⟨st.size - 1, by omega⟩
    have hr := replace_size key hp ‹_›
    rw [hn, capLoop, if_pos (by omega), capLoop_of_le key (by omega)]
  · exact capLoop_of_le key (by omega) _

/-! ## `touch` -/

/-- The move `touch` makes before its capacity loop. -/
def touchMove (st : State K) (key : K) : State K :=
  if key ∈ st.t1 then { st with t1 := st.t1.erase key, t2 := st.t2 ++ [key] }
  else if key ∈ st.t2 then { st with t2 := st.t2.erase key ++ [key] }
  else { st with t1 := st.t1 ++ [key] }

/-- The move adds one to `t1.len() + t2.len()` for a new key and nothing otherwise. -/
theorem touchMove_size (st : State K) (key : K) :
    (touchMove st key).size = if key ∈ st.t1 ∨ key ∈ st.t2 then st.size else st.size + 1 := by
  unfold touchMove State.size
  by_cases h1 : key ∈ st.t1
  · have := List.length_pos_of_mem h1
    simp [h1, List.length_erase_of_mem h1]; omega
  · by_cases h2 : key ∈ st.t2
    · have := List.length_pos_of_mem h2
      simp [h1, h2, List.length_erase_of_mem h2]; omega
    · simp [h1, h2]; omega

theorem touchMove_size_le_succ (st : State K) (key : K) :
    (touchMove st key).size ≤ st.size + 1 := by
  rw [touchMove_size]; split <;> omega

/-- `touch` is its move followed by the capacity loop, from any state within capacity. -/
theorem touch_eq_enforceCap {st : State K} (key : K) (h : st.size ≤ maxItems) :
    touch st key = enforceCap key (touchMove st key) := by
  have hs := touchMove_size st key
  unfold touch
  by_cases h1 : key ∈ st.t1
  · rw [if_pos h1, enforceCap, capLoop_of_le key (by rw [hs, if_pos (.inl h1)]; exact h)]
    simp [touchMove, h1]
  · by_cases h2 : key ∈ st.t2
    · rw [if_neg h1, if_pos h2, enforceCap,
        capLoop_of_le key (by rw [hs, if_pos (.inr h2)]; exact h)]
      simp [touchMove, h1, h2]
    · simp [touchMove, h1, h2]

@[simp] theorem touchMove_map (st : State K) (key : K) : (touchMove st key).map = st.map := by
  unfold touchMove; split_ifs <;> rfl

@[simp] theorem touchMove_b1 (st : State K) (key : K) : (touchMove st key).b1 = st.b1 := by
  unfold touchMove; split_ifs <;> rfl

@[simp] theorem touchMove_b2 (st : State K) (key : K) : (touchMove st key).b2 = st.b2 := by
  unfold touchMove; split_ifs <;> rfl

@[simp] theorem touchMove_pTarget (st : State K) (key : K) :
    (touchMove st key).pTarget = st.pTarget := by
  unfold touchMove; split_ifs <;> rfl

end Olwsx.Cache.L2
