import Mathlib.Data.List.AList

/-!
# Entries, errors and the cache contract

`cache/lib.rs` fixes the record every tier stores (`Entry`), the three errors (`CacheError`) and
the `Cache` trait with `lookup`, `insert` and `invalidate`. This module transcribes them. Time is
explicit: a lookup carries the clock reading `now` (nanoseconds of `Instant`), and
`Entry.isExpired` compares the elapsed time with the entry's `ttl` as `is_expired` does.

A tier is a `Tier`: its fresh state (`new()`) and one step per trait call. A step is `none` when
the call would not return (a loop of the code that spins forever). `Tier.Reachable` is the set of
states reached from the fresh one by calls that return; `Tier.run` collects the replies of a run
and `Tier.exec` its final state.

- `Tier.Reachable.rec_inv`: the induction every tier invariant uses.
- `Tier.run_eq_of_simulation`: two tiers related by a relation that both keep in lockstep, with a
  budget of insert calls, give the same replies on every run within the budget.
- `Tier.run_rel_of_simulation`: the same without a budget, for replies related by a relation.
-/

set_option autoImplicit false

namespace Olwsx.Cache

/-- `Entry`: the stored bytes, the caller's flag bitmask, and the creation instant and time to
live, both in nanoseconds. -/
structure Entry where
  value : List UInt8
  flags : UInt32
  ts : Nat
  ttl : Nat
  deriving DecidableEq, Repr

/-- `Entry::new`, with the reading of `Instant::now()` passed in as `now`. -/
def Entry.new (value : List UInt8) (flags : UInt32) (ttl now : Nat) : Entry :=
  ⟨value, flags, now, ttl⟩

/-- `is_expired`: `ts.elapsed() > ttl`. `elapsed` saturates at zero, as `Nat` subtraction does. -/
def Entry.isExpired (e : Entry) (now : Nat) : Bool :=
  decide (e.ttl < now - e.ts)

/-- `CacheError`. -/
inductive CacheError where
  | tooLarge
  | notFound
  | expired
  deriving DecidableEq, Repr

/-- What a trait call returns: `Ok(entry)` of a lookup, `Ok(())` of an insert or an invalidate,
or an `Err`. -/
inductive Reply where
  | hit (e : Entry)
  | done
  | fail (err : CacheError)
  deriving DecidableEq, Repr

/-- The keys of the code, `Vec<u8>`. The tiers are written over any key type with decidable
equality, the only operation the code applies to keys. -/
abbrev Key := List UInt8

/-- Keys `[0]`, `[0, 0]`, ... of lengths `1` to `n`: `n` distinct keys, none of them empty. -/
def zeroKeys (n : Nat) : List Key := (List.range n).map fun i => List.replicate (i + 1) 0

theorem zeroKeys_nodup (n : Nat) : (zeroKeys n).Nodup :=
  (List.nodup_range n).map fun i j h => by simpa using congrArg List.length h

theorem nil_not_mem_zeroKeys (n : Nat) : ([] : Key) ∉ zeroKeys n := by
  simp [zeroKeys, eq_comm (a := ([] : Key))]

@[simp] theorem length_zeroKeys (n : Nat) : (zeroKeys n).length = n := by
  simp [zeroKeys]

theorem zeroKeys_succ (n : Nat) : zeroKeys (n + 1) = [0] :: (zeroKeys (n + 1)).tail := by
  simp [zeroKeys, List.range_succ_eq_map]

/-- A one-byte key other than `[0]` is none of the zero keys. -/
theorem singleton_not_mem_zeroKeys {b : UInt8} (hb : b ≠ 0) (n : Nat) : [b] ∉ zeroKeys n := by
  simp [zeroKeys, List.replicate_succ, Ne.symm hb]

/-- The `HashMap<Vec<u8>, Entry>` a tier owns, as a finite map from keys to entries. -/
abbrev Store (K : Type) := AList (fun _ : K => Entry)

/-- Removing a key without an entry leaves the map as it is. -/
theorem Store.erase_of_not_mem {K : Type} [DecidableEq K] {map : Store K} {key : K}
    (h : key ∉ map) : map.erase key = map :=
  AList.ext (List.kerase_of_not_mem_keys h)

/-- The lookup `L1` and `L3` make on their map: a live entry is returned, an expired one is removed
and reported `Expired`, a missing key is `NotFound`. -/
def Store.lookupPurge {K : Type} [DecidableEq K] (map : Store K) (key : K) (now : Nat) :
    Store K × Reply :=
  match map.lookup key with
  | some e => if e.isExpired now then (map.erase key, .fail .expired) else (map, .hit e)
  | none => (map, .fail .notFound)

/-- The map after `lookupPurge` is the map with at most the looked-up key removed. -/
theorem Store.lookupPurge_fst {K : Type} [DecidableEq K] (map : Store K) (key : K) (now : Nat) :
    (map.lookupPurge key now).1 = map ∨ (map.lookupPurge key now).1 = map.erase key := by
  unfold Store.lookupPurge
  split
  · split <;> simp
  · simp

/-- A call of the `Cache` trait; a lookup carries the clock reading its expiry test uses. -/
inductive Op (K : Type) where
  | lookup (key : K) (now : Nat)
  | insert (key : K) (entry : Entry)
  | invalidate (key : K)
  deriving DecidableEq, Repr

/-- Insert calls, the calls that count against a tier's capacity. -/
def Op.isInsert {K : Type} : Op K → Bool
  | .insert _ _ => true
  | _ => false

/-- A tier behind the `Cache` trait: its fresh state and the effect of one call, `none` when the
call does not return. -/
structure Tier (σ K : Type) where
  init : σ
  step : σ → Op K → Option (σ × Reply)

namespace Tier

variable {σ τ K : Type} (T : Tier σ K)

/-- States reached from the fresh state by calls that return. -/
inductive Reachable : σ → Prop
  | init : Reachable T.init
  | step {s s' : σ} {op : Op K} {r : Reply} :
      Reachable s → T.step s op = some (s', r) → Reachable s'

/-- The replies of a run of calls from `s`, or `none` when one of the calls does not return. -/
def run : σ → List (Op K) → Option (List Reply)
  | _, [] => some []
  | s, op :: ops =>
      match T.step s op with
      | none => none
      | some (s', r) => (run s' ops).map (r :: ·)

/-- The state after a run of calls from `s`, or `none` when one of the calls does not return. -/
def exec : σ → List (Op K) → Option σ
  | s, [] => some s
  | s, op :: ops =>
      match T.step s op with
      | none => none
      | some (s', _) => exec s' ops

variable {T}

/-- An invariant that holds of the fresh state and that every returning call keeps holds of every
reachable state. -/
theorem Reachable.rec_inv {P : σ → Prop} (h0 : P T.init)
    (hs : ∀ s op s' r, P s → T.step s op = some (s', r) → P s') {s : σ}
    (h : T.Reachable s) : P s := by
  induction h with
  | init => exact h0
  | step _ hstep ih => exact hs _ _ _ _ ih hstep

/-- For a tier whose calls all return, `f s op` being the state and reply of a call: an invariant
of the fresh state that every `f` keeps holds of every reachable state. -/
theorem Reachable.rec_total {f : σ → Op K → σ × Reply} (hT : ∀ s op, T.step s op = some (f s op))
    {P : σ → Prop} (h0 : P T.init) (hs : ∀ s op, P s → P (f s op).1) {s : σ}
    (h : T.Reachable s) : P s :=
  h.rec_inv h0 fun s op s' r hp hstep => by
    rw [hT, Option.some.injEq] at hstep
    simpa [hstep] using hs s op hp

/-- A run that returns ends in a state reachable from where it started. -/
theorem Reachable.exec {s s' : σ} (h : T.Reachable s) :
    ∀ {ops : List (Op K)}, T.exec s ops = some s' → T.Reachable s' := by
  intro ops
  induction ops generalizing s with
  | nil => intro he; cases he; exact h
  | cons op ops ih =>
      intro he
      simp only [Tier.exec] at he
      split at he
      · cases he
      · exact ih (h.step ‹_›) he

theorem exec_append (s : σ) (ops ops' : List (Op K)) :
    T.exec s (ops ++ ops') = (T.exec s ops).bind (T.exec · ops') := by
  induction ops generalizing s with
  | nil => rfl
  | cons op ops ih =>
      simp only [List.cons_append, Tier.exec]
      split <;> simp [ih]

/-- Lockstep simulation with a budget of inserts. If from related states both tiers answer every
allowed call with the same reply and reach related states, an insert spending one unit of the
budget, then from related states every allowed run within the budget gets the same replies. -/
theorem run_eq_of_simulation (U : Tier τ K) (G : Op K → Prop) (R : Nat → σ → τ → Prop)
    (hstep : ∀ n s t op, G op → R n s t → (op.isInsert → 0 < n) →
      ∃ s' t' r, T.step s op = some (s', r) ∧ U.step t op = some (t', r) ∧
        R (if op.isInsert then n - 1 else n) s' t') :
    ∀ (ops : List (Op K)) (n : Nat) (s : σ) (t : τ), (∀ op ∈ ops, G op) → R n s t →
      ops.countP (·.isInsert) ≤ n → T.run s ops = U.run t ops := by
  intro ops
  induction ops with
  | nil => intro _ _ _ _ _ _; rfl
  | cons op ops ih =>
      intro n s t hG hR hn
      have hcount : ops.countP (·.isInsert) + (if op.isInsert then 1 else 0) ≤ n := by
        simpa [List.countP_cons] using hn
      obtain ⟨s', t', r, hs, ht, hR'⟩ :=
        hstep n s t op (hG op (List.mem_cons_self _ _)) hR (fun hi => by simp [hi] at hcount; omega)
      have hrest := ih _ s' t' (fun o ho => hG o (List.mem_cons_of_mem _ ho)) hR'
        (by cases h : op.isInsert <;> simp [h] at hcount ⊢ <;> omega)
      simp only [Tier.run, hs, ht, hrest]

/-- Lockstep simulation up to a relation `ρ` on replies. If from related states both tiers answer
every allowed call, with replies related by `ρ`, and reach related states, then from related states
every allowed run returns in both tiers, with the replies related call by call. -/
theorem run_rel_of_simulation (U : Tier τ K) (G : Op K → Prop) (R : σ → τ → Prop)
    (ρ : Reply → Reply → Prop)
    (hstep : ∀ s t op, G op → R s t →
      ∃ s' t' r r', T.step s op = some (s', r) ∧ U.step t op = some (t', r') ∧ ρ r r' ∧ R s' t') :
    ∀ (ops : List (Op K)) (s : σ) (t : τ), (∀ op ∈ ops, G op) → R s t →
      ∃ rs rs', T.run s ops = some rs ∧ U.run t ops = some rs' ∧ List.Forall₂ ρ rs rs' := by
  intro ops
  induction ops with
  | nil => intro _ _ _ _; exact ⟨[], [], rfl, rfl, .nil⟩
  | cons op ops ih =>
      intro s t hG hR
      obtain ⟨s', t', r, r', hs, ht, hr, hR'⟩ := hstep s t op (hG op (List.mem_cons_self _ _)) hR
      obtain ⟨rs, rs', hrs, hrs', hf⟩ :=
        ih s' t' (fun o ho => hG o (List.mem_cons_of_mem _ ho)) hR'
      exact ⟨r :: rs, r' :: rs', by simp [Tier.run, hs, hrs], by simp [Tier.run, ht, hrs'],
        .cons hr hf⟩

end Tier

end Olwsx.Cache
