import Mathlib.Algebra.BigOperators.Group.List
import Mathlib.Data.List.Sort
import Olwsx.Observability.Wire

/-!
# The latency histogram

`observability/metrics.rs`: `LatencyHistogram` counts observations in the sixteen buckets that
`LAT_BOUNDS` closes from above, bucket `i` holding the `ms` with
`LAT_BOUNDS[i-1] < ms ≤ LAT_BOUNDS[i]`. `quantile(q)` scans the bins for the first whose running
sum reaches the target `ceil(count * q)`.

A `u64 +=` is checked (`addU64`): it is `none` where the sum passes `u64::MAX`, where a debug
build panics; a release build wraps there. The target of `quantile` is computed in `f64`, which
the proofs leave abstract: `quantileAt` takes the target as given.

- `Tracks.observeAll`: after any run from `new`, each bin counts the observations of its bucket,
  `count` their number and `sum_ms` their exact sum.
- `observeAll_isSome_iff`: a run completes exactly when neither its length nor its sum passes
  `u64::MAX`; `observe_sum_overflow` is a run of two observations whose sum does.
- `quantileAt_rank`: for every run and every target `1 ≤ t ≤ count`, the scan returns the bound of
  the bucket that holds the `t`-th smallest observation.
- `quantileAt_mono`: after any run the scan answers every target, its answer grows with the
  target, and a target past `count` gets `u64::MAX`.
- `observeAll_buckets`: `Tracks` read through the bounds, bin `i` counting the observations with
  `LAT_BOUNDS[i-1] < ms ≤ LAT_BOUNDS[i]`.
-/

set_option autoImplicit false

namespace Olwsx.Observability

/-- `LAT_BOUNDS`: the upper bound of each bucket, in milliseconds. -/
def latBounds : List UInt64 :=
  [5, 10, 20, 30, 40, 50, 60, 80, 100, 150, 200, 250, 300, 400, 600, 18446744073709551615]

/-- `a += b` on `u64`: `none` where the sum passes `u64::MAX`. -/
def addU64 (a b : UInt64) : Option UInt64 :=
  if a.toNat + b.toNat < UInt64.size then some (a + b) else none

/-- `LatencyHistogram`; its sixteen bins are a field's invariant. -/
structure LatencyHistogram where
  bins : List UInt64
  count : UInt64
  sumMs : UInt64
  bins_length : bins.length = 16
  deriving DecidableEq

namespace LatencyHistogram

/-- `LatencyHistogram::new`. -/
def new : LatencyHistogram := ⟨List.replicate 16 0, 0, 0, rfl⟩

/-- The loop and the clamp at the top of `observe_ms`: the first bucket whose bound is at least
`ms`, and the last bucket if there is none. -/
def bucketIdx (ms : UInt64) : Nat := min (latBounds.findIdx fun b => decide (ms ≤ b)) 15

/-- `observe_ms`: one more observation in its bucket, in `count` and in `sum_ms`. -/
def observeMs (h : LatencyHistogram) (ms : UInt64) : Option LatencyHistogram := do
  let idx := bucketIdx ms
  let bin ← addU64 (h.bins.getD idx 0) 1
  let count ← addU64 h.count 1
  let sumMs ← addU64 h.sumMs ms
  pure ⟨h.bins.set idx bin, count, sumMs, by rw [List.length_set, h.bins_length]⟩

/-- `observe_ms` on each observation in turn, as the loop of `test_hist` makes the calls. -/
def observeAll (h : LatencyHistogram) : List UInt64 → Option LatencyHistogram
  | [] => some h
  | ms :: xs => (h.observeMs ms).bind fun h' => h'.observeAll xs

/-- The loop of `quantile` over the bins from bin `i` on, `acc` being the sum of those before. -/
def scanBins (target : UInt64) : Nat → UInt64 → List UInt64 → Option UInt64
  | _, _, [] => some (latBounds.getD 15 0)
  | i, acc, c :: cs => (addU64 acc c).bind fun acc =>
      if acc ≥ target then some (latBounds.getD i 0) else scanBins target (i + 1) acc cs

/-- `quantile` once its target is computed. -/
def quantileAt (h : LatencyHistogram) (target : UInt64) : Option UInt64 :=
  if target = 0 then some 0 else scanBins target 0 0 h.bins

/-- `quantile`: the target `ceil(count * q)` in `f64`, cast to `u64`. -/
def quantile (h : LatencyHistogram) (q : Float) : Option UInt64 :=
  h.quantileAt (h.count.toFloat * q).ceil.toUInt64

/-- `p50`. -/
def p50 (h : LatencyHistogram) : Option UInt64 := h.quantile 0.50

/-- `p90`. -/
def p90 (h : LatencyHistogram) : Option UInt64 := h.quantile 0.90

/-- `p99`. -/
def p99 (h : LatencyHistogram) : Option UInt64 := h.quantile 0.99

end LatencyHistogram

/-- `LatencyHistogram::export`, read at the clock reading `tsMs`. -/
def LatencyHistogram.export (h : LatencyHistogram) (name : String)
    (labels : List (String × String)) (tsMs : UInt64) : MetricEnvelope :=
  ⟨tsMs, name, labels, .latencyHist ⟨h.bins, h.bins_length⟩⟩

namespace LatencyHistogram

/-! ## `u64` arithmetic -/

theorem addU64_eq_some {a b c : UInt64} :
    addU64 a b = some c ↔ a.toNat + b.toNat < UInt64.size ∧ c = a + b := by
  unfold addU64
  split <;> simp_all [eq_comm]

theorem toNat_add_of_lt {a b : UInt64} (h : a.toNat + b.toNat < UInt64.size) :
    (a + b).toNat = a.toNat + b.toNat :=
  (BitVec.toNat_add _ _).trans (Nat.mod_eq_of_lt h)

theorem toNat_add_one_of_lt {a : UInt64} (h : a.toNat + 1 < UInt64.size) :
    (a + 1).toNat = a.toNat + 1 :=
  toNat_add_of_lt h

theorem getD_set {l : List UInt64} {i : Nat} (hi : i < l.length) (v : UInt64) (j : Nat) :
    (l.set i v).getD j 0 = if i = j then v else l.getD j 0 := by
  simp only [List.getD_eq_getElem?_getD, List.getElem?_set, hi, if_true]
  split <;> rfl

/-! ## Buckets -/

theorem latBounds_sorted : latBounds.Sorted (· ≤ ·) := by decide

theorem findIdx_le_iff {ms : UInt64} :
    ∀ {l : List UInt64}, l.Sorted (· ≤ ·) → ∀ {j : Nat}, j < l.length →
      ((l.findIdx fun b => decide (ms ≤ b)) ≤ j ↔ ms ≤ l.getD j 0)
  | [], _, _, hj => absurd hj (Nat.not_lt_zero _)
  | b :: bs, hs, j, hj => by
    obtain ⟨hb, hbs⟩ := List.sorted_cons.1 hs
    rw [List.findIdx_cons]
    by_cases hmb : ms ≤ b
    · rw [decide_eq_true hmb, cond_true]
      cases j with
      | zero => simpa using hmb
      | succ j =>
        have hj' : j < bs.length := by simpa using hj
        rw [List.getD_cons_succ, List.getD_eq_getElem?_getD, List.getElem?_eq_getElem hj',
          Option.getD_some]
        exact iff_of_true (Nat.zero_le _) (UInt64.le_trans hmb (hb _ (List.getElem_mem hj')))
    · rw [decide_eq_false hmb, cond_false]
      cases j with
      | zero => simpa using hmb
      | succ j =>
        rw [Nat.add_le_add_iff_right, List.getD_cons_succ]
        exact findIdx_le_iff hbs (by simpa using hj)

/-- The bucket of `ms` is at or before `j` exactly when `ms` is within the `j`-th bound. -/
theorem bucketIdx_le_iff (ms : UInt64) {j : Nat} (hj : j < 16) :
    bucketIdx ms ≤ j ↔ ms ≤ latBounds.getD j 0 := by
  rw [bucketIdx, min_le_iff, findIdx_le_iff latBounds_sorted hj, or_iff_left_of_imp]
  intro h15
  obtain rfl : j = 15 := by omega
  exact Nat.le_of_lt_succ ms.toNat_lt_size

theorem bucketIdx_lt (ms : UInt64) : bucketIdx ms < 16 :=
  Nat.lt_succ_of_le (min_le_right _ _)

/-! ## Runs of `observe_ms` -/

/-- The step, said once: the three checked additions succeed, and the bin, `count` and `sum_ms`
take their sums. -/
theorem observeMs_eq_some {h h' : LatencyHistogram} {ms : UInt64} :
    h.observeMs ms = some h' ↔
      (h.bins.getD (bucketIdx ms) 0).toNat + 1 < UInt64.size ∧
      h.count.toNat + 1 < UInt64.size ∧ h.sumMs.toNat + ms.toNat < UInt64.size ∧
      h'.bins = h.bins.set (bucketIdx ms) (h.bins.getD (bucketIdx ms) 0 + 1) ∧
      h'.count = h.count + 1 ∧ h'.sumMs = h.sumMs + ms := by
  obtain ⟨bins', count', sum', _⟩ := h'
  simp only [observeMs, Option.bind_eq_bind, Option.bind_eq_some, addU64_eq_some, pure,
    Option.some.injEq, mk.injEq]
  constructor
  · rintro ⟨_, ⟨hb, rfl⟩, _, ⟨hc, rfl⟩, _, ⟨hs, rfl⟩, rfl, rfl, rfl⟩
    exact ⟨hb, hc, hs, rfl, rfl, rfl⟩
  · rintro ⟨hb, hc, hs, rfl, rfl, rfl⟩
    exact ⟨_, ⟨hb, rfl⟩, _, ⟨hc, rfl⟩, _, ⟨hs, rfl⟩, rfl, rfl, rfl⟩

/-- What the observations `xs` leave in a histogram: each bin counts the observations of its
bucket, `count` their number and `sum_ms` their sum. -/
structure Tracks (xs : List UInt64) (h : LatencyHistogram) : Prop where
  bin : ∀ i, (h.bins.getD i 0).toNat = xs.countP fun ms => bucketIdx ms = i
  count : h.count.toNat = xs.length
  sumMs : h.sumMs.toNat = (xs.map UInt64.toNat).sum

theorem Tracks.new : Tracks [] new := by
  refine ⟨fun i => ?_, rfl, rfl⟩
  simp only [LatencyHistogram.new, List.getD_eq_getElem?_getD, List.getElem?_replicate]
  split <;> rfl

theorem Tracks.observe {xs : List UInt64} {h h' : LatencyHistogram} {ms : UInt64}
    (ht : Tracks xs h) (hs : h.observeMs ms = some h') : Tracks (xs ++ [ms]) h' := by
  obtain ⟨hb, hc, hsum, hbins, hcount, hsumMs⟩ := observeMs_eq_some.1 hs
  refine ⟨fun i => ?_, ?_, ?_⟩
  · rw [hbins, getD_set (h.bins_length ▸ bucketIdx_lt ms), List.countP_append, ← ht.bin i]
    by_cases hmi : bucketIdx ms = i
    · subst hmi
      rw [if_pos rfl, toNat_add_one_of_lt hb]
      simp
    · simp [hmi]
  · rw [hcount, toNat_add_one_of_lt hc, ht.count, List.length_append, List.length_singleton]
  · rw [hsumMs, toNat_add_of_lt hsum, ht.sumMs]
    simp

/-- The run lemma: a run of `observe_ms` calls keeps `Tracks`, appending its observations. -/
theorem Tracks.observeAll {xs : List UInt64} {h : LatencyHistogram} (ht : Tracks xs h) :
    ∀ {ys : List UInt64} {h' : LatencyHistogram}, h.observeAll ys = some h' → Tracks (xs ++ ys) h'
  | [], _, hr => by
    cases hr
    simpa using ht
  | ms :: ys, _, hr => by
    obtain ⟨h₁, h1, hr⟩ := Option.bind_eq_some.1 hr
    simpa using (ht.observe h1).observeAll hr

/-- Every run from `new` is tracked. -/
theorem tracks_of_run {xs : List UInt64} {h : LatencyHistogram}
    (hrun : new.observeAll xs = some h) : Tracks xs h := by
  simpa using Tracks.new.observeAll hrun

theorem bin_le_count {xs : List UInt64} {h : LatencyHistogram} (ht : Tracks xs h) (i : Nat) :
    (h.bins.getD i 0).toNat ≤ h.count.toNat := by
  rw [ht.bin, ht.count]
  exact List.countP_le_length _

/-- One step succeeds exactly when neither the new count nor the new sum passes `u64::MAX`. -/
theorem observeMs_isSome_iff {xs : List UInt64} {h : LatencyHistogram} (ht : Tracks xs h)
    (ms : UInt64) :
    (h.observeMs ms).isSome ↔
      h.count.toNat + 1 < UInt64.size ∧ h.sumMs.toNat + ms.toNat < UInt64.size := by
  rw [Option.isSome_iff_exists]
  constructor
  · rintro ⟨h', hs⟩
    obtain ⟨-, hc, hs, -⟩ := observeMs_eq_some.1 hs
    exact ⟨hc, hs⟩
  · rintro ⟨hc, hs⟩
    have hb := bin_le_count ht (bucketIdx ms)
    exact ⟨⟨h.bins.set (bucketIdx ms) (h.bins.getD (bucketIdx ms) 0 + 1), h.count + 1,
      h.sumMs + ms, by rw [List.length_set, h.bins_length]⟩,
      observeMs_eq_some.2 ⟨by omega, hc, hs, rfl, rfl, rfl⟩⟩

theorem observeAll_isSome_iff_of_tracks {xs : List UInt64} {h : LatencyHistogram}
    (ht : Tracks xs h) : ∀ ys : List UInt64,
      (h.observeAll ys).isSome ↔ (xs ++ ys).length < UInt64.size ∧
        ((xs ++ ys).map UInt64.toNat).sum < UInt64.size
  | [] => by
    have hc := ht.count ▸ h.count.toNat_lt_size
    have hs := ht.sumMs ▸ h.sumMs.toNat_lt_size
    simp [observeAll, hc, hs]
  | ms :: ys => by
    rcases hs : h.observeMs ms with _ | h₁
    · have := (observeMs_isSome_iff ht ms).not.1 (by simp [hs])
      simp only [observeAll, hs, Option.none_bind, Option.isSome_none, Bool.false_eq_true,
        false_iff, List.length_append, List.length_cons, List.map_append, List.map_cons,
        List.sum_append, List.sum_cons]
      rw [ht.count, ht.sumMs] at this
      omega
    · have ht₁ := ht.observe hs
      simp only [observeAll, hs, Option.some_bind, observeAll_isSome_iff_of_tracks ht₁ ys,
        List.append_assoc, List.singleton_append]

/-- A run from `new` completes exactly when neither the number of observations nor their sum
passes `u64::MAX`; then `sum_ms` is that sum (`Tracks.sumMs`). -/
theorem observeAll_isSome_iff (xs : List UInt64) :
    (new.observeAll xs).isSome ↔
      xs.length < UInt64.size ∧ (xs.map UInt64.toNat).sum < UInt64.size := by
  simpa using observeAll_isSome_iff_of_tracks Tracks.new xs

/-- After `observe_ms(1)`, `observe_ms(u64::MAX)` takes `sum_ms` past `u64::MAX` at line 52: a
debug build panics there, and a release build leaves `sum_ms` at 0. -/
theorem observe_sum_overflow :
    ∃ h, new.observeMs 1 = some h ∧ h.sumMs = 1 ∧ h.observeMs 18446744073709551615 = none ∧
      h.sumMs + 18446744073709551615 = 0 :=
  ⟨_, rfl, rfl, rfl, rfl⟩

/-! ## The quantile scan -/

theorem countP_bucket_lt_succ (xs : List UInt64) (j : Nat) :
    xs.countP (fun ms => bucketIdx ms < j + 1) =
      xs.countP (fun ms => bucketIdx ms < j) + xs.countP (fun ms => bucketIdx ms = j) := by
  induction xs with
  | nil => rfl
  | cons ms xs ih =>
    simp only [List.countP_cons, ih, decide_eq_true_eq]
    split_ifs <;> omega

/-- The first `j` bins hold the observations of the first `j` buckets. -/
theorem Tracks.sum_take {xs : List UInt64} {h : LatencyHistogram} (ht : Tracks xs h) :
    ∀ j ≤ 16, ((h.bins.take j).map UInt64.toNat).sum = xs.countP fun ms => bucketIdx ms < j
  | 0, _ => by simp
  | j + 1, hj => by
    have hlt : j < h.bins.length := by rw [h.bins_length]; omega
    rw [List.take_succ, List.getElem?_eq_getElem hlt, List.map_append, List.sum_append,
      Tracks.sum_take ht j (by omega), countP_bucket_lt_succ, ← ht.bin j,
      List.getD_eq_getElem?_getD, List.getElem?_eq_getElem hlt]
    simp

theorem sum_take_cons (c : UInt64) (cs : List UInt64) (k : Nat) :
    (((c :: cs).take (k + 1)).map UInt64.toNat).sum =
      c.toNat + ((cs.take k).map UInt64.toNat).sum := by
  simp

/-- The scan returns the bound of the first bin at which the running sum reaches the target,
when no sum on the way passes `u64::MAX`. -/
theorem scanBins_eq {t : UInt64} : ∀ {cs : List UInt64} {i : Nat} {acc : UInt64} {k : Nat},
    acc.toNat + (cs.map UInt64.toNat).sum < UInt64.size → k < cs.length →
    t.toNat ≤ acc.toNat + ((cs.take (k + 1)).map UInt64.toNat).sum →
    (∀ j < k, acc.toNat + ((cs.take (j + 1)).map UInt64.toNat).sum < t.toNat) →
    scanBins t i acc cs = some (latBounds.getD (i + k) 0)
  | [], _, _, _, _, hk, _, _ => absurd hk (Nat.not_lt_zero _)
  | c :: cs, i, acc, k, hsum, hk, hge, hlt => by
    have hc : acc.toNat + c.toNat < UInt64.size := by
      simp only [List.map_cons, List.sum_cons] at hsum
      omega
    rw [scanBins, addU64_eq_some.2 ⟨hc, rfl⟩, Option.some_bind]
    cases k with
    | zero =>
      have hge' : t.toNat ≤ (acc + c).toNat := by simpa [toNat_add_of_lt hc] using hge
      rw [if_pos (show acc + c ≥ t from hge')]
      rfl
    | succ k =>
      have h0 := hlt 0 (Nat.succ_pos k)
      simp only [sum_take_cons, List.take_zero, List.map_nil, List.sum_nil] at h0 hge hlt
      have hac := toNat_add_of_lt hc
      have hlt' : ¬ t.toNat ≤ (acc + c).toNat := by omega
      rw [if_neg (show ¬ acc + c ≥ t from hlt'), show i + (k + 1) = i + 1 + k by omega]
      refine scanBins_eq ?_ (by simpa using hk) (by omega) fun j hj => ?_
      · simp only [List.map_cons, List.sum_cons] at hsum
        omega
      · have := hlt (j + 1) (by omega)
        omega

/-- In a sorted list, the element at `j` is at most `b` exactly when more than `j` elements are. -/
theorem getD_le_iff_lt_countP {b : Nat} : ∀ {s : List Nat}, s.Sorted (· ≤ ·) →
    ∀ {j : Nat}, j < s.length → (s.getD j 0 ≤ b ↔ j < s.countP fun y => y ≤ b)
  | [], _, _, hj => absurd hj (Nat.not_lt_zero _)
  | a :: s, hs, j, hj => by
    obtain ⟨ha, hs'⟩ := List.sorted_cons.1 hs
    by_cases hab : a ≤ b
    · rw [List.countP_cons, if_pos (by simpa using hab)]
      cases j with
      | zero => simpa using hab
      | succ j =>
        rw [List.getD_cons_succ, getD_le_iff_lt_countP hs' (by simpa using hj)]
        omega
    · have h0 : s.countP (fun y => y ≤ b) = 0 :=
        List.countP_eq_zero.2 fun y hy hyb => hab (le_trans (ha y hy) (by simpa using hyb))
      rw [List.countP_cons, if_neg (by simpa using hab), h0]
      refine iff_of_false (fun hjb => hab (le_trans ?_ hjb)) (Nat.not_lt_zero _)
      cases j with
      | zero => rfl
      | succ j =>
        have hj' : j < s.length := by simpa using hj
        rw [List.getD_cons_succ, List.getD_eq_getElem?_getD, List.getElem?_eq_getElem hj',
          Option.getD_some]
        exact ha _ (List.getElem_mem hj')

theorem getD_mem_of_lt {l : List Nat} {j : Nat} (hj : j < l.length) : l.getD j 0 ∈ l := by
  rw [List.getD_eq_getElem?_getD, List.getElem?_eq_getElem hj]
  exact List.getElem_mem hj

/-- `count` is the sum of the bins. -/
theorem Tracks.sum_bins {xs : List UInt64} {h : LatencyHistogram} (ht : Tracks xs h) :
    (h.bins.map UInt64.toNat).sum = h.count.toNat := by
  have := ht.sum_take 16 le_rfl
  rwa [List.take_of_length_le h.bins_length.le, List.countP_eq_length.2
    fun m _ => by simpa using bucketIdx_lt m, ← ht.count] at this

/-- The running sum of the first `j + 1` bins reaches the rank `t` exactly when the `t`-th
smallest observation is within the `j`-th bound. -/
theorem Tracks.rank_le_sum_take_iff {xs : List UInt64} {h : LatencyHistogram} (ht : Tracks xs h)
    {t j : Nat} (ht1 : 1 ≤ t) (htx : t ≤ xs.length) (hj : j < 16) :
    t ≤ ((h.bins.take (j + 1)).map UInt64.toNat).sum ↔
      ((xs.map UInt64.toNat).insertionSort (· ≤ ·)).getD (t - 1) 0 ≤ (latBounds.getD j 0).toNat := by
  have hperm := List.perm_insertionSort (· ≤ ·) (xs.map UInt64.toNat)
  have hcount : xs.countP (fun m => bucketIdx m < j + 1) =
      ((xs.map UInt64.toNat).insertionSort (· ≤ ·)).countP
        fun y => y ≤ (latBounds.getD j 0).toNat := by
    rw [hperm.countP_eq, List.countP_map]
    exact List.countP_congr fun m _ => by simpa [Nat.lt_succ_iff] using bucketIdx_le_iff m hj
  rw [ht.sum_take (j + 1) (by omega), hcount,
    getD_le_iff_lt_countP (List.sorted_insertionSort _ _) (by simp [hperm.length_eq]; omega)]
  omega

/-- For every run from `new` and every target `1 ≤ t ≤ count`, the scan of `quantile` returns
the bound `LAT_BOUNDS[i]` of the bucket `i` holding the `t`-th smallest observation `x`:
`x ≤ LAT_BOUNDS[i]`, and `LAT_BOUNDS[i-1] < x` when `i > 0`. -/
theorem quantileAt_rank {xs : List UInt64} {h : LatencyHistogram}
    (hrun : new.observeAll xs = some h) {t : UInt64} (ht : 1 ≤ t) (htc : t ≤ h.count) :
    let x := ((xs.map UInt64.toNat).insertionSort (· ≤ ·)).getD (t.toNat - 1) 0
    ∃ i < 16, h.quantileAt t = some (latBounds.getD i 0) ∧ x ≤ (latBounds.getD i 0).toNat ∧
      (0 < i → (latBounds.getD (i - 1) 0).toNat < x) := by
  intro x
  have htr := tracks_of_run hrun
  have ht1 : 1 ≤ t.toNat := ht
  have htx : t.toNat ≤ xs.length := htr.count ▸ htc
  have hperm := List.perm_insertionSort (· ≤ ·) (xs.map UInt64.toNat)
  obtain ⟨ms, -, hx⟩ : ∃ ms ∈ xs, ms.toNat = x := List.mem_map.1 (hperm.subset
    (getD_mem_of_lt (by rw [hperm.length_eq, List.length_map]; omega)))
  -- `x` is the observation `ms`; the scan stops at its bucket
  have key : ∀ j < 16,
      t.toNat ≤ ((h.bins.take (j + 1)).map UInt64.toNat).sum ↔ bucketIdx ms ≤ j := fun j hj => by
    rw [htr.rank_le_sum_take_iff ht1 htx hj, bucketIdx_le_iff ms hj]
    show x ≤ _ ↔ _
    rw [← hx]
    rfl
  have hk := bucketIdx_lt ms
  refine ⟨bucketIdx ms, hk, ?_, ?_, fun hpos => ?_⟩
  · rw [quantileAt, if_neg (fun h0 => by simp [h0] at ht1), ← Nat.zero_add (bucketIdx ms)]
    exact scanBins_eq (by simpa [htr.sum_bins] using h.count.toNat_lt_size)
      (h.bins_length ▸ hk) (by simpa using (key _ hk).2 le_rfl)
      fun j hj => by simpa using mt (key j (by omega)).1 (by omega)
  · exact hx ▸ (bucketIdx_le_iff ms hk).1 le_rfl
  · have := mt (bucketIdx_le_iff ms (j := bucketIdx ms - 1) (by omega)).2 (by omega)
    rw [← hx]
    simpa using this

/-- `test_hist`: its seven observations, and the rank 7 that `p90` targets (`ceil(7 * 0.9)`). -/
theorem quantileAt_rank_on_test_hist :
    let h : LatencyHistogram := ⟨[1, 1, 1, 0, 0, 0, 1, 0, 0, 0, 1, 1, 0, 0, 1, 0], 7, 1007, rfl⟩
    new.observeAll [3, 7, 12, 55, 180, 240, 510] = some h ∧ (1 : UInt64) ≤ 7 ∧ 7 ≤ h.count ∧
      ∃ i < 16, h.quantileAt 7 = some (latBounds.getD i 0) ∧ 510 ≤ (latBounds.getD i 0).toNat ∧
        (0 < i → (latBounds.getD (i - 1) 0).toNat < 510) :=
  ⟨rfl, by decide, by decide, @quantileAt_rank [3, 7, 12, 55, 180, 240, 510] _ rfl 7
    (by decide) (by decide)⟩

/-! ## The scan over every target -/

theorem latBounds_getD_le {i j : Nat} (hij : i ≤ j) (hj : j < 16) :
    latBounds.getD i 0 ≤ latBounds.getD j 0 := by
  have hl : latBounds.length = 16 := rfl
  simp only [List.getD_eq_getElem?_getD, List.getElem?_eq_getElem (show i < latBounds.length by omega),
    List.getElem?_eq_getElem (show j < latBounds.length by omega), Option.getD_some]
  rcases Nat.lt_or_eq_of_le hij with hlt | rfl
  · exact latBounds_sorted.rel_get_of_lt (a := ⟨i, by omega⟩) (b := ⟨j, by omega⟩) hlt
  · exact UInt64.le_refl _

/-- The scan answers whenever no running sum passes `u64::MAX`. -/
theorem scanBins_isSome {t : UInt64} : ∀ {cs : List UInt64} {i : Nat} {acc : UInt64},
    acc.toNat + (cs.map UInt64.toNat).sum < UInt64.size → (scanBins t i acc cs).isSome
  | [], _, _, _ => rfl
  | c :: cs, i, acc, hsum => by
    simp only [List.map_cons, List.sum_cons] at hsum
    have hc : acc.toNat + c.toNat < UInt64.size := by omega
    rw [scanBins, addU64_eq_some.2 ⟨hc, rfl⟩, Option.some_bind]
    split
    · rfl
    · exact scanBins_isSome (by rw [toNat_add_of_lt hc]; omega)

/-- A target past every running sum runs the scan to its end, which answers `LAT_BOUNDS[15]`. -/
theorem scanBins_of_lt {t : UInt64} : ∀ {cs : List UInt64} {i : Nat} {acc : UInt64},
    acc.toNat + (cs.map UInt64.toNat).sum < t.toNat →
      scanBins t i acc cs = some (latBounds.getD 15 0)
  | [], _, _, _ => rfl
  | c :: cs, i, acc, hlt => by
    simp only [List.map_cons, List.sum_cons] at hlt
    have hc : acc.toNat + c.toNat < UInt64.size := by have := t.toNat_lt_size; omega
    have hac := toNat_add_of_lt hc
    rw [scanBins, addU64_eq_some.2 ⟨hc, rfl⟩, Option.some_bind,
      if_neg (show ¬ acc + c ≥ t from fun hge => by have : t.toNat ≤ (acc + c).toNat := hge; omega)]
    exact scanBins_of_lt (by omega)

/-- A scan from bin `i` answers with a bound no lower than that of any bin up to `i`. -/
theorem le_scanBins {t : UInt64} {j : Nat} (hj : j < 16) :
    ∀ {cs : List UInt64} {i : Nat} {acc b : UInt64}, i + cs.length = 16 → j ≤ i →
      scanBins t i acc cs = some b → latBounds.getD j 0 ≤ b
  | [], _, _, _, _, _, hs => by
    cases hs
    exact latBounds_getD_le (by omega) (by omega)
  | c :: cs, i, acc, b, hl, hji, hs => by
    rw [List.length_cons] at hl
    rw [scanBins] at hs
    obtain ⟨acc', -, hs⟩ := Option.bind_eq_some.1 hs
    split at hs
    · cases hs
      exact latBounds_getD_le hji (by omega)
    · exact le_scanBins hj (by omega) (by omega) hs

/-- The scan's answer grows with the target. -/
theorem scanBins_mono {t t' : UInt64} (htt : t ≤ t') :
    ∀ {cs : List UInt64} {i : Nat} {acc a b : UInt64}, i + cs.length = 16 →
      scanBins t i acc cs = some a → scanBins t' i acc cs = some b → a ≤ b
  | [], _, _, _, _, _, ha, hb => by
    cases ha; cases hb
    exact UInt64.le_refl _
  | c :: cs, i, acc, a, b, hl, ha, hb => by
    rw [List.length_cons] at hl
    rw [scanBins] at ha hb
    obtain ⟨s, hs, ha⟩ := Option.bind_eq_some.1 ha
    obtain ⟨s', hs', hb⟩ := Option.bind_eq_some.1 hb
    obtain rfl : s = s' := Option.some.inj (hs.symm.trans hs')
    by_cases h' : s ≥ t'
    · rw [if_pos h'] at hb
      rw [if_pos (UInt64.le_trans htt h')] at ha
      cases ha; cases hb
      exact UInt64.le_refl _
    · rw [if_neg h'] at hb
      split at ha
      · cases ha
        exact le_scanBins (by omega) (by omega) (Nat.le_succ i) hb
      · exact scanBins_mono htt (by omega) ha hb

/-- On a histogram reached by any run from `new`, the scan of `quantile` answers every target,
and its answer grows with the target; a target past `count` gets `LAT_BOUNDS[15]`, `u64::MAX`.
So `p50 ≤ p90 ≤ p99` whenever their `f64` targets come out in that order. -/
theorem quantileAt_mono {xs : List UInt64} {h : LatencyHistogram}
    (hrun : new.observeAll xs = some h) :
    (∀ t t' : UInt64, t ≤ t' →
      ∃ a b, h.quantileAt t = some a ∧ h.quantileAt t' = some b ∧ a ≤ b) ∧
    ∀ t : UInt64, h.count < t → h.quantileAt t = some 18446744073709551615 := by
  have hsum : (0 : UInt64).toNat + (h.bins.map UInt64.toNat).sum < UInt64.size := by
    simpa [(tracks_of_run hrun).sum_bins] using h.count.toNat_lt_size
  have hl : 0 + h.bins.length = 16 := by rw [h.bins_length]
  have hsome : ∀ t, (h.quantileAt t).isSome := fun t => by
    unfold quantileAt
    split
    · rfl
    · exact scanBins_isSome hsum
  refine ⟨fun t t' htt => ?_, fun t ht => ?_⟩
  · obtain ⟨a, ha⟩ := Option.isSome_iff_exists.1 (hsome t)
    obtain ⟨b, hb⟩ := Option.isSome_iff_exists.1 (hsome t')
    refine ⟨a, b, ha, hb, ?_⟩
    unfold quantileAt at ha hb
    by_cases h0 : t = 0
    · rw [if_pos h0] at ha
      cases ha
      exact Nat.zero_le _
    · have h0' : t' ≠ 0 := by
        rintro rfl
        exact h0 (UInt64.toNat.inj (Nat.le_zero.1 htt))
      rw [if_neg h0] at ha
      rw [if_neg h0'] at hb
      exact scanBins_mono htt hl ha hb
  · have hct : h.count.toNat < t.toNat := ht
    rw [quantileAt, if_neg (by rintro rfl; exact Nat.not_lt_zero _ hct)]
    exact scanBins_of_lt (by simpa [(tracks_of_run hrun).sum_bins] using hct)

/-- `quantileAt_mono` on the histogram of `test_hist`. -/
theorem quantileAt_mono_on_test_hist :
    let h : LatencyHistogram := ⟨[1, 1, 1, 0, 0, 0, 1, 0, 0, 0, 1, 1, 0, 0, 1, 0], 7, 1007, rfl⟩
    new.observeAll [3, 7, 12, 55, 180, 240, 510] = some h ∧
    (∀ t t' : UInt64, t ≤ t' →
      ∃ a b, h.quantileAt t = some a ∧ h.quantileAt t' = some b ∧ a ≤ b) ∧
    ∀ t : UInt64, h.count < t → h.quantileAt t = some 18446744073709551615 :=
  ⟨rfl, @quantileAt_mono [3, 7, 12, 55, 180, 240, 510] _ rfl⟩

/-! ## The buckets by their bounds -/

/-- `ms` lands in bucket `i` exactly when `LAT_BOUNDS[i-1] < ms ≤ LAT_BOUNDS[i]`, with no lower
bound for bucket `0`. -/
theorem bucketIdx_eq_iff (ms : UInt64) {i : Nat} (hi : i < 16) :
    bucketIdx ms = i ↔ (i = 0 ∨ latBounds.getD (i - 1) 0 < ms) ∧ ms ≤ latBounds.getD i 0 := by
  rw [← bucketIdx_le_iff ms hi]
  rcases Nat.eq_zero_or_pos i with rfl | hpos
  · simp
  · rw [← UInt64.not_le, ← bucketIdx_le_iff ms (show i - 1 < 16 by omega)]
    omega

/-- After any run from `new`, bin `i` counts the observations `ms` with
`LAT_BOUNDS[i-1] < ms ≤ LAT_BOUNDS[i]` (bin `0` those up to `LAT_BOUNDS[0]`), `count` is the number
of observations, and `sum_ms` is their exact sum. -/
theorem observeAll_buckets {xs : List UInt64} {h : LatencyHistogram}
    (hrun : new.observeAll xs = some h) :
    (∀ i < 16, (h.bins.getD i 0).toNat =
      xs.countP fun ms => (i = 0 ∨ latBounds.getD (i - 1) 0 < ms) ∧ ms ≤ latBounds.getD i 0) ∧
    h.count.toNat = xs.length ∧ h.sumMs.toNat = (xs.map UInt64.toNat).sum := by
  have ht := tracks_of_run hrun
  refine ⟨fun i hi => ?_, ht.count, ht.sumMs⟩
  rw [ht.bin i]
  exact List.countP_congr fun ms _ => by simpa using bucketIdx_eq_iff ms hi

/-- `observeAll_buckets` on the run of `test_hist`. -/
theorem observeAll_buckets_on_test_hist :
    let h : LatencyHistogram := ⟨[1, 1, 1, 0, 0, 0, 1, 0, 0, 0, 1, 1, 0, 0, 1, 0], 7, 1007, rfl⟩
    new.observeAll [3, 7, 12, 55, 180, 240, 510] = some h ∧
    (∀ i < 16, (h.bins.getD i 0).toNat = [3, 7, 12, 55, 180, 240, 510].countP
      fun ms : UInt64 => (i = 0 ∨ latBounds.getD (i - 1) 0 < ms) ∧ ms ≤ latBounds.getD i 0) ∧
    h.count.toNat = 7 ∧ h.sumMs.toNat = ([3, 7, 12, 55, 180, 240, 510].map UInt64.toNat).sum :=
  ⟨rfl, @observeAll_buckets [3, 7, 12, 55, 180, 240, 510] _ rfl⟩

end LatencyHistogram

end Olwsx.Observability
