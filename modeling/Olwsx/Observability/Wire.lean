import Mathlib.Data.List.Basic
import Mathlib.Tactic.Ring
import Olwsx.Bytes

/-!
# The metrics wire format

`observability/metrics.rs`: `encode_wire` lays a `MetricEnvelope` out as the comment above it
says,

  `[ts_ms u64][name_len u16][name bytes][labels_count u16]`
  `[each: k_len u16 k_bytes v_len u16 v_bytes][kind_tag u8][payload...]`,

every integer big-endian. `decodeWire` reads that layout back; it is this development's statement
of the format, not code of the repository. The clock reading `now_ms()` of the helpers is an
argument `tsMs`, and an `i64` is its two's-complement bit pattern, a `BitVec 64`.

- `encodeWire_eq`: the frame is the concatenation of its fields, each length prefix being the
  length taken modulo 2^16, as the `as u16` casts take it.
- `decodeWire_encodeWire`: within the `u16` limits (a name, label key or label value of fewer
  than 2^16 bytes, and fewer than 2^16 labels) reading the frame back gives the envelope's
  timestamp, name bytes, labels in order and kind, and consumes the whole frame.
- `encodeWire_collision`: past them the frame is ambiguous. An envelope with 65536 empty labels
  and one named by 262144 NUL characters encode to the same frame, and it decodes to neither.
-/

set_option autoImplicit false

namespace Olwsx.Observability

/-- `MetricKind`; the sixteen bins of a latency histogram are a field's invariant. -/
inductive MetricKind where
  | counter (delta : UInt64)
  | gauge (value : BitVec 64)
  | summary (count sum : UInt64)
  | latencyHist (bins : { l : List UInt64 // l.length = 16 })
  deriving DecidableEq

/-- `MetricEnvelope`. -/
structure MetricEnvelope where
  tsMs : UInt64
  name : String
  labels : List (String × String)
  kind : MetricKind
  deriving DecidableEq

/-- `counter`, read at the clock reading `tsMs`. -/
def counter (name : String) (delta : UInt64) (labels : List (String × String)) (tsMs : UInt64) :
    MetricEnvelope :=
  ⟨tsMs, name, labels, .counter delta⟩

/-- `gauge`, read at the clock reading `tsMs`. -/
def gauge (name : String) (value : BitVec 64) (labels : List (String × String)) (tsMs : UInt64) :
    MetricEnvelope :=
  ⟨tsMs, name, labels, .gauge value⟩

/-- `summary`, read at the clock reading `tsMs`. -/
def summary (name : String) (count sum : UInt64) (labels : List (String × String))
    (tsMs : UInt64) : MetricEnvelope :=
  ⟨tsMs, name, labels, .summary count sum⟩

/-! ## The encoder -/

/-- `to_be_bytes` of a `width`-byte value: its base-256 digits, the most significant first. -/
def beBytes : Nat → Nat → List UInt8
  | 0, _ => []
  | w + 1, v => UInt8.ofNat (v / 256 ^ w) :: beBytes w v

/-- `put_u16`. -/
def putU16 (buf : List UInt8) (v : UInt16) : List UInt8 := buf ++ beBytes 2 v.toNat

/-- `put_u64`. -/
def putU64 (buf : List UInt8) (v : UInt64) : List UInt8 := buf ++ beBytes 8 v.toNat

/-- `put_i64`. -/
def putI64 (buf : List UInt8) (v : BitVec 64) : List UInt8 := buf ++ beBytes 8 v.toNat

/-- `put_str`: the byte length cast to `u16`, then the bytes. -/
def putStr (buf : List UInt8) (s : String) : List UInt8 :=
  let bytes := asBytes s
  putU16 buf bytes.length.toUInt16 ++ bytes

/-- `encode_wire`. -/
def encodeWire (m : MetricEnvelope) : List UInt8 :=
  let buf := putU64 [] m.tsMs
  let buf := putStr buf m.name
  let buf := putU16 buf m.labels.length.toUInt16
  let buf := m.labels.foldl (fun buf kv => putStr (putStr buf kv.1) kv.2) buf
  match m.kind with
  | .counter delta => putU64 (buf ++ [1]) delta
  | .gauge value => putI64 (buf ++ [2]) value
  | .summary count sum => putU64 (putU64 (buf ++ [3]) count) sum
  | .latencyHist bins => bins.1.foldl putU64 (buf ++ [4])

/-! ## The layout, field by field -/

/-- The bytes `put_str` appends for the bytes `bs`: their length modulo 2^16, then the bytes. -/
def strField (bs : List UInt8) : List UInt8 := beBytes 2 (bs.length % 2 ^ 16) ++ bs

/-- The bytes of one label. -/
def labelField (kv : String × String) : List UInt8 :=
  strField (asBytes kv.1) ++ strField (asBytes kv.2)

/-- The bytes the `match` of `encode_wire` appends for a kind: its tag, then its payload. -/
def kindField : MetricKind → List UInt8
  | .counter delta => 1 :: beBytes 8 delta.toNat
  | .gauge value => 2 :: beBytes 8 value.toNat
  | .summary count sum => 3 :: (beBytes 8 count.toNat ++ beBytes 8 sum.toNat)
  | .latencyHist bins => 4 :: bins.1.flatMap fun b => beBytes 8 b.toNat

@[simp] theorem length_beBytes (w v : Nat) : (beBytes w v).length = w := by
  induction w with
  | zero => rfl
  | succ w ih => simp [beBytes, ih]

theorem putStr_eq (buf : List UInt8) (s : String) : putStr buf s = buf ++ strField (asBytes s) := by
  simp [putStr, putU16, strField]
  rfl

theorem foldl_labels (labels : List (String × String)) (buf : List UInt8) :
    labels.foldl (fun buf kv => putStr (putStr buf kv.1) kv.2) buf =
      buf ++ labels.flatMap labelField := by
  induction labels generalizing buf with
  | nil => simp
  | cons kv labels ih => rw [List.foldl_cons, ih, putStr_eq, putStr_eq]; simp [labelField]

theorem foldl_putU64 (bins : List UInt64) (buf : List UInt8) :
    bins.foldl putU64 buf = buf ++ bins.flatMap fun b => beBytes 8 b.toNat := by
  induction bins generalizing buf with
  | nil => simp
  | cons b bins ih => simp [ih, putU64]

/-- The frame is the concatenation of its fields; each length prefix is the length modulo 2^16,
as the `as u16` casts take it. -/
theorem encodeWire_eq (m : MetricEnvelope) :
    encodeWire m = beBytes 8 m.tsMs.toNat ++ strField (asBytes m.name) ++
      beBytes 2 (m.labels.length % 2 ^ 16) ++ m.labels.flatMap labelField ++ kindField m.kind := by
  obtain ⟨ts, name, labels, kind⟩ := m
  have hlen : labels.length.toUInt16.toNat = labels.length % 2 ^ 16 := rfl
  cases kind <;> simp only [encodeWire, foldl_labels, foldl_putU64] <;>
    simp [putStr_eq, putU64, putI64, putU16, hlen, kindField]

/-- The length of a frame. -/
theorem length_encodeWire (m : MetricEnvelope) :
    (encodeWire m).length = 8 + (2 + (asBytes m.name).length) + 2 +
      (m.labels.map fun kv => 4 + (asBytes kv.1).length + (asBytes kv.2).length).sum +
      (kindField m.kind).length := by
  have hl : ∀ kv, (labelField kv).length = 4 + (asBytes kv.1).length + (asBytes kv.2).length :=
    fun kv => by simp only [labelField, strField, List.length_append, length_beBytes]; omega
  simp [encodeWire_eq, strField, List.flatMap, Function.comp_def, hl]
  omega

/-- The frame of `test_counter_encode` has 52 bytes, so its `wire[56]` is out of bounds. -/
example : (encodeWire (counter "requests_total" 1 [("tenant", "default")] 0)).length = 52 := by
  decide

/-! ## Reading the layout back -/

/-- The value of big-endian bytes. -/
def beValue (bs : List UInt8) : Nat := bs.foldl (fun acc b => 256 * acc + b.toNat) 0

/-- Reads a `width`-byte big-endian value off the front of the buffer. -/
def readBE (width : Nat) (buf : List UInt8) : Option (Nat × List UInt8) :=
  if width ≤ buf.length then some (beValue (buf.take width), buf.drop width) else none

/-- Reads a `u16` length and that many bytes. -/
def readBytes (buf : List UInt8) : Option (List UInt8 × List UInt8) := do
  let (n, buf) ← readBE 2 buf
  if n ≤ buf.length then some (buf.take n, buf.drop n) else none

/-- Reads `n` labels, each a key and a value. -/
def readLabels : Nat → List UInt8 → Option (List (List UInt8 × List UInt8) × List UInt8)
  | 0, buf => some ([], buf)
  | n + 1, buf => do
      let (k, buf) ← readBytes buf
      let (v, buf) ← readBytes buf
      let (rest, buf) ← readLabels n buf
      some ((k, v) :: rest, buf)

/-- Reads `n` big-endian `u64`s. -/
def readU64s : Nat → List UInt8 → Option (List UInt64 × List UInt8)
  | 0, buf => some ([], buf)
  | n + 1, buf => do
      let (v, buf) ← readBE 8 buf
      let (rest, buf) ← readU64s n buf
      some (v.toUInt64 :: rest, buf)

/-- Reads a kind tag, `1` to `4`, and the kind's payload. -/
def readKind : List UInt8 → Option (MetricKind × List UInt8)
  | 1 :: buf => (readBE 8 buf).map fun (v, buf) => (.counter v.toUInt64, buf)
  | 2 :: buf => (readBE 8 buf).map fun (v, buf) => (.gauge (BitVec.ofNat 64 v), buf)
  | 3 :: buf => do
      let (count, buf) ← readBE 8 buf
      let (sum, buf) ← readBE 8 buf
      some (.summary count.toUInt64 sum.toUInt64, buf)
  | 4 :: buf => do
      let (bins, buf) ← readU64s 16 buf
      if h : bins.length = 16 then some (.latencyHist ⟨bins, h⟩, buf) else none
  | _ => none

/-- A frame read back: the timestamp, the name's bytes, each label's key and value bytes in
order, and the kind. -/
structure Frame where
  tsMs : UInt64
  name : List UInt8
  labels : List (List UInt8 × List UInt8)
  kind : MetricKind
  deriving DecidableEq

/-- Reads a whole frame; bytes left after the payload are an error. -/
def decodeWire (buf : List UInt8) : Option Frame := do
  let (ts, buf) ← readBE 8 buf
  let (name, buf) ← readBytes buf
  let (n, buf) ← readBE 2 buf
  let (labels, buf) ← readLabels n buf
  let (kind, buf) ← readKind buf
  if buf = [] then some ⟨ts.toUInt64, name, labels, kind⟩ else none

/-- The frame an envelope is to be read back as. -/
def MetricEnvelope.frame (m : MetricEnvelope) : Frame :=
  ⟨m.tsMs, asBytes m.name, m.labels.map fun kv => (asBytes kv.1, asBytes kv.2), m.kind⟩

/-- The envelope fits the `u16` fields of the format. -/
def MetricEnvelope.Fits (m : MetricEnvelope) : Prop :=
  (asBytes m.name).length < 2 ^ 16 ∧ m.labels.length < 2 ^ 16 ∧
    ∀ kv ∈ m.labels, (asBytes kv.1).length < 2 ^ 16 ∧ (asBytes kv.2).length < 2 ^ 16

instance (m : MetricEnvelope) : Decidable m.Fits :=
  inferInstanceAs (Decidable (_ ∧ _ ∧ ∀ kv ∈ m.labels, _))

theorem foldl_beBytes (w v acc : Nat) :
    (beBytes w v).foldl (fun acc b => 256 * acc + b.toNat) acc = acc * 256 ^ w + v % 256 ^ w := by
  induction w generalizing acc with
  | zero => simp [beBytes, Nat.mod_one]
  | succ w ih =>
    have hd : (UInt8.ofNat (v / 256 ^ w)).toNat = v / 256 ^ w % 256 := rfl
    rw [beBytes, List.foldl_cons, ih, hd, Nat.mod_pow_succ, Nat.pow_succ]
    ring

theorem readBE_beBytes {w v : Nat} (h : v < 256 ^ w) (rest : List UInt8) :
    readBE w (beBytes w v ++ rest) = some (v, rest) := by
  simp [readBE, beValue, List.take_left', List.drop_left', foldl_beBytes, Nat.mod_eq_of_lt h]

/-- A `u16` read back. -/
theorem readBE_u16 {v : Nat} (h : v < 2 ^ 16) (rest : List UInt8) :
    readBE 2 (beBytes 2 v ++ rest) = some (v, rest) :=
  readBE_beBytes (lt_of_lt_of_eq h rfl) rest

theorem readBytes_strField {bs : List UInt8} (h : bs.length < 2 ^ 16) (rest : List UInt8) :
    readBytes (strField bs ++ rest) = some (bs, rest) := by
  rw [strField, Nat.mod_eq_of_lt h, List.append_assoc]
  simp [readBytes, readBE_u16 h]

/-- A `u64` read back. -/
@[simp] theorem readBE_u64 (v : UInt64) (rest : List UInt8) :
    readBE 8 (beBytes 8 v.toNat ++ rest) = some (v.toNat, rest) :=
  readBE_beBytes v.toNat_lt_size rest

@[simp] theorem toUInt64_toNat (v : UInt64) : v.toNat.toUInt64 = v :=
  UInt64.toNat.inj (Nat.mod_eq_of_lt v.toNat_lt_size)

theorem readLabels_flatMap (rest : List UInt8) :
    ∀ labels : List (String × String),
      (∀ kv ∈ labels, (asBytes kv.1).length < 2 ^ 16 ∧ (asBytes kv.2).length < 2 ^ 16) →
      readLabels labels.length (labels.flatMap labelField ++ rest) =
        some (labels.map fun kv => (asBytes kv.1, asBytes kv.2), rest)
  | [], _ => rfl
  | kv :: labels, h => by
    have ⟨hk, hv⟩ := h kv (List.mem_cons_self _ _)
    simp [readLabels, labelField, readBytes_strField hk, readBytes_strField hv,
      readLabels_flatMap rest labels fun kv' hkv' => h kv' (List.mem_cons_of_mem _ hkv')]

theorem readU64s_flatMap (rest : List UInt8) : ∀ bins : List UInt64,
    readU64s bins.length ((bins.flatMap fun b => beBytes 8 b.toNat) ++ rest) = some (bins, rest)
  | [] => rfl
  | b :: bins => by simp [readU64s, readU64s_flatMap rest bins]

theorem readKind_kindField (k : MetricKind) (rest : List UInt8) :
    readKind (kindField k ++ rest) = some (k, rest) := by
  cases k with
  | counter delta => simp [readKind, kindField]
  | gauge value =>
    simp [readKind, kindField, readBE_beBytes (w := 8) (lt_of_lt_of_eq value.isLt rfl),
      BitVec.eq_of_toNat_eq]
  | summary count sum => simp [readKind, kindField]
  | latencyHist bins =>
    obtain ⟨bins, hb⟩ := bins
    have := readU64s_flatMap rest bins
    rw [hb] at this
    simp [readKind, kindField, this, hb]

/-- Within the `u16` limits, reading a frame back gives the envelope's timestamp, name bytes,
labels in order and kind, and consumes the whole frame. -/
theorem decodeWire_encodeWire (m : MetricEnvelope) (h : m.Fits) :
    decodeWire (encodeWire m) = some m.frame := by
  obtain ⟨hname, hlen, hlabels⟩ := h
  have hk : readKind (kindField m.kind) = some (m.kind, []) := by
    simpa using readKind_kindField m.kind []
  rw [encodeWire_eq]
  simp only [List.append_assoc, decodeWire, readBE_u64, readBytes_strField hname,
    Nat.mod_eq_of_lt hlen, readBE_u16 hlen, readLabels_flatMap _ _ hlabels, hk,
    Option.bind_eq_bind, Option.some_bind]
  simp [MetricEnvelope.frame]

/-- `decodeWire_encodeWire` on the counter of `test_counter_encode`. -/
theorem decodeWire_test_counter :
    (counter "requests_total" 1 [("tenant", "default")] 0).Fits ∧
    decodeWire (encodeWire (counter "requests_total" 1 [("tenant", "default")] 0)) =
      some (counter "requests_total" 1 [("tenant", "default")] 0).frame :=
  ⟨by decide, decodeWire_encodeWire _ (by decide)⟩

/-! ## Past the `u16` limits -/

theorem flatMap_empty_labels (n : Nat) :
    (List.replicate n ("", "")).flatMap labelField = List.replicate (4 * n) 0 := by
  induction n with
  | zero => rfl
  | succ n ih =>
    rw [List.replicate_succ, List.flatMap_cons, ih, show 4 * (n + 1) = 4 + 4 * n by omega,
      List.replicate_add]
    rfl

theorem asBytes_nuls (n : Nat) : asBytes ⟨List.replicate n '\x00'⟩ = List.replicate n 0 := by
  induction n with
  | zero => rfl
  | succ n ih => rw [asBytes_mk, List.replicate_succ, List.flatMap_cons, ← asBytes_mk, ih]; rfl

theorem replicate_append_replicate_append {α : Type} (n m : Nat) (a : α) (l : List α) :
    List.replicate n a ++ (List.replicate m a ++ l) = List.replicate (n + m) a ++ l := by
  rw [← List.append_assoc, List.append_replicate_replicate]

theorem beBytes_two_zero : beBytes 2 0 = List.replicate 2 0 := rfl

theorem readKind_zero (rest : List UInt8) : readKind (0 :: rest) = none := rfl

/-- The `as u16` casts make the frame ambiguous: an envelope with 65536 empty labels and one
named by 262144 NUL characters, with no labels, encode to the same frame. Each length prefix and
the label count of that frame are 0, so reading it back meets a zero byte where the kind tag
stands and fails. -/
theorem encodeWire_collision (tsMs : UInt64) (kind : MetricKind) :
    let many : MetricEnvelope := ⟨tsMs, "", List.replicate 65536 ("", ""), kind⟩
    let long : MetricEnvelope := ⟨tsMs, ⟨List.replicate 262144 '\x00'⟩, [], kind⟩
    many ≠ long ∧ encodeWire many = encodeWire long ∧ decodeWire (encodeWire many) = none := by
  intro many long
  have hmany : encodeWire many =
      beBytes 8 tsMs.toNat ++ (List.replicate 262148 0 ++ kindField kind) := by
    rw [encodeWire_eq]
    simp only [many, show strField (asBytes "") = List.replicate 2 0 from rfl, flatMap_empty_labels,
      List.length_replicate, Nat.reducePow, Nat.reduceMod, Nat.reduceMul, beBytes_two_zero,
      List.append_assoc, replicate_append_replicate_append, Nat.reduceAdd]
  have hlong : encodeWire long =
      beBytes 8 tsMs.toNat ++ (List.replicate 262148 0 ++ kindField kind) := by
    rw [encodeWire_eq]
    simp only [long, asBytes_nuls, strField, List.length_replicate, List.length_nil,
      List.flatMap_nil, Nat.reducePow, Nat.reduceMod, beBytes_two_zero, List.append_assoc,
      List.nil_append, replicate_append_replicate_append, Nat.reduceAdd]
  have hne : many.labels.length ≠ long.labels.length := by
    simp only [many, long, List.length_replicate, List.length_nil]
    decide
  have hname : ∀ rest, readBytes (List.replicate 2 0 ++ rest) = some ([], rest) :=
    @readBytes_strField [] (by decide)
  have hcount : ∀ rest, readBE 2 (List.replicate 2 0 ++ rest) = some (0, rest) :=
    readBE_u16 (v := 0) (by decide)
  refine ⟨fun h => hne (h ▸ rfl), hmany.trans hlong.symm, ?_⟩
  rw [hmany, show 262148 = 2 + (2 + (1 + 262143)) from rfl, List.replicate_add, List.replicate_add,
    List.replicate_add]
  simp only [decodeWire, List.append_assoc, readBE_u64, hname, hcount, Option.bind_eq_bind,
    Option.some_bind, readLabels, List.replicate_one, List.singleton_append, List.cons_append,
    readKind_zero, Option.none_bind]

end Olwsx.Observability
