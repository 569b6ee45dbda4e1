import Mathlib.Data.List.Infix

/-!
# The compression facade

`cache/compression.rs`: `compress` passes its input through and marks the chosen algorithm with
its `meta::COMP_*` flag of `cache/lib.rs`; `best_for_mime` picks gzip for text, JSON and XML types.
`str::to_ascii_lowercase` lowers the ASCII letters only, as `Char.toLower` does.
-/

set_option autoImplicit false

namespace Olwsx.Cache.Compression

/-- `meta::COMP_NONE`. -/
def compNone : UInt32 := 0x00000000

/-- `meta::COMP_GZIP`. -/
def compGzip : UInt32 := 0x00000001

/-- `meta::COMP_ZSTD`. -/
def compZstd : UInt32 := 0x00000002

/-- `meta::COMP_BROTLI`. -/
def compBrotli : UInt32 := 0x00000004

/-- `Algo`. -/
inductive Algo where
  | none
  | gzip
  | zstd
  | brotli
  deriving DecidableEq, Repr

/-- `CompResult`. -/
structure CompResult where
  data : List UInt8
  metaFlags : UInt32
  deriving DecidableEq, Repr

/-- `compress`: the input unchanged, with the algorithm's flag. -/
def compress (input : List UInt8) : Algo → CompResult
  | .none => ⟨input, compNone⟩
  | .gzip => ⟨input, compGzip⟩
  | .zstd => ⟨input, compZstd⟩
  | .brotli => ⟨input, compBrotli⟩

/-- `best_for_mime`. -/
def bestForMime (mime : String) : Algo :=
  let m := mime.data.map Char.toLower
  if "text/".data <:+: m ∨ "json".data <:+: m ∨ "xml".data <:+: m then .gzip else .none

end Olwsx.Cache.Compression
