import Mathlib.Data.List.Basic

/-!
# Strings as bytes

`str::as_bytes`, which the WAF (`security/waf.rs`) and the metrics encoder
(`observability/metrics.rs`) both read strings through: the UTF-8 encodings of the string's
characters, one after another.
-/

set_option autoImplicit false

namespace Olwsx

/-- `str::as_bytes`: the UTF-8 bytes of the string. -/
def asBytes (s : String) : List UInt8 := s.toUTF8.data.toList

/-- The bytes of a string are its characters' encodings, one after another. -/
theorem asBytes_mk (cs : List Char) : asBytes ⟨cs⟩ = cs.flatMap String.utf8EncodeChar := rfl

end Olwsx
