import Olwsx.Cache.Contract

/-!
# Tier L3: the facade

`cache/l3.rs`: the whole state is the map. There is no capacity, no size cap and no bookkeeping;
a lookup removes an expired entry as the other tiers do. `L3.tier` is the reference the bounded
tiers are compared with in `Olwsx.Cache.Refinement`.
-/

set_option autoImplicit false

namespace Olwsx.Cache.L3

variable {K : Type} [DecidableEq K]

/-- `L3::new()`. -/
def new : Store K := ∅

/-- `lookup`. -/
def lookup (map : Store K) (key : K) (now : Nat) : Store K × Reply :=
  map.lookupPurge key now

/-- `insert`: stores the entry as given, and always succeeds. -/
def insert (map : Store K) (key : K) (entry : Entry) : Store K × Reply :=
  (map.insert key entry, .done)

/-- `invalidate`: `Ok` when `map.remove(key)` removed an entry. -/
def invalidate (map : Store K) (key : K) : Store K × Reply :=
  if key ∈ map then (map.erase key, .done) else (map, .fail .notFound)

/-- L3 behind the `Cache` trait; every call returns. -/
def tier : Tier (Store K) K where
  init := new
  step map
    | .lookup key now => some (lookup map key now)
    | .insert key entry => some (insert map key entry)
    | .invalidate key => some (invalidate map key)

end Olwsx.Cache.L3
