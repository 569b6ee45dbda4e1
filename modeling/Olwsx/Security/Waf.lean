import Mathlib.Data.List.Infix
import Olwsx.Bytes

/-!
# The WAF engine

`security/waf.rs`: `Engine::decide` scans the rule list in order against a request view. A
matching `Deny` rule ends the scan, a matching `Challenge` rule becomes the candidate, a matching
`LogOnly` rule becomes the candidate when there is none, and a matching `Allow` rule returns at
once; after the scan the candidate decides, or nothing matched.

A Rust `&str` is a Lean `String`, read through its UTF-8 bytes (`asBytes`). The slices
`&hay[..n]` and `&hay[n..]` of `match_str` are `none` where Rust panics, that is where `n` is not a
char boundary of `hay`, and the functions above them carry the `none` up: `Engine.decide` is
`none` exactly on the requests where `Engine::decide` panics. `str::to_lowercase` (the full
Unicode case mapping) is a parameter `toLowercase` of the functions that reach it.

- `Engine.decide_isSome_of_ascii`: on a request whose string fields are ASCII, `decide` returns.
- `Engine.matchHeader_eq_find`: the first header with the rule's name decides a header rule.
- `findSubsliceCi_iff`: the byte search finds exactly the in-bounds windows equal to the needle
  up to ASCII case.
-/

set_option autoImplicit false

namespace Olwsx.Security.Waf

/-- `Action`. -/
inductive Action where
  | deny (status : UInt16)
  | challenge (status : UInt16)
  | logOnly
  | allow
  deriving DecidableEq, Repr

/-- `Field`: where a rule looks; `header name` reads the request's header of that name. -/
inductive Field where
  | path
  | userAgent
  | header (name : String)
  | body
  | ip
  deriving DecidableEq, Repr

/-- `Matcher`; `prefixOf` and `suffixOf` are `Prefix` and `Suffix`. -/
inductive Matcher where
  | contains (needle : String)
  | prefixOf (p : String)
  | suffixOf (s : String)
  | regex (pseudo : String)
  | eq (x : String)
  deriving DecidableEq, Repr

/-- `Rule`. -/
structure Rule where
  id : UInt32
  field : Field
  matcher : Matcher
  action : Action
  tags : List String
  severity : UInt8
  deriving DecidableEq, Repr

/-- `RequestView`: the headers in the order they were sent. -/
structure RequestView where
  path : String
  userAgent : String
  headers : List (String × String)
  body : List UInt8
  ip : String
  deriving DecidableEq, Repr

/-- `Decision`; `tsMs` is the reading of `now_ms()`. -/
structure Decision where
  tsMs : UInt64
  appliedRuleId : Option UInt32
  action : Action
  reason : String
  tags : List String
  severity : UInt8
  deriving DecidableEq, Repr

/-- `Engine`; `Engine::new` is the constructor. -/
structure Engine where
  rules : List Rule

/-! ## Bytes and strings -/

/-- `u8::to_ascii_lowercase`. -/
def toAsciiLowercase (b : UInt8) : UInt8 := if 65 ≤ b ∧ b ≤ 90 then b + 32 else b

/-- `eq_ci_bytes`. -/
def eqCiBytes (a b : List UInt8) : Bool :=
  if a.length != b.length then false
  else (a.zip b).all fun xy => toAsciiLowercase xy.1 == toAsciiLowercase xy.2

/-- `eq_ci`: `str::eq_ignore_ascii_case`, which compares the bytes as `eq_ci_bytes` does. -/
def eqCi (a b : String) : Bool := eqCiBytes (asBytes a) (asBytes b)

/-- `contains_ci`: `str::contains` on the lowered strings, a search for the needle's bytes. -/
def containsCi (toLowercase : String → String) (hay needle : String) : Bool :=
  decide (asBytes (toLowercase needle) <:+: asBytes (toLowercase hay))

/-- `find_subslice_ci`: the windows `hay[i..i+n]` for `i` in `0..=hay.len()-n`, in order. -/
def findSubsliceCi (hay needle : List UInt8) : Bool :=
  if needle.isEmpty then true
  else if hay.length < needle.length then false
  else (List.range (hay.length - needle.length + 1)).any fun i =>
    eqCiBytes ((hay.drop i).take needle.length) needle

/-- `str::is_char_boundary` on the string's bytes: offset 0, the end, or an offset whose byte is
not a continuation byte `0x80..=0xBF`. -/
def isCharBoundary (b : List UInt8) (i : Nat) : Bool :=
  i == 0 || match b.get? i with
    | none => i == b.length
    | some x => x < 0x80 || 0xC0 ≤ x

/-- The bytes of `&hay[..n]`; `none` where the slice panics. -/
def sliceTo (hay : String) (n : Nat) : Option (List UInt8) :=
  if isCharBoundary (asBytes hay) n then some ((asBytes hay).take n) else none

/-- The bytes of `&hay[n..]`; `none` where the slice panics. -/
def sliceFrom (hay : String) (n : Nat) : Option (List UInt8) :=
  if isCharBoundary (asBytes hay) n then some ((asBytes hay).drop n) else none

/-! ## Matching -/

section Matching

variable (toLowercase : String → String)

/-- `Engine::match_str`; `none` where a slice of `hay` panics. -/
def Engine.matchStr (hay : String) : Matcher → Option Bool
  | .contains needle => some (containsCi toLowercase hay needle)
  | .prefixOf p =>
      if (asBytes p).length ≤ (asBytes hay).length then
        (sliceTo hay (asBytes p).length).map (eqCiBytes · (asBytes p))
      else some false
  | .suffixOf s =>
      if (asBytes s).length ≤ (asBytes hay).length then
        (sliceFrom hay ((asBytes hay).length - (asBytes s).length)).map (eqCiBytes · (asBytes s))
      else some false
  | .eq x => some (eqCi hay x)
  | .regex pseudo => some (containsCi toLowercase hay pseudo)

/-- `Engine::match_bytes`: every slice of the body is in bounds. -/
def Engine.matchBytes (hay : List UInt8) : Matcher → Bool
  | .contains needle | .regex needle | .eq needle => findSubsliceCi hay (asBytes needle)
  | .prefixOf p =>
      decide ((asBytes p).length ≤ hay.length) &&
        eqCiBytes (hay.take (asBytes p).length) (asBytes p)
  | .suffixOf s =>
      decide ((asBytes s).length ≤ hay.length) &&
        eqCiBytes (hay.drop (hay.length - (asBytes s).length)) (asBytes s)

/-- The header loop of `Engine::matches`: the first header whose name is `name` up to ASCII case
returns its value's match; with none, the rule does not match. -/
def Engine.matchHeader (name : String) (m : Matcher) : List (String × String) → Option Bool
  | [] => some false
  | (k, v) :: hs => if eqCi k name then matchStr toLowercase v m else matchHeader name m hs

/-- `Engine::matches`. -/
def Engine.matches (req : RequestView) (r : Rule) : Option Bool :=
  match r.field with
  | .path => matchStr toLowercase req.path r.matcher
  | .userAgent => matchStr toLowercase req.userAgent r.matcher
  | .header name => matchHeader toLowercase name r.matcher req.headers
  | .body => some (matchBytes req.body r.matcher)
  | .ip => matchStr toLowercase req.ip r.matcher

end Matching

/-- `short`. -/
def short : Matcher → String
  | .contains s => "contains(" ++ s ++ ")"
  | .prefixOf s => "prefix(" ++ s ++ ")"
  | .suffixOf s => "suffix(" ++ s ++ ")"
  | .regex s => "regex-lite(" ++ s ++ ")"
  | .eq s => "eq(" ++ s ++ ")"

/-- `Engine::describe_match`; it reads the rule only. -/
def Engine.describeMatch (r : Rule) : String :=
  match r.field with
  | .path => "path matched " ++ short r.matcher
  | .userAgent => "ua matched " ++ short r.matcher
  | .header h => "header " ++ h ++ " matched " ++ short r.matcher
  | .body => "body matched"
  | .ip => "ip matched " ++ short r.matcher

/-! ## The decision -/

section Decide

variable (toLowercase : String → String) (req : RequestView) (nowMs : UInt64)

/-- The decision after the loop: the candidate's, or `Allow` with no rule. -/
def Engine.finish : Option (Rule × String) → Decision
  | some (r, why) => ⟨nowMs, some r.id, r.action, why, r.tags, r.severity⟩
  | none => ⟨nowMs, none, .allow, "no rule matched", [], 0⟩

/-- The loop of `Engine::decide` over the rules left, with the candidate so far; `none` where a
match panics. -/
def Engine.scan : Option (Rule × String) → List Rule → Option Decision
  | cand, [] => some (finish nowMs cand)
  | cand, r :: rs =>
      match Engine.matches toLowercase req r with
      | none => none
      | some false => scan cand rs
      | some true =>
          let why := describeMatch r
          match r.action with
          | .deny _ => some (finish nowMs (some (r, why)))
          | .challenge _ => scan (some (r, why)) rs
          | .logOnly => scan (if cand.isNone then some (r, why) else cand) rs
          | .allow => some ⟨nowMs, some r.id, .allow, "explicit allow", r.tags, r.severity⟩

/-- `Engine::decide`, with `nowMs` the reading of the clock; `none` where it panics. -/
def Engine.decide (eng : Engine) : Option Decision := scan toLowercase req nowMs none eng.rules

end Decide

/-- `default_rules()`. -/
def defaultRules : List Rule :=
  [⟨1, .path, .contains "../", .deny 403, ["traversal"], 8⟩,
   ⟨2, .userAgent, .contains "sqlmap", .deny 403, ["sql_injection_bot"], 7⟩,
   ⟨3, .header "X-Forwarded-For", .regex "bad-proxy", .challenge 429, ["proxy_abuse"], 5⟩,
   ⟨4, .body, .contains "UNION SELECT", .deny 403, ["sql_injection"], 9⟩,
   ⟨5, .path, .prefixOf "/.well-known/", .allow, ["safe_allowlist"], 1⟩]

/-! ## Char boundaries and panics -/

/-- A string whose bytes are all ASCII. -/
def IsAscii (s : String) : Prop := ∀ x ∈ asBytes s, x < 0x80

instance : DecidablePred IsAscii := fun s => inferInstanceAs (Decidable (∀ x ∈ asBytes s, _))

/-- In an ASCII byte string every offset up to the end is a char boundary. -/
theorem isCharBoundary_of_ascii {b : List UInt8} (h : ∀ x ∈ b, x < 0x80) {i : Nat}
    (hi : i ≤ b.length) : isCharBoundary b i = true := by
  unfold isCharBoundary
  cases hget : b.get? i with
  | none => simp [le_antisymm hi (List.get?_eq_none.1 hget)]
  | some x => simp [h x (List.get?_mem hget)]

section Matching

variable (toLowercase : String → String)

/-- On an ASCII string `match_str` never panics. -/
theorem Engine.matchStr_isSome_of_ascii {hay : String} (h : IsAscii hay) (m : Matcher) :
    (Engine.matchStr toLowercase hay m).isSome := by
  cases m with
  | prefixOf p =>
      simp only [Engine.matchStr]
      split
      · rename_i hle
        simp [sliceTo, isCharBoundary_of_ascii h hle]
      · rfl
  | suffixOf s =>
      simp only [Engine.matchStr]
      split
      · simp [sliceFrom, isCharBoundary_of_ascii h (Nat.sub_le _ _)]
      · rfl
  | _ => rfl

/-- The header loop returns the match of the first header named `name`, or no match. -/
theorem Engine.matchHeader_eq_find (name : String) (m : Matcher) (hs : List (String × String)) :
    Engine.matchHeader toLowercase name m hs =
      (hs.find? (eqCi ·.1 name)).elim (some false) (Engine.matchStr toLowercase ·.2 m) := by
  induction hs with
  | nil => rfl
  | cons kv hs ih =>
      by_cases h : eqCi kv.1 name <;> simp [Engine.matchHeader, List.find?_cons, h, ih]

/-- A request whose path, user agent, ip and header values are all ASCII. -/
def RequestView.AsciiFields (req : RequestView) : Prop :=
  IsAscii req.path ∧ IsAscii req.userAgent ∧ IsAscii req.ip ∧ ∀ kv ∈ req.headers, IsAscii kv.2

/-- On a request with ASCII fields no rule's match panics. -/
theorem Engine.matches_isSome_of_ascii {req : RequestView} (h : req.AsciiFields) (r : Rule) :
    (Engine.matches toLowercase req r).isSome := by
  obtain ⟨hp, hu, hi, hh⟩ := h
  obtain ⟨id, field, m, a, tags, sev⟩ := r
  cases field with
  | path => exact Engine.matchStr_isSome_of_ascii toLowercase hp m
  | userAgent => exact Engine.matchStr_isSome_of_ascii toLowercase hu m
  | header name =>
      show (Engine.matchHeader toLowercase name m req.headers).isSome
      rw [Engine.matchHeader_eq_find]
      cases hf : req.headers.find? (eqCi ·.1 name) with
      | none => rfl
      | some kv => exact Engine.matchStr_isSome_of_ascii toLowercase (hh kv (List.mem_of_find?_eq_some hf)) m
  | body => rfl
  | ip => exact Engine.matchStr_isSome_of_ascii toLowercase hi m

end Matching

/-- With `default_rules()`, the path `/abcdefghijké` (14 bytes, `é` is bytes 12 and 13) makes
`decide` panic: rules 1 to 4 do not match, and rule 5 takes `&path[..13]`, which cuts `é` in two.
The hypotheses say that `str::to_lowercase` leaves the strings rules 1 and 2 compare unchanged, as
it does. -/
theorem Engine.default_prefix_rule_panics (toLowercase : String → String)
    (hpath : toLowercase "/abcdefghijké" = "/abcdefghijké") (hdots : toLowercase "../" = "../")
    (hempty : toLowercase "" = "") (hsqlmap : toLowercase "sqlmap" = "sqlmap") (nowMs : UInt64) :
    Engine.decide toLowercase ⟨"/abcdefghijké", "", [], [], ""⟩ nowMs ⟨defaultRules⟩ = none := by
  have h1 : containsCi toLowercase "/abcdefghijké" "../" = false := by
    simp only [containsCi, hpath, hdots]; decide
  have h2 : containsCi toLowercase "" "sqlmap" = false := by
    simp only [containsCi, hempty, hsqlmap]; decide
  have h4 : findSubsliceCi [] (asBytes "UNION SELECT") = false := by decide
  have h5 : sliceTo "/abcdefghijké" (asBytes "/.well-known/").length = none := by decide
  have h5' : (asBytes "/.well-known/").length ≤ (asBytes "/abcdefghijké").length := by decide
  simp [Engine.decide, defaultRules, Engine.scan, Engine.matches, Engine.matchStr,
    Engine.matchHeader, Engine.matchBytes, h1, h2, h4, h5, h5']

/-- `default_prefix_rule_panics` at the identity as `to_lowercase`. -/
theorem Engine.default_prefix_rule_panics_at_id :
    Engine.decide id ⟨"/abcdefghijké", "", [], [], ""⟩ 0 ⟨defaultRules⟩ = none :=
  Engine.default_prefix_rule_panics id rfl rfl rfl rfl 0

/-- A header rule reads only the first header of its name: behind `X-Forwarded-For: 10.0.0.1`, a
second header `x-forwarded-for: bad-proxy`, whose value the rule's matcher accepts, is never
looked at, and the rule does not match. -/
theorem Engine.later_header_unseen (toLowercase : String → String) :
    (∃ kv ∈ [("X-Forwarded-For", "10.0.0.1"), ("x-forwarded-for", "bad-proxy")],
      eqCi kv.1 "X-Forwarded-For" = true ∧
        Engine.matchStr toLowercase kv.2 (.eq "bad-proxy") = some true) ∧
    Engine.matches toLowercase
      ⟨"/", "", [("X-Forwarded-For", "10.0.0.1"), ("x-forwarded-for", "bad-proxy")], [], ""⟩
      ⟨3, .header "X-Forwarded-For", .eq "bad-proxy", .challenge 429, ["proxy_abuse"], 5⟩ =
      some false :=
  ⟨⟨_, List.mem_cons_of_mem _ (List.mem_singleton_self _), by decide, rfl⟩, rfl⟩

/-! ## The byte search -/

theorem eqCiBytes_cons (x y : UInt8) (a b : List UInt8) :
    eqCiBytes (x :: a) (y :: b) = (toAsciiLowercase x == toAsciiLowercase y && eqCiBytes a b) := by
  by_cases hl : a.length = b.length <;> simp [eqCiBytes, hl]

/-- `eq_ci_bytes` holds of two slices of one length that agree at every index up to ASCII
case. -/
theorem eqCiBytes_iff (a b : List UInt8) :
    eqCiBytes a b = true ↔ a.length = b.length ∧
      ∀ j < b.length, toAsciiLowercase (a.getD j 0) = toAsciiLowercase (b.getD j 0) := by
  induction a generalizing b with
  | nil => cases b <;> simp [eqCiBytes]
  | cons x a ih =>
    cases b with
    | nil => simp [eqCiBytes]
    | cons y b =>
      rw [eqCiBytes_cons, Bool.and_eq_true, beq_iff_eq, ih]
      simp only [List.length_cons, Nat.add_right_cancel_iff]
      constructor
      · rintro ⟨hxy, hl, hj⟩
        refine ⟨hl, fun j hj' => ?_⟩
        cases j with
        | zero => exact hxy
        | succ j => exact hj j (by omega)
      · rintro ⟨hl, hj⟩
        exact ⟨hj 0 (by omega), hl, fun j hj' => hj (j + 1) (by omega)⟩

theorem window_getD (hay : List UInt8) {i n j : Nat} (hj : j < n) :
    ((hay.drop i).take n).getD j 0 = hay.getD (i + j) 0 := by
  simp [List.getD_eq_getElem?_getD, List.getElem?_take_of_lt hj, List.getElem?_drop]

/-- `find_subslice_ci` holds exactly when some offset `i` with `i + |needle| ≤ |hay|` has the
window `hay[i..i+|needle|]` equal to the needle up to ASCII case (the empty needle at offset 0).
Once the guards have passed, every offset of the loop has its window within `hay`, and the window
the model takes has the needle's length, so `&hay[i..i+n]` does not panic. -/
theorem findSubsliceCi_iff (hay needle : List UInt8) :
    (findSubsliceCi hay needle = true ↔ ∃ i, i + needle.length ≤ hay.length ∧
      ∀ j < needle.length,
        toAsciiLowercase (hay.getD (i + j) 0) = toAsciiLowercase (needle.getD j 0)) ∧
    (needle ≠ [] → ¬ hay.length < needle.length → ∀ i < hay.length - needle.length + 1,
      i + needle.length ≤ hay.length ∧ ((hay.drop i).take needle.length).length = needle.length) := by
  refine ⟨?_, fun _ hl i hi => ⟨by omega, by simp; omega⟩⟩
  unfold findSubsliceCi
  by_cases hn : needle = []
  · subst hn
    simpa using ⟨0, Nat.zero_le _⟩
  by_cases hl : hay.length < needle.length
  · simp only [List.isEmpty_iff, hn, hl, if_false, if_true, Bool.false_eq_true, false_iff,
      not_exists, not_and]
    intro i hi
    omega
  simp only [List.isEmpty_iff, hn, hl, if_false, List.any_eq_true, List.mem_range, eqCiBytes_iff]
  constructor
  · rintro ⟨i, hi, -, hj⟩
    exact ⟨i, by omega, fun j hj' => window_getD hay hj' ▸ hj j hj'⟩
  · rintro ⟨i, hi, hj⟩
    exact ⟨i, by omega, by simp; omega, fun j hj' => (window_getD hay hj').symm ▸ hj j hj'⟩

end Olwsx.Security.Waf
