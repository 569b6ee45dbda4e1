import Olwsx.Security.Waf

/-!
# The order of the WAF's decision

`Engine::decide` against the order its file header announces (deny, then challenge, then log,
then allow). The scan stops at the first matching rule whose action is `Deny` or `Allow`
(`Action.stops`), so a matching `Allow` rule ahead of a matching `Deny` rule decides. Without
one, every matching `Challenge` rule replaces the candidate, so the last one decides; then the
first matching `LogOnly` rule; with no matching rule, `Allow` with no rule.

- `ScanSpec`: what the loop returns from a candidate, with one step lemma per kind of action
  (`ScanSpec.of_stop`, `ScanSpec.cons_challenge`, `ScanSpec.cons_logOnly`) and the run lemma
  `Engine.scan_spec` by induction over the rules, from what the scan returns.
- `Engine.decide_scan_order`: on every request on which `decide` returns, the decision follows
  `DecisionOrder`; a rule after the one that ends the scan may panic, since it is never matched.
- `Engine.decide_isSome_of_ascii`: on a request with ASCII fields, `decide` returns.
-/

set_option autoImplicit false

namespace Olwsx.Security.Waf

/-- The actions that end the scan when their rule matches: `Deny` breaks out of the loop and
`Allow` returns from it. -/
def Action.stops : Action → Bool
  | .deny _ | .allow => true
  | .challenge _ | .logOnly => false

/-- `Challenge`. -/
def Action.isChallenge : Action → Bool
  | .challenge _ => true
  | _ => false

/-- `d` is the decision of rule `r`: its action, id, tags and severity. -/
def Decision.Of (d : Decision) (r : Rule) : Prop :=
  d.action = r.action ∧ d.appliedRuleId = some r.id ∧ d.tags = r.tags ∧ d.severity = r.severity

/-- The rules of `rules` that match `req`, in order. -/
def Engine.matching (toLowercase : String → String) (req : RequestView) (rules : List Rule) :
    List Rule :=
  rules.filter (Engine.matches toLowercase req · == some true)

/-- The order a decision follows on the matching rules `ms`: the first of them whose action is
`Deny` or `Allow` decides; without one, one of the matching `Challenge` rules; without one, the
first matching `LogOnly` rule; with no matching rule, `Allow` with no rule. -/
structure DecisionOrder (ms : List Rule) (d : Decision) : Prop where
  stop : ∀ r, ms.find? (·.action.stops) = some r → d.Of r
  challenge : ms.find? (·.action.stops) = none → (∃ c ∈ ms, c.action.isChallenge) →
    ∃ c ∈ ms, c.action.isChallenge ∧ d.Of c
  logOnly : ms.find? (·.action.stops) = none → (∀ c ∈ ms, c.action.isChallenge = false) →
    ∀ r, ms.find? (·.action == .logOnly) = some r → d.Of r
  noMatch : ms = [] → d.action = .allow ∧ d.appliedRuleId = none

/-! ## The loop -/

/-- The decision of the scan, once no rule of `ms` stops it and none is a challenge: the
candidate's, or else the first matching `LogOnly` rule's, or else `Allow` with no rule. -/
def CandSpec : Option (Rule × String) → List Rule → Decision → Prop
  | some (c, _), _, d => d.Of c
  | none, ms, d =>
      (∀ r, ms.find? (·.action == .logOnly) = some r → d.Of r) ∧
        (ms = [] → d.action = .allow ∧ d.appliedRuleId = none)

/-- What the scan returns on the matching rules `ms` from candidate `cand`: the first rule of `ms`
that stops it decides; without one, the last matching challenge; without one, `CandSpec`. -/
structure ScanSpec (cand : Option (Rule × String)) (ms : List Rule) (d : Decision) : Prop where
  stop : ∀ r, ms.find? (·.action.stops) = some r → d.Of r
  challenge : ms.find? (·.action.stops) = none →
    ∀ c, ms.reverse.find? (·.action.isChallenge) = some c → d.Of c
  rest : ms.find? (·.action.stops) = none → (∀ c ∈ ms, c.action.isChallenge = false) →
    CandSpec cand ms d

section Step

variable {cand : Option (Rule × String)} {r : Rule} {ms : List Rule} {d : Decision}

/-- With no rule left, the candidate decides. -/
theorem ScanSpec.nil (nowMs : UInt64) : ScanSpec cand [] (Engine.finish nowMs cand) := by
  refine ⟨by simp, by simp, fun _ _ => ?_⟩
  rcases cand with _ | ⟨c, why⟩
  · exact ⟨by simp, fun _ => ⟨rfl, rfl⟩⟩
  · exact ⟨rfl, rfl, rfl, rfl⟩

/-- A matching `Deny` or `Allow` rule decides. -/
theorem ScanSpec.of_stop (hr : r.action.stops = true) (hd : d.Of r) : ScanSpec cand (r :: ms) d :=
  have hfind : (r :: ms).find? (·.action.stops) = some r := List.find?_cons_of_pos _ hr
  ⟨fun x hx => by rw [hfind] at hx; cases hx; exact hd, fun h => by simp [hfind] at h,
    fun h => by simp [hfind] at h⟩

/-- A matching `Challenge` rule becomes the candidate, and decides unless a later matching rule
stops the scan or is a challenge. -/
theorem ScanSpec.cons_challenge {w : String} (hr : r.action.isChallenge = true)
    (h : ScanSpec (some (r, w)) ms d) : ScanSpec cand (r :: ms) d := by
  have hns : r.action.stops = false := by
    cases hra : r.action <;> simp_all [Action.stops, Action.isChallenge]
  have hfind : (r :: ms).find? (·.action.stops) = ms.find? (·.action.stops) :=
    List.find?_cons_of_neg _ (by simp [hns])
  refine ⟨fun x hx => h.stop x (hfind ▸ hx), fun hs c hc => ?_, fun _ hall => ?_⟩
  · rw [hfind] at hs
    rw [List.reverse_cons, List.find?_append] at hc
    cases hlast : ms.reverse.find? (·.action.isChallenge) with
    | some c' => rw [hlast] at hc; cases hc; exact h.challenge hs c hlast
    | none =>
        rw [hlast, Option.none_or] at hc
        obtain rfl : r = c := by simpa [hr] using hc
        exact h.rest hs fun x hx => by simpa using List.find?_eq_none.1 hlast x (List.mem_reverse.2 hx)
  · simp [hall r (List.mem_cons_self _ _)] at hr

/-- A matching `LogOnly` rule becomes the candidate when there is none. -/
theorem ScanSpec.cons_logOnly {w : String} (hr : r.action = .logOnly)
    (h : ScanSpec (if cand.isNone then some (r, w) else cand) ms d) : ScanSpec cand (r :: ms) d := by
  have hfind : (r :: ms).find? (·.action.stops) = ms.find? (·.action.stops) :=
    List.find?_cons_of_neg _ (by simp [hr, Action.stops])
  have hrev : (r :: ms).reverse.find? (·.action.isChallenge) =
      ms.reverse.find? (·.action.isChallenge) := by
    simp [hr, Action.isChallenge]
  refine ⟨fun x hx => h.stop x (hfind ▸ hx), fun hs c hc => h.challenge (hfind ▸ hs) c (hrev ▸ hc),
    fun hs hall => ?_⟩
  have hc := h.rest (hfind ▸ hs) fun x hx => hall x (List.mem_cons_of_mem _ hx)
  rcases cand with _ | ⟨c, w'⟩
  · refine ⟨fun x hx => ?_, fun h' => absurd h' (List.cons_ne_nil _ _)⟩
    rw [List.find?_cons_of_pos _ (by simp [hr])] at hx
    cases hx
    exact hc
  · exact hc

end Step

section Scan

variable (toLowercase : String → String) (req : RequestView) (nowMs : UInt64)

/-- The run lemma: whatever the scan returns from a candidate follows `ScanSpec` on the matching
rules. The rules after the one that stops the scan are never matched, so nothing is assumed of
them. -/
theorem Engine.scan_spec : ∀ (rules : List Rule) (cand : Option (Rule × String)) {d : Decision},
    Engine.scan toLowercase req nowMs cand rules = some d →
      ScanSpec cand (Engine.matching toLowercase req rules) d
  | [], cand, d, h => by
      obtain rfl : Engine.finish nowMs cand = d := Option.some.inj h
      exact ScanSpec.nil nowMs
  | r :: rs, cand, d, h => by
      cases hb : Engine.matches toLowercase req r with
      | none => simp [Engine.scan, hb] at h
      | some b =>
          cases b with
          | false =>
              have hm : Engine.matching toLowercase req (r :: rs) =
                  Engine.matching toLowercase req rs := by simp [Engine.matching, hb]
              rw [hm]
              exact Engine.scan_spec rs cand (by simpa [Engine.scan, hb] using h)
          | true =>
              have hm : Engine.matching toLowercase req (r :: rs) =
                  r :: Engine.matching toLowercase req rs := by simp [Engine.matching, hb]
              rw [hm]
              cases ha : r.action with
              | challenge s =>
                  simp only [Engine.scan, hb, ha] at h
                  exact ScanSpec.cons_challenge (by simp [ha, Action.isChallenge])
                    (Engine.scan_spec rs _ h)
              | logOnly =>
                  simp only [Engine.scan, hb, ha] at h
                  exact ScanSpec.cons_logOnly ha (Engine.scan_spec rs _ h)
              | _ =>
                  -- `Deny` breaks the loop and `Allow` returns: the rule decides
                  simp only [Engine.scan, hb, ha, Option.some.injEq] at h
                  subst h
                  exact ScanSpec.of_stop (by simp [ha, Action.stops])
                    ⟨by simp [Engine.finish, ha], rfl, rfl, rfl⟩

/-- On rules no match of which panics, the scan returns. -/
theorem Engine.scan_isSome : ∀ (rules : List Rule) (cand : Option (Rule × String)),
    (∀ r ∈ rules, (Engine.matches toLowercase req r).isSome) →
      (Engine.scan toLowercase req nowMs cand rules).isSome
  | [], _, _ => rfl
  | r :: rs, cand, hs => by
      obtain ⟨b, hb⟩ := Option.isSome_iff_exists.1 (hs r (List.mem_cons_self _ _))
      have ih := fun c => Engine.scan_isSome rs c fun r' h => hs r' (List.mem_cons_of_mem _ h)
      cases b with
      | false => simpa [Engine.scan, hb] using ih cand
      | true => cases ha : r.action <;> simp [Engine.scan, hb, ha, ih]

/-- On every request on which `decide` returns, the decision follows `DecisionOrder` on the
matching rules. -/
theorem Engine.decide_scan_order (eng : Engine) {d : Decision}
    (h : Engine.decide toLowercase req nowMs eng = some d) :
    DecisionOrder (Engine.matching toLowercase req eng.rules) d := by
  have hs := Engine.scan_spec toLowercase req nowMs eng.rules none h
  refine ⟨hs.stop, fun hstop ⟨c, hc, hch⟩ => ?_, fun hstop hall => (hs.rest hstop hall).1,
    fun hnil => (hs.rest (by simp [hnil]) (by simp [hnil])).2 hnil⟩
  obtain ⟨c', hc'⟩ : ∃ c', (Engine.matching toLowercase req eng.rules).reverse.find?
      (·.action.isChallenge) = some c' :=
    Option.isSome_iff_exists.1 (List.find?_isSome.2 ⟨c, List.mem_reverse.2 hc, hch⟩)
  exact ⟨c', List.mem_reverse.1 (List.mem_of_find?_eq_some hc'), by simpa using List.find?_some hc',
    hs.challenge hstop c' hc'⟩

/-- `decide_scan_order` on a traversal path that ends inside a two-byte character, with
`default_rules()` and the identity as `to_lowercase`: the prefix rule 5 would panic on it, but
the traversal rule 1 denies first, and `decide` returns. -/
theorem Engine.decide_scan_order_past_panicking_rule :
    let req : RequestView := ⟨"/../abcdefghé", "curl/8.0", [], [], "10.0.0.1"⟩
    (∃ r ∈ defaultRules, Engine.matches id req r = none) ∧
      ∃ d, Engine.decide id req 0 ⟨defaultRules⟩ = some d ∧
        DecisionOrder (Engine.matching id req defaultRules) d := by
  intro req
  refine ⟨⟨⟨5, .path, .prefixOf "/.well-known/", .allow, ["safe_allowlist"], 1⟩, by decide, rfl⟩,
    _, rfl, Engine.decide_scan_order id req 0 ⟨defaultRules⟩ rfl⟩

/-- A matching `Allow` rule ahead of a matching `Deny` rule decides: the path `/` matches both
rules below, and the decision is the first rule's explicit allow, whatever `to_lowercase` and the
clock give. -/
theorem Engine.allow_shadows_deny :
    ∃ (eng : Engine) (req : RequestView), ∀ (toLowercase : String → String) (nowMs : UInt64),
      (∃ r ∈ Engine.matching toLowercase req eng.rules, r.action = .deny 403) ∧
        Engine.decide toLowercase req nowMs eng =
          some ⟨nowMs, some 1, .allow, "explicit allow", [], 1⟩ :=
  ⟨⟨[⟨1, .path, .eq "/", .allow, [], 1⟩, ⟨2, .path, .eq "/", .deny 403, [], 9⟩]⟩,
    ⟨"/", "", [], [], ""⟩, fun _ _ =>
      ⟨⟨_, List.mem_filter.2 ⟨List.mem_cons_of_mem _ (List.mem_singleton_self _), rfl⟩, rfl⟩, rfl⟩⟩

/-- On a request with ASCII fields `decide` returns. -/
theorem Engine.decide_isSome_of_ascii (eng : Engine) (h : req.AsciiFields) :
    (Engine.decide toLowercase req nowMs eng).isSome :=
  Engine.scan_isSome toLowercase req nowMs eng.rules none
    fun r _ => Engine.matches_isSome_of_ascii toLowercase h r

/-- `decide_isSome_of_ascii` on the default rules and an ASCII request. -/
theorem Engine.decide_returns_on_ascii_request :
    RequestView.AsciiFields ⟨"/index.html", "curl/8.0", [("Host", "example.org")], [], "10.0.0.1"⟩ ∧
    (Engine.decide id ⟨"/index.html", "curl/8.0", [("Host", "example.org")], [], "10.0.0.1"⟩ 0
      ⟨defaultRules⟩).isSome := by
  have h : RequestView.AsciiFields
      ⟨"/index.html", "curl/8.0", [("Host", "example.org")], [], "10.0.0.1"⟩ := by
    unfold RequestView.AsciiFields
    decide
  exact ⟨h, Engine.decide_isSome_of_ascii id _ 0 ⟨defaultRules⟩ h⟩

end Scan

end Olwsx.Security.Waf
