import Mathlib.Data.List.AList

/-!
# The plugin SDK

`plugins/sdk.rs`: requests, responses and filter verdicts, the plugin traits, and the `Registry`
that holds filter and handler plugins under string keys. A trait object `Box<dyn FilterPlugin>` is
a plugin state of a type `F` together with the trait's methods as a `FilterPlugin F` record. The
methods that take `&mut self` and return a `Result` give the state they leave and their result, so
an error can follow a change of state.

The loops of `init_all` and `teardown_all` go through the maps in the order of Rust's `HashMap`,
which the code does not fix; the model goes through the association lists in their order, and the
results below hold whatever the order.

- `Registry.lookup_run_register`: over a run of registrations the first plugin registered under a
  key is the one the registry keeps; a second registration of a key is refused.
- `Registry.mem_run_filters`: over any run of calls, the filter keys are the keys registered.
- `Registry.initAll_ok_iff`: `init_all` succeeds exactly when every plugin's `init` does, and
  then every plugin is initialised with its own configuration.
-/

set_option autoImplicit false

namespace Olwsx.Plugins

/-- `Request`. -/
structure Request where
  method : String
  path : String
  headers : List (String × String)
  body : List UInt8
  tenant : String
  deriving DecidableEq, Repr

/-- `Response`. -/
structure Response where
  status : UInt16
  headers : List (String × String)
  body : List UInt8
  deriving DecidableEq, Repr

/-- `Response::new`. -/
def Response.new (status : UInt16) : Response := ⟨status, [], []⟩

/-- `FilterVerdict`. -/
inductive FilterVerdict where
  | continue
  | shortCircuit (resp : Response)
  | mutate (req : Request)
  deriving DecidableEq, Repr

/-- `HandlerResult`. -/
structure HandlerResult where
  resp : Response
  metaFlags : UInt32
  deriving DecidableEq, Repr

/-- `add_header`. -/
def addHeader (resp : Response) (k v : String) : Response :=
  { resp with headers := resp.headers ++ [(k, v)] }

/-- `set_body`. -/
def setBody (resp : Response) (bytes : List UInt8) : Response := { resp with body := bytes }

/-- `json`. -/
def json (bytes : List UInt8) : Response :=
  setBody (addHeader (Response.new 200) "Content-Type" "application/json") bytes

/-- A plugin configuration, `HashMap<String, String>`. -/
abbrev Cfg := AList (fun _ : String => String)

/-- The configurations by plugin key, `HashMap<String, HashMap<String, String>>`. -/
abbrev Cfgs := AList (fun _ : String => Cfg)

/-- `FilterPlugin` over the plugin state `F`; `teardown` does nothing unless the plugin says
otherwise. -/
structure FilterPlugin (F : Type) where
  init : F → Cfg → F × Except String Unit
  process : F → Request → FilterVerdict
  teardown : F → F := id

/-- `HandlerPlugin` over the plugin state `H`. -/
structure HandlerPlugin (H : Type) where
  init : H → Cfg → H × Except String Unit
  handle : H → Request → HandlerResult
  teardown : H → H := id

/-- A map of plugins by key. -/
abbrev PluginMap (P : Type) := AList (fun _ : String => P)

/-- `Registry`. -/
structure Registry (F H : Type) where
  filters : PluginMap F
  handlers : PluginMap H

/-! ## The loops over one map -/

section Loops

variable {P : Type}

/-- The check and insert of `register_filter` and `register_handler` on the map of plugins of
`kind`: a key already registered is refused and the map left as it is. -/
def registerIn (kind : String) (plugins : PluginMap P) (key : String) (plugin : P) :
    PluginMap P × Except String Unit :=
  if key ∈ plugins then (plugins, .error (kind ++ " key '" ++ key ++ "' already registered"))
  else (plugins.insert key plugin, .ok ())

/-- One loop of `init_all`: init each plugin with its configuration, an empty one when `cfgs` has
none, and stop at the first error; the plugins after it keep their state. -/
def initEach (init : P → Cfg → P × Except String Unit) (cfgs : Cfgs) :
    List (Σ _ : String, P) → List (Σ _ : String, P) × Except String Unit
  | [] => ([], .ok ())
  | ⟨k, p⟩ :: rest =>
      match init p ((cfgs.lookup k).getD ∅) with
      | (p', .error e) => (⟨k, p'⟩ :: rest, .error e)
      | (p', .ok ()) => (⟨k, p'⟩ :: (initEach init cfgs rest).1, (initEach init cfgs rest).2)

/-- The loop keeps the keys. -/
theorem keys_initEach (init : P → Cfg → P × Except String Unit) (cfgs : Cfgs) :
    ∀ l : List (Σ _ : String, P), (initEach init cfgs l).1.keys = l.keys
  | [] => rfl
  | ⟨k, p⟩ :: rest => by
      unfold initEach
      split <;> simp [List.keys_cons, keys_initEach init cfgs rest]

/-- `init_all`'s loop on one map. -/
def initIn (init : P → Cfg → P × Except String Unit) (cfgs : Cfgs) (plugins : PluginMap P) :
    PluginMap P × Except String Unit :=
  (⟨(initEach init cfgs plugins.entries).1, by
      rw [List.NodupKeys, keys_initEach]; exact plugins.nodupKeys⟩,
    (initEach init cfgs plugins.entries).2)

/-- `teardown_all`'s loop on one map. -/
def teardownIn (teardown : P → P) (plugins : PluginMap P) : PluginMap P :=
  ⟨plugins.entries.map fun s => ⟨s.1, teardown s.2⟩, by
    simpa [List.NodupKeys, List.keys, Function.comp_def] using plugins.nodupKeys⟩

/-- A registration adds its key. -/
@[simp] theorem mem_registerIn {kind key k : String} {plugins : PluginMap P} {plugin : P} :
    k ∈ (registerIn kind plugins key plugin).1 ↔ k = key ∨ k ∈ plugins := by
  unfold registerIn
  split
  · exact ⟨.inr, by rintro (rfl | h) <;> assumption⟩
  · simp [AList.mem_insert]

/-- A registration is refused exactly when its key is registered. -/
theorem registerIn_ok_iff {kind key : String} {plugins : PluginMap P} {plugin : P} :
    (registerIn kind plugins key plugin).2 = .ok () ↔ key ∉ plugins := by
  unfold registerIn
  split <;> simp_all

/-- After a registration a key's plugin is the one it had, or else the one registered. -/
theorem lookup_registerIn (kind : String) (plugins : PluginMap P) (key : String) (plugin : P)
    (k : String) :
    (registerIn kind plugins key plugin).1.lookup k =
      (plugins.lookup k).or (if k = key then some plugin else none) := by
  unfold registerIn
  by_cases hk : k = key
  · subst hk
    split
    · obtain ⟨p, hp⟩ := Option.isSome_iff_exists.1 (AList.lookup_isSome.2 ‹k ∈ plugins›)
      simp [hp]
    · simp [AList.lookup_eq_none.2 ‹k ∉ plugins›]
  · split <;> simp [hk, AList.lookup_insert_ne hk, Option.or_none]

/-- The loop succeeds exactly when every plugin's `init` does. -/
theorem initEach_ok_iff (init : P → Cfg → P × Except String Unit) (cfgs : Cfgs) :
    ∀ l : List (Σ _ : String, P), (initEach init cfgs l).2 = .ok () ↔
      ∀ s ∈ l, (init s.2 ((cfgs.lookup s.1).getD ∅)).2 = .ok ()
  | [] => by simp [initEach]
  | ⟨k, p⟩ :: rest => by
      unfold initEach
      split <;> rename_i h <;> simp [h, initEach_ok_iff init cfgs rest]

/-- When the loop succeeds, every plugin is initialised with its own configuration. -/
theorem initEach_of_ok (init : P → Cfg → P × Except String Unit) (cfgs : Cfgs) :
    ∀ l : List (Σ _ : String, P), (initEach init cfgs l).2 = .ok () →
      (initEach init cfgs l).1 = l.map fun s => ⟨s.1, (init s.2 ((cfgs.lookup s.1).getD ∅)).1⟩
  | [] => fun _ => rfl
  | ⟨k, p⟩ :: rest => by
      unfold initEach
      split <;> rename_i h
      · simp
      · intro hok
        simp [h, initEach_of_ok init cfgs rest hok]

/-- A failed loop returns the error of some plugin's `init`. -/
theorem initEach_error (init : P → Cfg → P × Except String Unit) (cfgs : Cfgs) {e : String} :
    ∀ l : List (Σ _ : String, P), (initEach init cfgs l).2 = .error e →
      ∃ s ∈ l, (init s.2 ((cfgs.lookup s.1).getD ∅)).2 = .error e
  | [] => by simp [initEach]
  | ⟨k, p⟩ :: rest => by
      unfold initEach
      split <;> rename_i h
      · intro he
        exact ⟨_, List.mem_cons_self _ _, by simpa [h] using he⟩
      · intro he
        obtain ⟨s, hs, hse⟩ := initEach_error init cfgs rest he
        exact ⟨s, List.mem_cons_of_mem _ hs, hse⟩

/-- After a loop in which every `init` succeeds, every plugin is initialised. -/
theorem lookup_initIn_of_ok {init : P → Cfg → P × Except String Unit} {cfgs : Cfgs}
    {plugins : PluginMap P} (h : (initIn init cfgs plugins).2 = .ok ()) (k : String) :
    (initIn init cfgs plugins).1.lookup k =
      (plugins.lookup k).map fun p => (init p ((cfgs.lookup k).getD ∅)).1 := by
  show (initEach init cfgs plugins.entries).1.dlookup k = _
  rw [initEach_of_ok init cfgs _ h]
  exact List.dlookup_map₂ (f := fun a p => (init p ((cfgs.lookup a).getD ∅)).1) k

@[simp] theorem mem_initIn {init : P → Cfg → P × Except String Unit} {cfgs : Cfgs}
    {plugins : PluginMap P} {k : String} : k ∈ (initIn init cfgs plugins).1 ↔ k ∈ plugins := by
  rw [AList.mem_keys, AList.mem_keys, AList.keys, AList.keys, initIn, keys_initEach]

@[simp] theorem mem_teardownIn {teardown : P → P} {plugins : PluginMap P} {k : String} :
    k ∈ teardownIn teardown plugins ↔ k ∈ plugins := by
  simp [AList.mem_keys, AList.keys, teardownIn, List.keys, Function.comp_def]

end Loops

namespace Registry

variable {F H : Type}

/-- `Registry::new`. -/
def new : Registry F H := ⟨∅, ∅⟩

/-- `register_filter`. -/
def registerFilter (reg : Registry F H) (key : String) (plugin : F) :
    Registry F H × Except String Unit :=
  ({ reg with filters := (registerIn "filter" reg.filters key plugin).1 },
    (registerIn "filter" reg.filters key plugin).2)

/-- `register_handler`. -/
def registerHandler (reg : Registry F H) (key : String) (plugin : H) :
    Registry F H × Except String Unit :=
  ({ reg with handlers := (registerIn "handler" reg.handlers key plugin).1 },
    (registerIn "handler" reg.handlers key plugin).2)

variable (fp : FilterPlugin F) (hp : HandlerPlugin H)

/-- `init_all`: the filters, then, if none failed, the handlers. -/
def initAll (reg : Registry F H) (cfgs : Cfgs) : Registry F H × Except String Unit :=
  match (initIn fp.init cfgs reg.filters).2 with
  | .error e => (⟨(initIn fp.init cfgs reg.filters).1, reg.handlers⟩, .error e)
  | .ok () =>
      (⟨(initIn fp.init cfgs reg.filters).1, (initIn hp.init cfgs reg.handlers).1⟩,
        (initIn hp.init cfgs reg.handlers).2)

/-- `filter`: the verdict of the filter under `key`, or `Continue` when there is none. -/
def filter (reg : Registry F H) (key : String) (req : Request) : FilterVerdict :=
  match reg.filters.lookup key with
  | some p => fp.process p req
  | none => .continue

/-- `handle`. -/
def handle (reg : Registry F H) (key : String) (req : Request) : Option HandlerResult :=
  (reg.handlers.lookup key).map (hp.handle · req)

/-- `teardown_all`. -/
def teardownAll (reg : Registry F H) : Registry F H :=
  ⟨teardownIn fp.teardown reg.filters, teardownIn hp.teardown reg.handlers⟩

/-- The calls that change a registry. -/
inductive Call (F H : Type) where
  | registerFilter (key : String) (plugin : F)
  | registerHandler (key : String) (plugin : H)
  | initAll (cfgs : Cfgs)
  | teardownAll

/-- One call. -/
def step (reg : Registry F H) : Call F H → Registry F H × Except String Unit
  | .registerFilter key plugin => reg.registerFilter key plugin
  | .registerHandler key plugin => reg.registerHandler key plugin
  | .initAll cfgs => initAll fp hp reg cfgs
  | .teardownAll => (teardownAll fp hp reg, .ok ())

/-- The registry after a run of calls. -/
def run : Registry F H → List (Call F H) → Registry F H
  | reg, [] => reg
  | reg, c :: cs => run (step fp hp reg c).1 cs

/-! ## Runs of calls -/

theorem initAll_filters (reg : Registry F H) (cfgs : Cfgs) :
    (initAll fp hp reg cfgs).1.filters = (initIn fp.init cfgs reg.filters).1 := by
  unfold initAll; split <;> rfl

/-- One call adds at most the filter key it registers. -/
theorem mem_step_filters (reg : Registry F H) (c : Call F H) (k : String) :
    k ∈ (step fp hp reg c).1.filters ↔ k ∈ reg.filters ∨ ∃ p, c = .registerFilter k p := by
  cases c with
  | registerFilter key p => simp [step, registerFilter, eq_comm, or_comm]
  | registerHandler key p => simp [step, registerHandler]
  | initAll cfgs => simp [step, initAll_filters]
  | teardownAll => simp [step, teardownAll]

/-- Over any run of calls the filter keys are those of the registry and those registered. -/
theorem mem_run_filters :
    ∀ (reg : Registry F H) (calls : List (Call F H)) (k : String),
      k ∈ (run fp hp reg calls).filters ↔ k ∈ reg.filters ∨ ∃ p, .registerFilter k p ∈ calls
  | reg, [], k => by simp [run]
  | reg, c :: cs, k => by
      rw [run, mem_run_filters, mem_step_filters]
      simp only [List.mem_cons, exists_or, or_assoc, eq_comm]

/-- Along any run, registering a filter key succeeds exactly when neither the registry nor an
earlier call registered it. -/
theorem registerFilter_ok_after_run (reg : Registry F H) (calls : List (Call F H))
    (key : String) (plugin : F) :
    ((run fp hp reg calls).registerFilter key plugin).2 = .ok () ↔
      key ∉ reg.filters ∧ ∀ p, .registerFilter key p ∉ calls := by
  simp [registerFilter, registerIn_ok_iff, mem_run_filters]

/-- Over a run of filter registrations, the plugin under a key is the one the registry had, or
else the first one registered under it: a later registration never replaces it. -/
theorem lookup_run_register :
    ∀ (reg : Registry F H) (regs : List (String × F)) (k : String),
      (run fp hp reg (regs.map fun r => .registerFilter r.1 r.2)).filters.lookup k =
        (reg.filters.lookup k).or (regs.lookup k)
  | reg, [], k => by simp [run, Option.or_none]
  | reg, (key, p) :: rs, k => by
      simp only [List.map_cons, run, step, lookup_run_register _ rs k, registerFilter,
        lookup_registerIn, Option.or_assoc]
      congr 1
      by_cases hk : k = key
      · simp [List.lookup_cons, hk]
      · simp [List.lookup_cons, hk, beq_false_of_ne hk]

/-- `init_all` succeeds exactly when every plugin's `init` does with its configuration, in
whatever order the maps are gone through; then every plugin is initialised. -/
theorem initAll_ok_iff (reg : Registry F H) (cfgs : Cfgs) :
    (initAll fp hp reg cfgs).2 = .ok () ↔
      (∀ s ∈ reg.filters.entries, (fp.init s.2 ((cfgs.lookup s.1).getD ∅)).2 = .ok ()) ∧
        ∀ s ∈ reg.handlers.entries, (hp.init s.2 ((cfgs.lookup s.1).getD ∅)).2 = .ok () := by
  rw [← initEach_ok_iff, ← initEach_ok_iff]
  unfold initAll initIn
  split <;> rename_i h <;> simp only at h <;> simp [h]

/-- After a successful `init_all` every plugin is initialised with its own configuration. -/
theorem initAll_of_ok (reg : Registry F H) (cfgs : Cfgs) (h : (initAll fp hp reg cfgs).2 = .ok ()) :
    (initAll fp hp reg cfgs).1.filters.entries =
        reg.filters.entries.map (fun s => ⟨s.1, (fp.init s.2 ((cfgs.lookup s.1).getD ∅)).1⟩) ∧
      (initAll fp hp reg cfgs).1.handlers.entries =
        reg.handlers.entries.map (fun s => ⟨s.1, (hp.init s.2 ((cfgs.lookup s.1).getD ∅)).1⟩) := by
  unfold initAll initIn at h ⊢
  cases hf : (initEach fp.init cfgs reg.filters.entries).2 with
  | error e => simp [hf] at h
  | ok u =>
      cases u
      simp only [hf] at h ⊢
      exact ⟨initEach_of_ok _ _ _ hf, initEach_of_ok _ _ _ h⟩

/-- `initAll_of_ok` on a filter and a handler whose `init` always succeeds. -/
theorem initAll_of_ok_counting :
    let fp : FilterPlugin Nat := ⟨fun n _ => (n + 1, .ok ()), fun _ _ => .continue, id⟩
    let hp : HandlerPlugin Nat := ⟨fun n _ => (n + 2, .ok ()), fun _ _ => ⟨Response.new 200, 0⟩, id⟩
    let reg : Registry Nat Nat := ⟨AList.singleton "f" 0, AList.singleton "h" 0⟩
    (initAll fp hp reg ∅).2 = .ok () ∧
    ((initAll fp hp reg ∅).1.filters.entries =
        reg.filters.entries.map (fun s => ⟨s.1, (fp.init s.2 (((∅ : Cfgs).lookup s.1).getD ∅)).1⟩) ∧
      (initAll fp hp reg ∅).1.handlers.entries =
        reg.handlers.entries.map (fun s => ⟨s.1, (hp.init s.2 (((∅ : Cfgs).lookup s.1).getD ∅)).1⟩)) := by
  intro fp hp reg
  have h : (initAll fp hp reg ∅).2 = .ok () := rfl
  exact ⟨h, initAll_of_ok fp hp reg ∅ h⟩

/-- A failed `init_all` returns the error of some plugin's `init` with its configuration. -/
theorem initAll_error (reg : Registry F H) (cfgs : Cfgs) {e : String}
    (h : (initAll fp hp reg cfgs).2 = .error e) :
    (∃ s ∈ reg.filters.entries, (fp.init s.2 ((cfgs.lookup s.1).getD ∅)).2 = .error e) ∨
      ∃ s ∈ reg.handlers.entries, (hp.init s.2 ((cfgs.lookup s.1).getD ∅)).2 = .error e := by
  unfold initAll initIn at h
  split at h <;> rename_i h' <;> simp only at h h'
  · cases h
    exact .inl (initEach_error _ _ _ h')
  · exact .inr (initEach_error _ _ _ h)

/-- `initAll_error` on a filter whose `init` always fails. -/
theorem initAll_error_failing_filter :
    let fp : FilterPlugin Nat := ⟨fun n _ => (n, .error "bad"), fun _ _ => .continue, id⟩
    let hp : HandlerPlugin Nat := ⟨fun n _ => (n, .ok ()), fun _ _ => ⟨Response.new 200, 0⟩, id⟩
    let reg : Registry Nat Nat := ⟨AList.singleton "f" 0, ∅⟩
    (initAll fp hp reg ∅).2 = .error "bad" ∧
    ((∃ s ∈ reg.filters.entries, (fp.init s.2 (((∅ : Cfgs).lookup s.1).getD ∅)).2 = .error "bad") ∨
      ∃ s ∈ reg.handlers.entries, (hp.init s.2 (((∅ : Cfgs).lookup s.1).getD ∅)).2 = .error "bad") := by
  intro fp hp reg
  have h : (initAll fp hp reg ∅).2 = .error "bad" := rfl
  exact ⟨h, initAll_error fp hp reg ∅ h⟩

end Registry

end Olwsx.Plugins
