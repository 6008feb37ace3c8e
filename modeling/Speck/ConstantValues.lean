import Mathlib.Data.List.Nodup
import Mathlib.Tactic.Tauto
import Speck.Resume

/-!
# The constant scheduler

`sema/constants/dependencies.rs` : `ConstantValues::evaluate` runs the initializers of
named definitions on demand, over a cache of values and of failures. An initializer that
refers to a constant which is in neither is suspended, and resumed once that constant has
its value. The scheduler is generic in the suspended state of an initializer (`State`);
`Evaluator` collects what the two phases pass to it.

`Evaluator.Left` is what the scheduler relies on : a suspended state is a computation that
is left. Then the scheduler computes the lazy reference semantics `Demand.Computes` of the
definitions : `evaluate_spec` for one request, `requests_spec` for any sequence of them.
-/

namespace Speck

open Demand

/-- A named definition, as the scheduler sees it. -/
structure ConstantDefinition where
  ty : ValueType
  init : Expr
  span : Span

inductive EvaluationError where
  | diagnostic (d : Diagnostic)
  | dependency (name : String) (span : Span)
  deriving DecidableEq

instance : FromDiagnostic EvaluationError := ⟨.diagnostic⟩

inductive Phase where
  | constant
  | arrayLength
  deriving DecidableEq, Repr

def Phase.cycle : Phase → String
  | constant => "cyclic constant definition"
  | arrayLength => "cyclic array-length constant"

def Phase.unknown : Phase → String
  | constant => "unknown constant"
  | arrayLength => "unknown array-length constant"

def unknownConstant (phase : Phase) (name : String) (usage : Span) : Diagnostic :=
  ⟨s!"{phase.unknown} `{name}`", usage⟩

/-- The diagnostic of a cycle, given the names along it with the first one repeated. -/
def cyclicConstant (phase : Phase) (names : List String) (span : Span) : Diagnostic :=
  let chain := " -> ".intercalate names
  ⟨s!"{phase.cycle}: {chain}", span⟩

/-- The cache of a phase. -/
structure ConstantValues where
  values : HashMap ConstantValue
  failures : HashMap Diagnostic

/-- The values of the predefined constants. -/
@[irreducible] def predefinedValues (resolution : Resolution) : HashMap ConstantValue :=
  .ofList ((Builtins.constants resolution).map fun item => (item.name, item.value))

theorem lookup_predefinedValues {resolution : Resolution} {name : String} {v : ConstantValue}
    (h : (predefinedValues resolution).lookup name = some v) :
    ∃ item ∈ Builtins.constants resolution, item.name = name ∧ item.value = v := by
  unfold predefinedValues at h
  obtain ⟨item, hitem, heq⟩ := List.mem_map.mp (HashMap.mem_of_lookup_ofList h)
  exact ⟨item, hitem, Prod.mk.inj heq⟩

theorem lookup_predefinedValues_eq_none {resolution : Resolution} {name : String} :
    (predefinedValues resolution).lookup name = none ↔
      name ∉ (Builtins.constants resolution).map (·.name) := by
  unfold predefinedValues
  generalize Builtins.constants resolution = items
  rw [AList.lookup_eq_none, HashMap.mem_ofList, List.map_map]
  rfl

/-- A declaration on the scheduler's stack : its name, the site that refers to it and,
once it ran, its suspended initializer. -/
structure Pending (State : Type) where
  name : String
  usage : Span
  state : Option State

/-- What a phase hands to the scheduler. -/
structure Evaluator (State : Type) where
  definitions : HashMap ConstantDefinition
  phase : Phase
  initialState : ConstantDefinition → State
  initializer : String → ConstantDefinition → State → ConstantValues →
    State × Except EvaluationError ConstantValue

namespace ConstantValues

def new (resolution : Resolution) : ConstantValues := ⟨predefinedValues resolution, ∅⟩

def failed (cache : ConstantValues) (name : String) : Bool := (cache.failures.lookup name).isSome

def lookup (cache : ConstantValues) (name : String) (span : Span) :
    Except EvaluationError ConstantValue :=
  match cache.values.lookup name with
  | some value => .ok value
  | none =>
    match cache.failures.lookup name with
    | some d => .error (.diagnostic d)
    | none => .error (.dependency name span)

def addValue (cache : ConstantValues) (name : String) (value : ConstantValue) : ConstantValues :=
  { cache with values := cache.values.insert name value }

/-- Every suspended declaration depends on the same root failure. -/
def failAll (cache : ConstantValues) (names : List String) (d : Diagnostic) : ConstantValues :=
  { cache with failures := cache.failures.extend (names.map (·, d)) }

/-- The names of the active cycle that a reference to the declaration at position `start`
closes, outermost first. The stack has its top first. -/
def cycleFrom {State : Type} (pending : List (Pending State)) (start : ℕ) : List String :=
  ((pending.take (pending.length - start)).map (·.name)).reverse

/-- Resume the initializer of the top of the stack, or start it. -/
def resumeTop {State : Type} (ev : Evaluator State) (cache : ConstantValues)
    (current : Pending State) : Pending State × Except EvaluationError ConstantValue :=
  match ev.definitions.lookup current.name with
  | some definition =>
    let run := ev.initializer current.name definition
      (current.state.getD (ev.initialState definition)) cache
    ({ current with state := some run.1 }, run.2)
  | none => (current, .error (.diagnostic (unknownConstant ev.phase current.name current.usage)))

/-- Run the top of the stack until the bottom one has its value or fails. `none` stands for
a missing declaration that the source would panic on, and for no fuel; neither happens
(`loop_spec`). -/
def loop {State : Type} (ev : Evaluator State) (root : String) :
    ℕ → ConstantValues → List (Pending State) → HashMap ℕ →
      Option (ConstantValues × Except Diagnostic ConstantValue)
  | 0, _, _, _ => none
  | _ + 1, _, [], _ => none
  | fuel + 1, cache, current :: below, active =>
    match resumeTop ev cache current with
    | (_, .ok value) =>
      let cache := cache.addValue current.name value
      match below with
      | [] => (cache.values.lookup root).map fun value => (cache, .ok value)
      | _ => loop ev root fuel cache below (active.erase current.name)
    | (current, .error (.dependency name span)) =>
      let pending := current :: below
      match active.lookup name with
      | some start =>
        (ev.definitions.lookup name).map fun definition =>
          let d := cyclicConstant ev.phase (cycleFrom pending start ++ [name]) definition.span
          (cache.failAll (pending.map (·.name)).reverse d, .error d)
      | none => loop ev root fuel cache (⟨name, span, none⟩ :: pending)
          (active.insert name pending.length)
    | (current, .error (.diagnostic d)) =>
      some (cache.failAll ((current :: below).map (·.name)).reverse d, .error d)

/-- Enough rounds : each declaration is pushed and finished at most once. -/
def rounds {State : Type} (ev : Evaluator State) : ℕ := 2 * ev.definitions.keys.length + 2

/-- One request. -/
def evaluate {State : Type} (ev : Evaluator State) (cache : ConstantValues) (name : String)
    (span : Span) : Option (ConstantValues × Except Diagnostic ConstantValue) :=
  match cache.lookup name span with
  | .ok value => some (cache, .ok value)
  | .error (.diagnostic d) => some (cache, .error d)
  | .error (.dependency _ _) =>
    loop ev name (rounds ev) cache [⟨name, span, none⟩] (AList.singleton name 0)

end ConstantValues

/-! ## The reference semantics -/

section Lazy

variable (definitions : HashMap ConstantDefinition) (phase : Phase)
  (sys : String → Option (ConstantDemand ConstantValue))

/-- What `n` itself is blamed for with `d` : its own failure, having no definition, or a
closed chain of references through it. -/
inductive Culprit : String → Diagnostic → Prop where
  | own {n t d} : sys n = some t → Fails sys t d → Culprit n d
  | unknown {n} (usage : Span) : sys n = none → Culprit n (unknownConstant phase n usage)
  | cycle {n definition} (names : List String) :
      (n :: names ++ [n]).IsChain (Demands sys) → definitions.lookup n = some definition →
      Culprit n (cyclicConstant phase (n :: names ++ [n]) definition.span)

/-- `n` demands, directly or through other constants, the culprit of `d`. -/
def FailsWith (n : String) (d : Diagnostic) : Prop :=
  ∃ c, Relation.ReflTransGen (Demands sys) n c ∧ Culprit definitions phase sys c d

variable {definitions phase sys}

theorem transGen_of_isChain {n m : String} {names : List String}
    (h : (n :: names ++ [m]).IsChain (Demands sys)) : Relation.TransGen (Demands sys) n m := by
  induction names generalizing n with
  | nil => exact .single (List.isChain_pair.mp h)
  | cons k names ih =>
    simp only [List.cons_append, List.isChain_cons_cons] at h
    exact .head h.1 (ih h.2)

theorem Culprit.not_computes {n : String} {d : Diagnostic}
    (h : Culprit definitions phase sys n d) (v : ConstantValue) : ¬Computes sys n v := by
  intro hc
  cases h with
  | own hs hf =>
    obtain ⟨t, hs', hy⟩ := computes_iff.mp hc
    obtain rfl := Option.some.inj (hs.symm.trans hs')
    exact hf.not_yields hy
  | unknown usage hs =>
    obtain ⟨t, hs', -⟩ := computes_iff.mp hc
    simp [hs] at hs'
  | cycle names hchain _ => exact not_computes_of_cycle (transGen_of_isChain hchain) v hc

/-- What fails has no value. -/
theorem FailsWith.not_computes {n : String} {d : Diagnostic}
    (h : FailsWith definitions phase sys n d) (v : ConstantValue) : ¬Computes sys n v := by
  obtain ⟨c, hreach, hc⟩ := h
  exact not_computes_of_reaches hreach hc.not_computes v

end Lazy

/-! ## Refinement -/

section Refinement

variable {State : Type} (ev : Evaluator State) (base : HashMap ConstantValue)
  (sys : String → Option (ConstantDemand ConstantValue))
  (left : String → ConstantDefinition → State → ConstantDemand ConstantValue)

/-- The phase `ev` evaluates the definitions `sys` over the predefined values `base`, and
`left` is what its suspended initializers have left. -/
structure Evaluator.Refines : Prop where
  predefined : ∀ {n v}, base.lookup n = some v → sys n = some (done v)
  undefined : ∀ {n}, base.lookup n = none → ev.definitions.lookup n = none → sys n = none
  initial : ∀ {n definition}, base.lookup n = none → ev.definitions.lookup n = some definition →
    sys n = some (left n definition (ev.initialState definition))
  resumes : ∀ n definition state (cache : ConstantValues),
    match run cache.lookup (left n definition state) with
    | .done v => (ev.initializer n definition state cache).2 = .ok v
    | .fail d => (ev.initializer n definition state cache).2 = .error (.diagnostic d)
    | .stop m s k e => (ev.initializer n definition state cache).2 = .error e ∧
        left n definition (ev.initializer n definition state cache).1 = ask m s k

namespace ConstantValues

/-- The cache has an entry for `n`. -/
def Known (cache : ConstantValues) (n : String) : Prop :=
  n ∈ cache.values ∨ n ∈ cache.failures

/-- The entries of a cache are right, and closed under demands. -/
structure Sound (cache : ConstantValues) : Prop where
  predefined : ∀ {n v}, base.lookup n = some v → cache.values.lookup n = some v
  values : ∀ {n v}, cache.values.lookup n = some v → Computes sys n v
  failures : ∀ {n d}, cache.failures.lookup n = some d → FailsWith ev.definitions ev.phase sys n d
  closed : ∀ {n m}, cache.Known n → Demands sys n m → cache.Known m

/-- `cache'` keeps every entry of `cache`. -/
structure Extends (cache cache' : ConstantValues) : Prop where
  values : ∀ {n v}, cache.values.lookup n = some v → cache'.values.lookup n = some v
  failures : ∀ {n}, n ∈ cache.failures → n ∈ cache'.failures

variable {ev base sys left}

theorem lookup_eq_ok {cache : ConstantValues} {n : String} {s : Span} {v : ConstantValue} :
    cache.lookup n s = .ok v ↔ cache.values.lookup n = some v := by
  unfold lookup
  cases cache.values.lookup n with
  | some w => simp
  | none => cases cache.failures.lookup n <;> simp

theorem lookup_eq_diagnostic {cache : ConstantValues} {n : String} {s : Span} {d : Diagnostic}
    (h : cache.lookup n s = .error (.diagnostic d)) : cache.failures.lookup n = some d := by
  unfold lookup at h
  cases hv : cache.values.lookup n with
  | some w => simp [hv] at h
  | none =>
    cases hf : cache.failures.lookup n with
    | some d' => simpa [hv, hf] using h
    | none => simp [hv, hf] at h

theorem lookup_eq_dependency {cache : ConstantValues} {n m : String} {s s' : Span}
    (h : cache.lookup n s = .error (.dependency m s')) : m = n ∧ s' = s ∧ ¬cache.Known n := by
  unfold lookup at h
  cases hv : cache.values.lookup n with
  | some w => simp [hv] at h
  | none =>
    cases hf : cache.failures.lookup n with
    | some d' => simp [hv, hf] at h
    | none =>
      simp only [hv, hf, Except.error.injEq, EvaluationError.dependency.injEq] at h
      rw [Known, ← AList.lookup_isSome, ← AList.lookup_isSome, hv, hf]
      simp [h.1, h.2]

theorem known_iff {cache : ConstantValues} {n : String} :
    cache.Known n ↔ (∃ v, cache.values.lookup n = some v) ∨
      ∃ d, cache.failures.lookup n = some d := by
  simp only [Known, ← AList.lookup_isSome, Option.isSome_iff_exists]

theorem Sound.soundLookup {cache : ConstantValues} (h : Sound ev base sys cache) :
    SoundLookup sys cache.lookup :=
  fun _ _ _ hl => h.values (lookup_eq_ok.mp hl)

theorem Sound.lookup_base {cache : ConstantValues} (h : Sound ev base sys cache) {n : String}
    (hn : ¬cache.Known n) : base.lookup n = none := by
  rw [Option.eq_none_iff_forall_ne_some]
  exact fun v hv => hn (known_iff.mpr (.inl ⟨v, h.predefined hv⟩))

/-- An entry is the lazy value, or records that there is none. -/
theorem Sound.computes_iff {cache : ConstantValues} (h : Sound ev base sys cache) {n : String}
    (hn : cache.Known n) {v : ConstantValue} :
    cache.values.lookup n = some v ↔ Computes sys n v := by
  refine ⟨h.values, fun hc => ?_⟩
  rcases known_iff.mp hn with ⟨w, hw⟩ | ⟨d, hd⟩
  · rw [hw, (h.values hw).unique hc]
  · exact absurd hc ((h.failures hd).not_computes v)

theorem Sound.mem_failures_iff {cache : ConstantValues} (h : Sound ev base sys cache) {n : String}
    (hn : cache.Known n) : n ∈ cache.failures ↔ ∀ v, ¬Computes sys n v := by
  rw [← AList.lookup_isSome, Option.isSome_iff_exists]
  constructor
  · rintro ⟨d, hd⟩
    exact (h.failures hd).not_computes
  · intro hno
    rcases known_iff.mp hn with ⟨w, hw⟩ | hd
    · exact absurd (h.values hw) (hno w)
    · exact hd

/-- Everything demanded below an entry has an entry. -/
theorem Sound.known_of_reaches {cache : ConstantValues} (h : Sound ev base sys cache)
    {n m : String} (hn : cache.Known n) (hr : Relation.ReflTransGen (Demands sys) n m) :
    cache.Known m := by
  induction hr with
  | refl => exact hn
  | tail _ hd ih => exact h.closed ih hd

theorem Extends.refl (cache : ConstantValues) : Extends cache cache := ⟨id, id⟩

theorem Extends.trans {cache cache' cache'' : ConstantValues} (h : Extends cache cache')
    (h' : Extends cache' cache'') : Extends cache cache'' :=
  ⟨fun hv => h'.values (h.values hv), fun hn => h'.failures (h.failures hn)⟩

theorem Extends.known {cache cache' : ConstantValues} (h : Extends cache cache') {n : String}
    (hn : cache.Known n) : cache'.Known n := by
  rcases known_iff.mp hn with ⟨v, hv⟩ | ⟨d, hd⟩
  · exact known_iff.mpr (.inl ⟨v, h.values hv⟩)
  · exact .inr (h.failures (AList.lookup_isSome.mp (by simp [hd])))

theorem Extends.answered {cache cache' : ConstantValues} (h : Extends cache cache')
    {t t' : ConstantDemand ConstantValue} (ha : Answered cache.lookup t t') :
    Answered cache'.lookup t t' :=
  ha.mono fun _ _ _ hl => lookup_eq_ok.mpr (h.values (lookup_eq_ok.mp hl))

theorem extends_addValue {cache : ConstantValues} {n : String} (hn : ¬cache.Known n)
    (v : ConstantValue) : Extends cache (cache.addValue n v) := by
  refine ⟨fun {m w} hm => ?_, id⟩
  have hne : m ≠ n := by
    rintro rfl
    exact hn (known_iff.mpr (.inl ⟨w, hm⟩))
  rw [addValue, AList.lookup_insert_ne hne, hm]

theorem known_addValue {cache : ConstantValues} {n m : String} {v : ConstantValue} :
    (cache.addValue n v).Known m ↔ m = n ∨ cache.Known m := by
  simp only [Known, addValue, AList.mem_insert]
  tauto

theorem lookup_failAll_of_mem {cache : ConstantValues} {names : List String} {d : Diagnostic}
    {n : String} (hnodup : names.Nodup) (h : n ∈ names) :
    (cache.failAll names d).failures.lookup n = some d := by
  refine HashMap.lookup_extend_of_mem ?_ (List.mem_map.mpr ⟨n, h, rfl⟩)
  simpa [Function.comp_def] using hnodup

theorem lookup_failAll_of_notMem {cache : ConstantValues} {names : List String} {d : Diagnostic}
    {n : String} (h : n ∉ names) :
    (cache.failAll names d).failures.lookup n = cache.failures.lookup n :=
  HashMap.lookup_extend_of_notMem (by simpa [Function.comp_def] using h)

theorem extends_failAll {cache : ConstantValues} {names : List String} {d : Diagnostic}
    (hnodup : names.Nodup) : Extends cache (cache.failAll names d) := by
  refine ⟨id, fun {n} hn => ?_⟩
  rw [← AList.lookup_isSome] at hn ⊢
  by_cases h : n ∈ names
  · simp [lookup_failAll_of_mem hnodup h]
  · rwa [lookup_failAll_of_notMem h]

theorem known_failAll {cache : ConstantValues} {names : List String} {d : Diagnostic}
    (hnodup : names.Nodup) {n : String} :
    (cache.failAll names d).Known n ↔ n ∈ names ∨ cache.Known n := by
  constructor
  · intro h
    by_cases hn : n ∈ names
    · exact .inl hn
    · rw [known_iff, lookup_failAll_of_notMem hn] at h
      exact .inr (known_iff.mpr h)
  · rintro (hn | hn)
    · exact known_iff.mpr (.inr ⟨d, lookup_failAll_of_mem hnodup hn⟩)
    · exact (extends_failAll hnodup).known hn

theorem Sound.addValue {cache : ConstantValues} (h : Sound ev base sys cache) {n : String}
    {v : ConstantValue} (hn : ¬cache.Known n) (hv : Computes sys n v)
    (hclosed : ∀ m, Demands sys n m → cache.Known m) : Sound ev base sys (cache.addValue n v) := by
  have hext := extends_addValue hn v
  refine ⟨fun hb => hext.values (h.predefined hb), fun {m w} hm => ?_, h.failures,
    fun {m k} hm hd => ?_⟩
  · by_cases hmn : m = n
    · subst hmn
      rw [ConstantValues.addValue, AList.lookup_insert] at hm
      exact Option.some.inj hm ▸ hv
    · rw [ConstantValues.addValue, AList.lookup_insert_ne hmn] at hm
      exact h.values hm
  · rcases known_addValue.mp hm with rfl | hm
    · exact hext.known (hclosed k hd)
    · exact hext.known (h.closed hm hd)

theorem Sound.failAll {cache : ConstantValues} (h : Sound ev base sys cache)
    {names : List String} {d : Diagnostic} (hnodup : names.Nodup)
    (hfail : ∀ n ∈ names, FailsWith ev.definitions ev.phase sys n d)
    (hclosed : ∀ n ∈ names, ∀ m, Demands sys n m → m ∈ names ∨ cache.Known m) :
    Sound ev base sys (cache.failAll names d) := by
  refine ⟨h.predefined, h.values, fun {m e} hm => ?_, fun {m k} hm hd => ?_⟩
  · by_cases hmn : m ∈ names
    · rw [lookup_failAll_of_mem hnodup hmn] at hm
      exact Option.some.inj hm ▸ hfail m hmn
    · rw [lookup_failAll_of_notMem hmn] at hm
      exact h.failures hm
  · rw [known_failAll hnodup]
    rcases (known_failAll hnodup).mp hm with hm | hm
    · exact hclosed m hm k hd
    · exact .inr (h.closed hm hd)

/-! ### The stack -/

variable (ev left)

/-- The initializer of `p` is suspended at a reference to `m`. -/
def Waits (p : Pending State) (m : String) : Prop :=
  ∃ definition s k, ev.definitions.lookup p.name = some definition ∧
    left p.name definition (p.state.getD (ev.initialState definition)) = ask m s k

/-- The state of `p` is its initializer with some questions answered from the cache. -/
def Started (cache : ConstantValues) (p : Pending State) : Prop :=
  ∀ definition, ev.definitions.lookup p.name = some definition →
    Answered cache.lookup (left p.name definition (ev.initialState definition))
      (left p.name definition (p.state.getD (ev.initialState definition)))

/-- The names on the stack, outermost first. -/
def order (pending : List (Pending State)) : List String := (pending.map (·.name)).reverse

/-- Every declaration on the stack is new and waits for the one above it; `active` has
their positions. -/
structure Stack (root : String) (cache : ConstantValues) (pending : List (Pending State))
    (active : HashMap ℕ) : Prop where
  fresh : ∀ p ∈ pending, ¬cache.Known p.name
  started : ∀ p ∈ pending, Started ev left cache p
  waits : pending.IsChain fun upper lower => Waits ev left lower upper.name
  nodup : (order pending).Nodup
  root : (order pending).head? = some root
  active : ∀ n i, active.lookup n = some i ↔ (order pending)[i]? = some n

/-- What resuming the top of the stack may give : its value, a failure it depends on, or
a name that is neither known nor a failure. -/
inductive TopResult (sys : String → Option (ConstantDemand ConstantValue))
    (cache : ConstantValues) (current : Pending State) :
    Pending State × Except EvaluationError ConstantValue → Prop where
  | value (p v) : Computes sys current.name v → (∀ m, Demands sys current.name m → cache.Known m) →
      TopResult sys cache current (p, .ok v)
  | failed (p d) : p.name = current.name → FailsWith ev.definitions ev.phase sys current.name d →
      (∀ m, Demands sys current.name m → cache.Known m) →
      TopResult sys cache current (p, .error (.diagnostic d))
  | waits (p m s) : p.name = current.name → Started ev left cache p → Waits ev left p m →
      ¬cache.Known m → TopResult sys cache current (p, .error (.dependency m s))

variable {ev left}

theorem resumeTop_spec (R : ev.Refines base sys left) {cache : ConstantValues}
    (hs : Sound ev base sys cache) {current : Pending State} (hfresh : ¬cache.Known current.name)
    (hstarted : Started ev left cache current) :
    TopResult ev left sys cache current (resumeTop ev cache current) := by
  have hbase := hs.lookup_base hfresh
  unfold resumeTop
  cases hdef : ev.definitions.lookup current.name with
  | none =>
    have hsys := R.undefined hbase hdef
    refine .failed _ _ rfl ⟨_, .refl, .unknown current.usage hsys⟩ fun m hd => ?_
    obtain ⟨t, ht, -⟩ := hd
    simp [hsys] at ht
  | some definition =>
    have hsys := R.initial hbase hdef
    have hl := hs.soundLookup
    set state := current.state.getD (ev.initialState definition) with hstate
    -- what is answered already, and what this run answers
    have hbefore := hstarted definition hdef
    have hnow := run_answered cache.lookup (left current.name definition state)
    have hclosed : ∀ t', Answered cache.lookup (left current.name definition state) t' →
        (∀ m, Asks sys t' m → cache.Known m) → ∀ m, Demands sys current.name m → cache.Known m := by
      rintro t' ha hask m ⟨t, ht, hm⟩
      obtain rfl := Option.some.inj (hsys.symm.trans ht)
      rcases (hbefore.trans ha).of_asks hl hm with ⟨s, v, hv⟩ | hm
      · exact known_iff.mpr (.inl ⟨v, lookup_eq_ok.mp hv⟩)
      · exact hask m hm
    have hres := R.resumes current.name definition state cache
    simp only [← hstate]
    revert hnow hres
    generalize ev.initializer current.name definition state cache = result
    obtain ⟨state', result⟩ := result
    cases run cache.lookup (left current.name definition state) with
    | done v =>
      intro hnow hresult
      obtain rfl : result = _ := hresult
      refine .value _ v (computes_iff.mpr ⟨_, hsys, ?_⟩) (hclosed _ hnow fun m hm => by cases hm)
      exact ((hbefore.trans hnow).yields_iff hl).mpr (.done v)
    | fail d =>
      intro hnow hresult
      obtain rfl : result = _ := hresult
      refine .failed _ d rfl ⟨_, .refl, .own hsys ?_⟩ (hclosed _ hnow fun m hm => by cases hm)
      exact (hbefore.trans hnow).fails hl (.fail d)
    | stop m s k e =>
      rintro ⟨hnow, hlook⟩ ⟨hresult, hleft⟩
      obtain rfl : result = _ := hresult
      have hasks : Demands sys current.name m :=
        ⟨_, hsys, (hbefore.trans hnow).asks hl .here⟩
      cases e with
      | diagnostic d =>
        have hm := lookup_eq_diagnostic hlook
        have hfm := hs.failures hm
        refine .failed _ d rfl ?_ (hclosed _ hnow fun m' hm' => ?_)
        · obtain ⟨c, hreach, hc⟩ := hfm
          exact ⟨c, .head hasks hreach, hc⟩
        · cases hm' with
          | here => exact known_iff.mpr (.inr ⟨d, hm⟩)
          | later hc _ => exact absurd hc (hfm.not_computes _)
      | dependency m' s' =>
        obtain ⟨rfl, rfl, hnot⟩ := lookup_eq_dependency hlook
        refine .waits _ _ _ rfl (fun definition' hdef' => ?_) ⟨definition, s', k, hdef, hleft⟩ hnot
        obtain rfl := Option.some.inj (hdef.symm.trans hdef')
        simp only [Option.getD_some, hleft]
        exact hbefore.trans hnow

@[simp] theorem order_cons (p : Pending State) (below : List (Pending State)) :
    order (p :: below) = order below ++ [p.name] := by
  simp [order]

theorem mem_order {p : Pending State} {pending : List (Pending State)} (h : p ∈ pending) :
    p.name ∈ order pending := by
  simpa [order] using ⟨p, h, rfl⟩

theorem length_order (pending : List (Pending State)) : (order pending).length = pending.length := by
  simp [order]

theorem demands_of_waits (R : ev.Refines base sys left) {cache : ConstantValues}
    (hs : Sound ev base sys cache) {p : Pending State} (hfresh : ¬cache.Known p.name)
    (hstarted : Started ev left cache p) {m : String} (hw : Waits ev left p m) :
    Demands sys p.name m := by
  obtain ⟨definition, s, k, hdef, hleft⟩ := hw
  have hbase := hs.lookup_base hfresh
  refine ⟨_, R.initial hbase hdef, (hstarted definition hdef).asks hs.soundLookup ?_⟩
  rw [hleft]
  exact .here

/-- If `m` has no value, what waits for it demands nothing else that is unknown. -/
theorem demands_waits (R : ev.Refines base sys left) {cache : ConstantValues}
    (hs : Sound ev base sys cache) {p : Pending State} (hfresh : ¬cache.Known p.name)
    (hstarted : Started ev left cache p) {m : String} (hw : Waits ev left p m)
    (hm : ∀ v, ¬Computes sys m v) : ∀ n, Demands sys p.name n → n = m ∨ cache.Known n := by
  rintro n ⟨t, ht, hn⟩
  obtain ⟨definition, s, k, hdef, hleft⟩ := hw
  have hbase := hs.lookup_base hfresh
  obtain rfl := Option.some.inj ((R.initial hbase hdef).symm.trans ht)
  rcases (hstarted definition hdef).of_asks hs.soundLookup hn with ⟨s, v, hv⟩ | hn
  · exact .inr (known_iff.mpr (.inl ⟨v, lookup_eq_ok.mp hv⟩))
  · rw [hleft] at hn
    cases hn with
    | here => exact .inl rfl
    | later hc _ => exact absurd hc (hm _)

namespace Stack

variable {root : String} {cache : ConstantValues} {current p : Pending State}
  {below pending : List (Pending State)} {active : HashMap ℕ}

/-- Along the stack each declaration demands the next one. -/
theorem chain (R : ev.Refines base sys left) (hs : Sound ev base sys cache)
    (h : Stack ev left root cache pending active) : (order pending).IsChain (Demands sys) := by
  rw [order, List.isChain_reverse, List.isChain_map]
  exact h.waits.imp_of_mem_imp fun upper lower _ hl hw =>
    demands_of_waits R hs (h.fresh lower hl) (h.started lower hl) hw

/-- Everything on the stack demands its top, through others. -/
theorem reaches_top (R : ev.Refines base sys left) (hs : Sound ev base sys cache)
    (h : Stack ev left root cache (current :: below) active) :
    ∀ n ∈ order (current :: below), Relation.ReflTransGen (Demands sys) n current.name := by
  have hpair := List.isChain_iff_pairwise.mp
    ((h.chain R hs).imp fun _ _ hd => Relation.ReflTransGen.single hd)
  rw [order_cons, List.pairwise_append] at hpair
  intro n hn
  rw [order_cons, List.mem_append, List.mem_singleton] at hn
  rcases hn with hn | rfl
  · exact hpair.2.2 n hn _ (List.mem_singleton_self _)
  · exact .refl

/-- The bottom of the stack demands everything on it, through others. -/
theorem reaches_of_root (R : ev.Refines base sys left) (hs : Sound ev base sys cache)
    (h : Stack ev left root cache pending active) :
    ∀ n ∈ order pending, Relation.ReflTransGen (Demands sys) root n := by
  have hpair := List.isChain_iff_pairwise.mp
    ((h.chain R hs).imp fun _ _ hd => Relation.ReflTransGen.single hd)
  obtain ⟨rest, hrest⟩ := List.head?_eq_some_iff.mp h.root
  rw [hrest] at hpair ⊢
  intro n hn
  rcases List.mem_cons.mp hn with rfl | hn
  · exact .refl
  · exact List.rel_of_pairwise_cons hpair hn

theorem root_mem (h : Stack ev left root cache pending active) : root ∈ order pending :=
  List.mem_of_mem_head? h.root

/-- The top has its value : the one below it is resumed. -/
theorem pop (h : Stack ev left root cache (current :: below) active) (hbelow : below ≠ [])
    (v : ConstantValue) : Stack ev left root (cache.addValue current.name v) below
      (active.erase current.name) := by
  have hext := extends_addValue (h.fresh current List.mem_cons_self) v
  have hnodup := h.nodup
  rw [order_cons, List.nodup_append] at hnodup
  have hne : ∀ n ∈ order below, n ≠ current.name := fun n hn =>
    hnodup.2.2 n hn _ (List.mem_singleton_self _)
  refine ⟨fun p hp hk => ?_, fun p hp definition hdef => ?_, h.waits.tail, hnodup.1, ?_,
    fun n i => ?_⟩
  · rcases known_addValue.mp hk with heq | hk
    · exact hne _ (mem_order hp) heq
    · exact h.fresh p (List.mem_cons_of_mem _ hp) hk
  · exact hext.answered (h.started p (List.mem_cons_of_mem _ hp) definition hdef)
  · have hroot := h.root
    rw [order_cons, List.head?_append_of_ne_nil] at hroot
    · exact hroot
    · simpa [order] using hbelow
  · have hactive := h.active n i
    rw [order_cons] at hactive
    by_cases hn : n = current.name
    · subst hn
      rw [AList.lookup_erase]
      refine iff_of_false (by simp) fun hget => ?_
      exact hne _ (List.mem_of_getElem? hget) rfl
    · rw [AList.lookup_erase_ne hn, hactive, List.getElem?_append]
      split
      · rfl
      · next hi =>
        rw [List.getElem?_eq_none (Nat.le_of_not_lt hi)]
        refine iff_of_false (fun hget => ?_) (by simp)
        exact hn (List.mem_singleton.mp (List.mem_of_getElem? hget))

/-- The top is resumed and suspended again. -/
theorem suspend (h : Stack ev left root cache (current :: below) active)
    (hname : p.name = current.name) (hstarted : Started ev left cache p) :
    Stack ev left root cache (p :: below) active := by
  have horder : order (p :: below) = order (current :: below) := by simp [hname]
  refine ⟨?_, ?_, ?_, horder ▸ h.nodup, horder ▸ h.root, horder ▸ h.active⟩
  · have := h.fresh
    simp only [List.forall_mem_cons] at this ⊢
    exact ⟨hname ▸ this.1, this.2⟩
  · have := h.started
    simp only [List.forall_mem_cons] at this ⊢
    exact ⟨hstarted, this.2⟩
  · have := h.waits
    cases below with
    | nil => exact List.isChain_singleton _
    | cons q below =>
      rw [List.isChain_cons_cons] at this ⊢
      rwa [hname]

/-- The top waits for a name that is neither known nor on the stack. -/
theorem push (h : Stack ev left root cache pending active) {m : String}
    (hw : ∀ p ∈ pending.head?, Waits ev left p m) (hm : ¬cache.Known m)
    (hactive : active.lookup m = none) (usage : Span) :
    Stack ev left root cache (⟨m, usage, none⟩ :: pending) (active.insert m pending.length) := by
  have hnotMem : m ∉ order pending := by
    intro hmem
    obtain ⟨i, hi⟩ := List.mem_iff_getElem?.mp hmem
    simp [(h.active m i).mpr hi] at hactive
  refine ⟨?_, ?_, List.isChain_cons.mpr ⟨hw, h.waits⟩, ?_, ?_, fun n i => ?_⟩
  · exact List.forall_mem_cons.mpr ⟨hm, h.fresh⟩
  · exact List.forall_mem_cons.mpr ⟨fun _ _ => .refl _, h.started⟩
  · rw [order_cons, List.nodup_append]
    refine ⟨h.nodup, List.nodup_singleton _, fun n hn k hk => ?_⟩
    obtain rfl := List.mem_singleton.mp hk
    rintro rfl
    exact hnotMem hn
  · rw [order_cons, List.head?_append, h.root, Option.some_or]
  · rw [order_cons, List.getElem?_append, length_order]
    by_cases hn : n = m
    · subst hn
      rw [AList.lookup_insert]
      split
      · next hi =>
        refine iff_of_false (fun heq => ?_) fun hget => hnotMem (List.mem_of_getElem? hget)
        simp only [Option.some.injEq] at heq
        omega
      · next hi =>
        simp only [Option.some.injEq, List.getElem?_singleton]
        split <;> simp <;> omega
    · rw [AList.lookup_insert_ne hn, h.active]
      split
      · rfl
      · next hi =>
        rw [List.getElem?_eq_none (by rw [length_order]; omega)]
        refine iff_of_false (by simp) fun hget => ?_
        exact hn (List.mem_singleton.mp (List.mem_of_getElem? hget))

/-- Below the top of the stack, every declaration waits for another one on it. -/
theorem waits_below (h : Stack ev left root cache (current :: below) active) :
    ∀ p ∈ below, ∃ upper ∈ current :: below, Waits ev left p upper.name := by
  have hw := h.waits
  clear h
  induction below generalizing current with
  | nil => simp
  | cons q below ih =>
    rw [List.isChain_cons_cons] at hw
    intro p hp
    rcases List.mem_cons.mp hp with rfl | hp
    · exact ⟨current, List.mem_cons_self, hw.1⟩
    · obtain ⟨upper, hu, hwu⟩ := ih hw.2 p hp
      exact ⟨upper, List.mem_cons_of_mem _ hu, hwu⟩

/-- Everything on the stack fails with its top. -/
theorem fail (R : ev.Refines base sys left) (hs : Sound ev base sys cache)
    (h : Stack ev left root cache (current :: below) active) {d : Diagnostic}
    (hfail : FailsWith ev.definitions ev.phase sys current.name d)
    (hclosed : ∀ m, Demands sys current.name m →
      m ∈ order (current :: below) ∨ cache.Known m) :
    Sound ev base sys (cache.failAll (order (current :: below)) d) := by
  have hall : ∀ n ∈ order (current :: below), FailsWith ev.definitions ev.phase sys n d := by
    intro n hn
    obtain ⟨c, hreach, hc⟩ := hfail
    exact ⟨c, (h.reaches_top R hs n hn).trans hreach, hc⟩
  refine hs.failAll h.nodup hall fun n hn m hd => ?_
  -- what a suspended declaration asks was answered, or is the failing one above it
  obtain ⟨p, hp, rfl⟩ : ∃ p ∈ current :: below, p.name = n := by
    simpa [order, or_comm, eq_comm] using hn
  rcases List.mem_cons.mp hp with rfl | hbelow
  · exact hclosed m hd
  · obtain ⟨upper, hupper, hw⟩ := h.waits_below p hbelow
    have hno := (hall _ (mem_order hupper)).not_computes
    rcases demands_waits R hs (h.fresh p hp) (h.started p hp) hw hno m hd with rfl | hk
    · exact .inl (mem_order hupper)
    · exact .inr hk

end Stack

/-! ### The loop -/

/-- The definitions that have no value yet. -/
def unfinished (ev : Evaluator State) (cache : ConstantValues) : List String :=
  ev.definitions.keys.filter fun n => !decide (n ∈ cache.values)

theorem unfinished_addValue {cache : ConstantValues} {n : String} (v : ConstantValue)
    (hdef : n ∈ ev.definitions) (hn : ¬cache.Known n) :
    (unfinished ev (cache.addValue n v)).length < (unfinished ev cache).length := by
  have hsub : unfinished ev (cache.addValue n v) =
      (unfinished ev cache).filter fun m => !decide (m = n) := by
    simp only [unfinished, addValue, AList.mem_insert, List.filter_filter]
    congr 1
    funext m
    by_cases hm : m = n <;> simp [hm]
  rw [hsub, List.length_filter_lt_length_iff_exists]
  refine ⟨n, ?_, by simp⟩
  simpa [unfinished, hdef, ← AList.mem_keys] using fun h => hn (.inl h)

/-- Everything below the top of the stack is a definition without a value. -/
theorem Stack.length_below_le {root : String} {cache : ConstantValues} {current : Pending State}
    {below : List (Pending State)} {active : HashMap ℕ}
    (h : Stack ev left root cache (current :: below) active) :
    below.length ≤ (unfinished ev cache).length := by
  have hnodup := h.nodup
  rw [order_cons, List.nodup_append] at hnodup
  rw [← length_order]
  refine (List.subperm_of_subset hnodup.1 fun n hn => ?_).length_le
  obtain ⟨p, hp, rfl⟩ : ∃ p ∈ below, p.name = n := by simpa [order] using hn
  obtain ⟨upper, -, definition, s, k, hdef, -⟩ := h.waits_below p hp
  have hmem : p.name ∈ ev.definitions := AList.lookup_isSome.mp (by simp [hdef])
  have hfresh : p.name ∉ cache.values := fun hv =>
    h.fresh p (List.mem_cons_of_mem _ hp) (.inl hv)
  simpa [unfinished, hfresh, ← AList.mem_keys] using hmem

/-- What a request leaves : a sound cache with an entry for the name requested, which the
result repeats, and new entries only for what that name demands. -/
structure Answers (ev : Evaluator State) (base : HashMap ConstantValue)
    (sys : String → Option (ConstantDemand ConstantValue)) (root : String)
    (cache cache' : ConstantValues) (result : Except Diagnostic ConstantValue) : Prop where
  sound : Sound ev base sys cache'
  extend : Extends cache cache'
  known : ∀ n, cache'.Known n → cache.Known n ∨ Relation.ReflTransGen (Demands sys) root n
  result : match result with
    | .ok v => cache'.values.lookup root = some v
    | .error d => cache'.failures.lookup root = some d

theorem cycleFrom_eq (pending : List (Pending State)) (start : ℕ) :
    cycleFrom pending start = (order pending).drop start := by
  simp [cycleFrom, order, List.drop_reverse, List.map_take]

/-- The top of the stack waits for a declaration on it : they are on a cycle. -/
theorem Stack.culprit_cycle (R : ev.Refines base sys left) {root : String}
    {cache : ConstantValues} {p : Pending State} {below : List (Pending State)}
    {active : HashMap ℕ} (hs : Sound ev base sys cache)
    (h : Stack ev left root cache (p :: below) active) {m : String} (hw : Waits ev left p m)
    {start : ℕ} (hstart : active.lookup m = some start) {definition : ConstantDefinition}
    (hdef : ev.definitions.lookup m = some definition) :
    Culprit ev.definitions ev.phase sys m
      (cyclicConstant ev.phase (cycleFrom (p :: below) start ++ [m]) definition.span) := by
  have hget := (h.active m start).mp hstart
  have hd := demands_of_waits R hs (h.fresh p List.mem_cons_self)
    (h.started p List.mem_cons_self) hw
  obtain ⟨hlt, hm⟩ := List.getElem?_eq_some_iff.mp hget
  have hdrop : (order (p :: below)).drop start = m :: (order (p :: below)).drop (start + 1) := by
    rw [List.drop_eq_getElem_cons hlt, hm]
  rw [cycleFrom_eq, hdrop]
  refine .cycle _ ?_ hdef
  rw [← hdrop]
  have hlast : ((order (p :: below)).drop start).getLast? = some p.name := by
    rw [List.getLast?_drop, if_neg (by omega), order_cons, List.getLast?_concat]
  rw [List.isChain_append]
  refine ⟨(h.chain R hs).drop start, List.isChain_singleton _, fun x hx y hy => ?_⟩
  rw [hlast] at hx
  obtain rfl : p.name = x := by simpa using hx
  obtain rfl : m = y := by simpa using hy
  exact hd

/-- With enough rounds left, the loop ends and answers the request. -/
theorem loop_spec (R : ev.Refines base sys left) {root : String} (fuel : ℕ)
    {cache : ConstantValues} {pending : List (Pending State)} {active : HashMap ℕ}
    (hs : Sound ev base sys cache) (h : Stack ev left root cache pending active)
    (hfuel : 2 * (unfinished ev cache).length + 2 ≤ fuel + pending.length) :
    ∃ cache' result, loop ev root fuel cache pending active = some (cache', result) ∧
      Answers ev base sys root cache cache' result := by
  induction fuel generalizing cache pending active with
  | zero =>
    cases pending with
    | nil => simpa [order] using h.root
    | cons current below =>
      have := h.length_below_le
      simp only [List.length_cons] at hfuel
      omega
  | succ fuel ih =>
    cases pending with
    | nil => simpa [order] using h.root
    | cons current below =>
      have hfresh := h.fresh current List.mem_cons_self
      have htop := resumeTop_spec R hs hfresh (h.started current List.mem_cons_self)
      -- failing with `d` ends the loop
      have hfail : ∀ {d}, FailsWith ev.definitions ev.phase sys current.name d →
          (∀ m, Demands sys current.name m → m ∈ order (current :: below) ∨ cache.Known m) →
          Answers ev base sys root cache (cache.failAll (order (current :: below)) d) (.error d) := by
        intro d hd hclosed
        refine ⟨h.fail R hs hd hclosed, extends_failAll h.nodup, fun n hn => ?_,
          lookup_failAll_of_mem h.nodup h.root_mem⟩
        rcases (known_failAll h.nodup).mp hn with hn | hn
        · exact .inr (h.reaches_of_root R hs n hn)
        · exact .inl hn
      rw [loop]
      generalize resumeTop ev cache current = top at htop
      cases htop with
      | value p v hv hclosed =>
        have hs' := hs.addValue hfresh hv hclosed
        have hext := extends_addValue hfresh v
        have hroot := h.reaches_of_root R hs current.name (mem_order List.mem_cons_self)
        simp only
        cases below with
        | nil =>
          obtain rfl : current.name = root := by simpa [order] using h.root
          have hlook : (cache.addValue current.name v).values.lookup current.name = some v :=
            AList.lookup_insert _
          refine ⟨_, .ok v, by simp only [hlook, Option.map_some], hs', hext, fun n hn => ?_, hlook⟩
          rcases known_addValue.mp hn with rfl | hn
          · exact .inr .refl
          · exact .inl hn
        | cons lower below =>
          have hdef : current.name ∈ ev.definitions := by
            obtain ⟨t, ht, -⟩ := computes_iff.mp hv
            by_contra hno
            simp [R.undefined (hs.lookup_base hfresh) (AList.lookup_eq_none.mpr hno)] at ht
          have hless := unfinished_addValue v hdef hfresh
          obtain ⟨cache', result, hloop, hans⟩ := ih hs' (h.pop (by simp) v) (by
            simp only [List.length_cons] at hfuel ⊢
            omega)
          refine ⟨cache', result, hloop, hans.sound, hext.trans hans.extend, fun n hn => ?_,
            hans.result⟩
          rcases hans.known n hn with hn | hn
          · rcases known_addValue.mp hn with rfl | hn
            · exact .inr hroot
            · exact .inl hn
          · exact .inr hn
      | failed p d hname hd hclosed =>
        refine ⟨_, _, rfl, ?_⟩
        simpa [order, hname] using hfail hd fun m hm => .inr (hclosed m hm)
      | waits p m s hname hstarted hw hm =>
        have h' := h.suspend hname hstarted
        simp only
        cases hactive : active.lookup m with
        | none =>
          obtain ⟨cache', result, hloop, hans⟩ :=
            ih hs (h'.push (by simpa using hw) hm hactive s) (by
              simp only [List.length_cons] at hfuel ⊢
              omega)
          exact ⟨cache', result, hloop, hans⟩
        | some start =>
          have hmem : m ∈ order (p :: below) :=
            List.mem_of_getElem? ((h'.active m start).mp hactive)
          obtain ⟨definition, hdef⟩ : ∃ definition, ev.definitions.lookup m = some definition := by
            obtain ⟨q, hq, rfl⟩ : ∃ q ∈ p :: below, q.name = m := by
              simpa [order, or_comm, eq_comm] using hmem
            rcases List.mem_cons.mp hq with rfl | hq
            · obtain ⟨definition, s, k, hdef, -⟩ := hw
              exact ⟨definition, hdef⟩
            · obtain ⟨upper, -, definition, s, k, hdef, -⟩ := h'.waits_below q hq
              exact ⟨definition, hdef⟩
          have hc := h'.culprit_cycle R hs hw hactive hdef
          have hclosed := demands_waits R hs (h'.fresh p List.mem_cons_self) hstarted hw
            hc.not_computes
          have hd := demands_of_waits R hs (h'.fresh p List.mem_cons_self) hstarted hw
          have horder : order (p :: below) = order (current :: below) := by simp [hname]
          rw [hname] at hd hclosed
          refine ⟨cache.failAll (order (p :: below)) _, _, by simp only [hdef]; rfl, ?_⟩
          rw [horder]
          refine hfail ⟨m, .single hd, hc⟩ fun m' hm' => ?_
          rcases hclosed m' hm' with rfl | hk
          · exact .inl (horder ▸ hmem)
          · exact .inr hk

/-! ### Requests -/

/-- The cache a phase starts with is sound. -/
theorem sound_new (R : ev.Refines base sys left) : Sound ev base sys ⟨base, ∅⟩ := by
  refine ⟨id, fun hv => .intro (R.predefined hv) (.done _), fun hd => by simp at hd, ?_⟩
  rintro n m hn ⟨t, ht, hm⟩
  rcases known_iff.mp hn with ⟨v, hv⟩ | ⟨d, hd⟩
  · obtain rfl := Option.some.inj ((R.predefined hv).symm.trans ht)
    cases hm
  · simp at hd

/-- The stack of a new request. -/
theorem stack_start {cache : ConstantValues} {name : String} (hnew : ¬cache.Known name)
    (span : Span) : Stack ev left name cache [⟨name, span, none⟩] (AList.singleton name 0) := by
  refine ⟨by simpa using hnew, ?_, List.isChain_singleton _, by simp [order], by simp [order],
    fun n i => ?_⟩
  · simp only [List.mem_singleton, forall_eq]
    exact fun _ _ => .refl _
  · by_cases hn : n = name
    · subst hn
      rw [← AList.insert_empty, AList.lookup_insert]
      cases i <;> simp [order]
    · rw [← AList.insert_empty, AList.lookup_insert_ne hn]
      cases i <;> simp [order, Ne.symm hn]

/-- Every request is answered : the scheduler never runs out of rounds, and never looks up
a declaration that is missing. -/
theorem evaluate_spec (R : ev.Refines base sys left) {cache : ConstantValues}
    (hs : Sound ev base sys cache) (name : String) (span : Span) :
    ∃ cache' result, evaluate ev cache name span = some (cache', result) ∧
      Answers ev base sys name cache cache' result := by
  unfold evaluate
  cases hlook : cache.lookup name span with
  | ok v => exact ⟨_, _, rfl, hs, .refl _, fun _ => .inl, lookup_eq_ok.mp hlook⟩
  | error e =>
    cases e with
    | diagnostic d => exact ⟨_, _, rfl, hs, .refl _, fun _ => .inl, lookup_eq_diagnostic hlook⟩
    | dependency m s =>
      obtain ⟨rfl, rfl, hnot⟩ := lookup_eq_dependency hlook
      refine loop_spec R _ hs (stack_start hnot s) ?_
      have : (unfinished ev cache).length ≤ ev.definitions.keys.length :=
        List.length_filter_le _ _
      simp only [rounds, List.length_singleton]
      omega

/-- The answer to a request is the lazy value, if there is one. -/
theorem Answers.ok_iff {root : String} {cache cache' : ConstantValues}
    {result : Except Diagnostic ConstantValue} (h : Answers ev base sys root cache cache' result)
    (v : ConstantValue) : result = .ok v ↔ Computes sys root v := by
  have hr := h.result
  cases result with
  | ok w =>
    have hw := h.sound.values hr
    exact ⟨fun heq => by cases heq; exact hw, fun hv => by rw [hw.unique hv]⟩
  | error d => exact iff_of_false (by simp) ((h.sound.failures hr).not_computes v)

theorem Answers.failsWith {root : String} {cache cache' : ConstantValues} {d : Diagnostic}
    (h : Answers ev base sys root cache cache' (.error d)) :
    FailsWith ev.definitions ev.phase sys root d :=
  h.sound.failures h.result

/-- A request that is answered with a value adds no failure. -/
theorem Answers.failures_eq {root : String} {cache cache' : ConstantValues} {v : ConstantValue}
    (h : Answers ev base sys root cache cache' (.ok v)) (hnone : cache.failures = ∅) :
    cache'.failures = ∅ := by
  by_contra hne
  obtain ⟨n, hn⟩ : ∃ n, n ∈ cache'.failures := by
    by_contra hall
    refine hne (AList.ext (List.eq_nil_iff_forall_not_mem.mpr fun entry hentry => ?_))
    exact hall ⟨entry.1, AList.mem_keys.mpr (List.mem_map_of_mem hentry)⟩
  have hknown : cache'.Known n := .inr hn
  have hno := (h.sound.mem_failures_iff hknown).mp hn
  rcases h.known n hknown with hold | hreach
  · rcases known_iff.mp hold with ⟨w, hw⟩ | ⟨d, hd⟩
    · exact hno w (h.sound.values (h.extend.values hw))
    · simp [hnone] at hd
  · exact not_computes_of_reaches hreach hno v ((h.ok_iff v).mp rfl)

/-- A sequence of requests, over one cache. -/
def evaluateAll (ev : Evaluator State) (cache : ConstantValues) :
    List (String × Span) → Option (ConstantValues × List (Except Diagnostic ConstantValue))
  | [] => some (cache, [])
  | (name, span) :: requests => do
    let (cache, result) ← evaluate ev cache name span
    let (cache, results) ← evaluateAll ev cache requests
    return (cache, result :: results)

end ConstantValues

/-- The results and the cache of a sequence of requests are those of the lazy semantics :
the cache holds what the requested names demand, with the lazy values and, for the names
without one, the diagnostic of a culprit that they demand. -/
structure ComputesLazily (definitions : HashMap ConstantDefinition) (phase : Phase)
    (base : HashMap ConstantValue) (sys : String → Option (ConstantDemand ConstantValue))
    (requests : List (String × Span)) (cache : ConstantValues)
    (results : List (Except Diagnostic ConstantValue)) : Prop where
  answers : List.Forall₂ (fun request result =>
    (∀ v, result = .ok v ↔ Computes sys request.1 v) ∧
      ∀ d, result = .error d → FailsWith definitions phase sys request.1 d) requests results
  values : ∀ n v, cache.values.lookup n = some v ↔ Computes sys n v ∧
    (n ∈ base ∨ ∃ r ∈ requests, Relation.ReflTransGen (Demands sys) r.1 n)
  failing : ∀ n, n ∈ cache.failures ↔ (∀ v, ¬Computes sys n v) ∧
    ∃ r ∈ requests, Relation.ReflTransGen (Demands sys) r.1 n
  blamed : ∀ n d, cache.failures.lookup n = some d → FailsWith definitions phase sys n d

namespace ConstantValues

variable {ev base sys left}

theorem evaluateAll_spec (R : ev.Refines base sys left) {cache : ConstantValues}
    (hs : Sound ev base sys cache) (requests : List (String × Span)) :
    ∃ cache' results, evaluateAll ev cache requests = some (cache', results) ∧
      Sound ev base sys cache' ∧ Extends cache cache' ∧
      (∀ n, cache'.Known n ↔ cache.Known n ∨
        ∃ r ∈ requests, Relation.ReflTransGen (Demands sys) r.1 n) ∧
      List.Forall₂ (fun request result => (∀ v, result = .ok v ↔ Computes sys request.1 v) ∧
        ∀ d, result = .error d → FailsWith ev.definitions ev.phase sys request.1 d)
        requests results := by
  induction requests generalizing cache with
  | nil => exact ⟨cache, [], rfl, hs, .refl _, by simp, .nil⟩
  | cons request requests ih =>
    obtain ⟨name, span⟩ := request
    obtain ⟨cache', result, heval, hans⟩ := evaluate_spec R hs name span
    obtain ⟨cache'', results, hall, hs'', hext, hknown, hres⟩ := ih hans.sound
    have hroot : cache'.Known name := by
      have hr := hans.result
      cases result with
      | ok v => exact known_iff.mpr (.inl ⟨v, hr⟩)
      | error d => exact known_iff.mpr (.inr ⟨d, hr⟩)
    refine ⟨cache'', result :: results, by simp [evaluateAll, heval, hall], hs'',
      hans.extend.trans hext, fun n => ?_, .cons ⟨hans.ok_iff, ?_⟩ hres⟩
    · rw [hknown]
      constructor
      · rintro (hn | ⟨r, hr, hreach⟩)
        · rcases hans.known n hn with hn | hn
          · exact .inl hn
          · exact .inr ⟨_, List.mem_cons_self, hn⟩
        · exact .inr ⟨r, List.mem_cons_of_mem _ hr, hreach⟩
      · rintro (hn | ⟨r, hr, hreach⟩)
        · exact .inl (hans.extend.known hn)
        · rcases List.mem_cons.mp hr with rfl | hr
          · exact .inl (hans.sound.known_of_reaches hroot hreach)
          · exact .inr ⟨r, hr, hreach⟩
    · rintro d rfl
      exact hans.failsWith

/-- From its initial cache, a phase computes the lazy semantics of any sequence of requests. -/
theorem requests_spec (R : ev.Refines base sys left) (requests : List (String × Span)) :
    ∃ cache results, evaluateAll ev ⟨base, ∅⟩ requests = some (cache, results) ∧
      ComputesLazily ev.definitions ev.phase base sys requests cache results := by
  obtain ⟨cache, results, hall, hs, -, hknown, hres⟩ := evaluateAll_spec R (sound_new R) requests
  have hbase : ∀ n, (⟨base, ∅⟩ : ConstantValues).Known n ↔ n ∈ base := by
    intro n
    simp [Known]
  refine ⟨cache, results, hall, hres, fun n v => ?_, fun n => ?_, fun n d => hs.failures⟩
  · constructor
    · intro hv
      have hk : cache.Known n := known_iff.mpr (.inl ⟨v, hv⟩)
      exact ⟨hs.values hv, by rwa [hknown, hbase] at hk⟩
    · rintro ⟨hc, hk⟩
      rw [← hbase, ← hknown] at hk
      exact (hs.computes_iff hk).mpr hc
  · constructor
    · intro hn
      have hk : cache.Known n := .inr hn
      have hno := (hs.mem_failures_iff hk).mp hn
      refine ⟨hno, ?_⟩
      rw [hknown, hbase] at hk
      refine hk.resolve_left fun hb => ?_
      obtain ⟨v, hv⟩ := Option.isSome_iff_exists.mp (AList.lookup_isSome.mpr hb)
      exact hno v (hs.values (hs.predefined hv))
    · rintro ⟨hno, hreach⟩
      have hk : cache.Known n := (hknown n).mpr (.inr hreach)
      exact (hs.mem_failures_iff hk).mpr hno

end ConstantValues

end Refinement

end Speck
