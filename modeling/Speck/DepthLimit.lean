import Speck.AggregateDepth
import Speck.CacheEntries
import Speck.Sema

/-!
# The depth limit of constants

No value of depth above 128 is ever cached, returned or placed in a checked program
(`ConstantValues.Shallow`), in either phase and for any requests. Where a literal is refused for
its depth does not depend on what evaluates it : the entries of a cache and the initializers of
globals are direct evaluations (`entry_direct`, `evaluateInitializer_value`), and there a literal
with values for its elements is built unless it is too deep.
-/

set_option linter.unusedSectionVars false

namespace Speck

open Demand

/-! ## Caches -/

/-- Every cached value is of limited depth. -/
def ConstantValues.Shallow (cache : ConstantValues) : Prop :=
  ∀ name value, cache.values.lookup name = some value → value.Shallow

/-- The initializers of a phase keep their states `good`, and give shallow values. -/
structure Evaluator.KeepsShallow {State : Type} (ev : Evaluator State) (good : State → Prop) :
    Prop where
  initial : ∀ definition, good (ev.initialState definition)
  initializer : ∀ name definition state cache, good state → cache.Shallow →
    good (ev.initializer name definition state cache).1 ∧
      ∀ value, (ev.initializer name definition state cache).2 = .ok value → value.Shallow

namespace ConstantValues

theorem Shallow.addValue {cache : ConstantValues} (h : cache.Shallow) (name : String)
    {value : ConstantValue} (hvalue : value.Shallow) : (cache.addValue name value).Shallow := by
  intro other found hfound
  unfold ConstantValues.addValue at hfound
  by_cases hother : other = name
  · subst hother
    rw [AList.lookup_insert] at hfound
    exact Option.some.inj hfound ▸ hvalue
  · rw [AList.lookup_insert_ne hother] at hfound
    exact h other found hfound

theorem Shallow.lookup {cache : ConstantValues} (h : cache.Shallow) (name : String) (span : Span)
    (value : ConstantValue) (hvalue : cache.lookup name span = .ok value) : value.Shallow :=
  h name value (lookup_eq_ok.mp hvalue)

theorem shallow_new (resolution : Resolution) : (ConstantValues.new resolution).Shallow := by
  intro name value hvalue
  obtain ⟨item, hitem, -, rfl⟩ := lookup_predefinedValues hvalue
  obtain ⟨i, hi⟩ := Builtins.exists_i32_of_mem_constants hitem
  rw [hi]
  exact ConstantValue.shallow_of_depth rfl

section

variable {State : Type} {ev : Evaluator State} {good : State → Prop}

theorem shallow_resumeTop (K : ev.KeepsShallow good) {cache : ConstantValues}
    (hcache : cache.Shallow) {current p : Pending State}
    {result : Except EvaluationError ConstantValue}
    (hcurrent : ∀ state, current.state = some state → good state)
    (h : resumeTop ev cache current = (p, result)) :
    (∀ state, p.state = some state → good state) ∧
      ∀ value, result = .ok value → value.Shallow := by
  unfold resumeTop at h
  split at h
  · next definition hdef =>
    obtain ⟨rfl, rfl⟩ := Prod.mk.inj h
    have hstate : good (current.state.getD (ev.initialState definition)) := by
      cases hcase : current.state with
      | none => exact K.initial definition
      | some state => exact hcurrent state hcase
    obtain ⟨hgood, hvalue⟩ := K.initializer current.name definition _ cache hstate hcache
    exact ⟨fun state hs => Option.some.inj hs ▸ hgood, hvalue⟩
  · obtain ⟨rfl, rfl⟩ := Prod.mk.inj h
    exact ⟨hcurrent, nofun⟩

/-- The loop caches shallow values only, whatever it is called with. -/
theorem loop_shallow (K : ev.KeepsShallow good) {root : String} (fuel : ℕ)
    {cache cache' : ConstantValues} {pending : List (Pending State)} {active : HashMap ℕ}
    {result : Except Diagnostic ConstantValue} (hcache : cache.Shallow)
    (hpending : ∀ p ∈ pending, ∀ state, p.state = some state → good state)
    (h : loop ev root fuel cache pending active = some (cache', result)) :
    cache'.Shallow ∧ ∀ value, result = .ok value → value.Shallow := by
  induction fuel generalizing cache pending active with
  | zero => cases h
  | succ fuel ih =>
    cases pending with
    | nil => cases h
    | cons current below =>
      obtain ⟨hcurrent, hbelow⟩ := List.forall_mem_cons.mp hpending
      rw [loop] at h
      cases htop : resumeTop ev cache current with
      | mk p top =>
        obtain ⟨hp, hvalue⟩ := shallow_resumeTop K hcache hcurrent htop
        rw [htop] at h
        rcases top with (d | ⟨name, span⟩) | value
        · obtain ⟨rfl, rfl⟩ := Prod.mk.inj (Option.some.inj h)
          exact ⟨hcache, by rintro _ ⟨⟩⟩
        · dsimp only at h
          split at h
          · obtain ⟨definition, -, heq⟩ := Option.map_eq_some_iff.mp h
            obtain ⟨rfl, rfl⟩ := Prod.mk.inj heq
            exact ⟨hcache, by rintro _ ⟨⟩⟩
          · have hnew (state : State) (hstate : none = some state) : good state := by cases hstate
            exact ih hcache (List.forall_mem_cons.mpr ⟨hnew,
              List.forall_mem_cons.mpr ⟨hp, hbelow⟩⟩) h
        · have hcache' := hcache.addValue current.name (hvalue value rfl)
          dsimp only at h
          split at h
          · obtain ⟨found, hfound, heq⟩ := Option.map_eq_some_iff.mp h
            obtain ⟨rfl, rfl⟩ := Prod.mk.inj heq
            refine ⟨hcache', fun v hv => ?_⟩
            exact hcache' root v (Except.ok.inj hv ▸ hfound)
          · exact ih hcache' hbelow h

theorem evaluate_shallow (K : ev.KeepsShallow good) {cache cache' : ConstantValues} {name : String}
    {span : Span} {result : Except Diagnostic ConstantValue} (hcache : cache.Shallow)
    (h : evaluate ev cache name span = some (cache', result)) :
    cache'.Shallow ∧ ∀ value, result = .ok value → value.Shallow := by
  unfold evaluate at h
  split at h
  · next value hvalue =>
    obtain ⟨rfl, rfl⟩ := Prod.mk.inj (Option.some.inj h)
    exact ⟨hcache, fun v hv => Except.ok.inj hv ▸ hcache.lookup name span value hvalue⟩
  · obtain ⟨rfl, rfl⟩ := Prod.mk.inj (Option.some.inj h)
    exact ⟨hcache, nofun⟩
  · have hnew (state : State) (hstate : none = some state) : good state := by cases hstate
    exact loop_shallow K _ hcache (List.forall_mem_singleton.mpr hnew) h

theorem evaluateAll_shallow (K : ev.KeepsShallow good) {cache cache' : ConstantValues}
    {requests : List (String × Span)} {results : List (Except Diagnostic ConstantValue)}
    (hcache : cache.Shallow) (h : evaluateAll ev cache requests = some (cache', results)) :
    cache'.Shallow ∧ ∀ value, .ok value ∈ results → value.Shallow := by
  induction requests generalizing cache results with
  | nil =>
    obtain ⟨rfl, rfl⟩ := Prod.mk.inj (Option.some.inj h)
    exact ⟨hcache, nofun⟩
  | cons request requests ih =>
    obtain ⟨name, span⟩ := request
    obtain ⟨⟨next, result⟩, heval, h⟩ := Option.bind_eq_some_iff.mp h
    obtain ⟨⟨last, rest⟩, hrest, heq⟩ := Option.bind_eq_some_iff.mp h
    obtain ⟨rfl, rfl⟩ := Prod.mk.inj (Option.some.inj heq)
    obtain ⟨hnext, hresult⟩ := evaluate_shallow K hcache heval
    obtain ⟨hlast, hresults⟩ := ih hnext hrest
    refine ⟨hlast, fun value hvalue => ?_⟩
    rcases List.mem_cons.mp hvalue with heq | hmem
    · exact hresult value heq.symm
    · exact hresults value hmem

end

end ConstantValues

/-! ## The phases -/

section

variable [F32Primitives]

omit [F32Primitives] in
theorem eq_of_validateConstantType {name : String} {definition : ConstantDefinition}
    {ty : ValueType} {value result : ConstantValue}
    (h : validateConstantType name definition ty value = .ok result) : result = value := by
  unfold validateConstantType at h
  split at h <;> cases h
  rfl

/-- A lookup that refuses globals answers from the cache. -/
theorem shallow_of_refusing (globals : HashMap ValueType) {cache : ConstantValues}
    (hcache : cache.Shallow) (name : String) (span : Span) (value : ConstantValue)
    (hvalue : (match refuseGlobal globals name span with
      | some d => .error (.diagnostic d)
      | none => cache.lookup name span : Except EvaluationError ConstantValue) = .ok value) :
    value.Shallow := by
  split at hvalue
  · cases hvalue
  · exact hcache.lookup name span value hvalue

theorem constantPhase_keepsShallow (definitions : HashMap ConstantDefinition)
    (globals : HashMap ValueType) (structs : HashMap StructDecl) (invalid : HashSet) :
    (constantPhase definitions globals structs invalid).KeepsShallow Evaluation.Shallow where
  initial definition := shallow_new definition.init (some definition.ty)
  initializer name definition state cache hstate hcache := by
    by_cases hinvalid : name ∈ invalid
    · simp only [constantPhase, if_pos hinvalid]
      exact ⟨hstate, by rintro _ ⟨⟩⟩
    · simp only [constantPhase, if_neg hinvalid]
      obtain ⟨hleft, hvalue⟩ := hstate.resume (shallow_of_refusing globals hcache)
        (rfl : state.resume structs _ = _)
      split
      · next value hresult =>
        split
        · next validated hvalidated =>
          obtain rfl := eq_of_validateConstantType hvalidated
          exact ⟨hleft, fun v hv => Except.ok.inj hv ▸ hvalue _ hresult⟩
        · exact ⟨hleft, by rintro _ ⟨⟩⟩
      · exact ⟨hleft, by rintro _ ⟨⟩⟩

/-- A suspended evaluation has shallow operands, once there is one. -/
def LengthEvaluation.Shallow (state : LengthEvaluation) : Prop :=
  ∀ evaluation, state.evaluation = some evaluation → evaluation.Shallow

theorem LengthEvaluation.Shallow.resume {state left : LengthEvaluation} (h : state.Shallow)
    {definitions : HashMap ConstantDefinition} {cache : ConstantValues} (hcache : cache.Shallow)
    {result : Except EvaluationError ConstantValue}
    (hresume : state.resume definitions cache = (left, result)) :
    left.Shallow ∧ ∀ value, result = .ok value → value.Shallow := by
  unfold LengthEvaluation.resume at hresume
  split at hresume
  · obtain ⟨rfl, rfl⟩ := Prod.mk.inj hresume
    exact ⟨h, nofun⟩
  · next types htypes =>
    obtain ⟨rfl, rfl⟩ := Prod.mk.inj hresume
    have hstart : (state.evaluation.getD (.new state.init (some types.ty))).Shallow := by
      cases hcase : state.evaluation with
      | none => exact shallow_new state.init (some types.ty)
      | some evaluation => exact h evaluation hcase
    obtain ⟨hleft, hvalue⟩ := hstart.resume (fun n s v => hcache.lookup n s v) rfl
    exact ⟨fun evaluation hevaluation => Option.some.inj hevaluation ▸ hleft, hvalue⟩

theorem lengthPhase_keepsShallow (definitions : HashMap ConstantDefinition)
    (structs : HashMap StructDecl) :
    (lengthPhase definitions structs).KeepsShallow LengthEvaluation.Shallow where
  initial definition := fun evaluation hevaluation => by cases hevaluation
  initializer name definition state cache hstate hcache := by
    simp only [lengthPhase]
    cases hresume : LengthEvaluation.resume state definitions cache with
    | mk left result =>
      obtain ⟨hleft, hvalue⟩ := hstate.resume hcache hresume
      cases result with
      | error error => exact ⟨hleft, by rintro _ ⟨⟩⟩
      | ok value =>
        dsimp only
        split
        · next validated hvalidated =>
          obtain rfl := eq_of_validateConstantType hvalidated
          exact ⟨hleft, fun v hv => Except.ok.inj hv ▸ hvalue _ rfl⟩
        · exact ⟨hleft, by rintro _ ⟨⟩⟩

/-- The caches of both phases stay shallow, for any requests. -/
theorem ConstantPhase.evaluateAll_shallow (phase : ConstantPhase) (resolution : Resolution)
    {requests : List (String × Span)} {cache : ConstantValues}
    {results : List (Except Diagnostic ConstantValue)}
    (h : ConstantValues.evaluateAll phase.evaluator (.new resolution) requests =
      some (cache, results)) :
    cache.Shallow ∧ ∀ value, .ok value ∈ results → value.Shallow := by
  have hnew := ConstantValues.shallow_new resolution
  cases phase with
  | constant definitions globals structs invalid =>
    exact ConstantValues.evaluateAll_shallow (constantPhase_keepsShallow _ _ _ _) hnew h
  | arrayLength definitions structs =>
    exact ConstantValues.evaluateAll_shallow (lengthPhase_keepsShallow _ _) hnew h

/-! ## Checked programs -/

section Lengths

variable {α β : Type} {P : α → Prop} {Q : β → Prop}

/-- A step of the pass keeps the cache shallow, and its result satisfies `P`. -/
def KeepsLengths (m : LengthM α) (P : α → Prop) : Prop :=
  ∀ ev diagnostics, ev.cache.Shallow →
    (m (ev, diagnostics)).2.1.cache.Shallow ∧ P (m (ev, diagnostics)).1

theorem KeepsLengths.pure {a : α} (h : P a) : KeepsLengths (pure a) P := fun _ _ hev => ⟨hev, h⟩

theorem KeepsLengths.bind {m : LengthM α} {k : α → LengthM β} (hm : KeepsLengths m P)
    (hk : ∀ a, P a → KeepsLengths (k a) Q) : KeepsLengths (m >>= k) Q := by
  intro ev diagnostics hev
  obtain ⟨hev', ha⟩ := hm ev diagnostics hev
  exact hk _ ha _ _ hev'

theorem KeepsLengths.mapM {f : α → LengthM β} {as : List α}
    (h : ∀ a ∈ as, KeepsLengths (f a) Q) : KeepsLengths (as.mapM f) fun bs => ∀ b ∈ bs, Q b := by
  induction as with
  | nil =>
    rw [List.mapM_nil]
    exact .pure nofun
  | cons a as ih =>
    obtain ⟨ha, has⟩ := List.forall_mem_cons.mp h
    rw [List.mapM_cons]
    exact ha.bind fun b hb => (ih has).bind fun bs hbs =>
      .pure (List.forall_mem_cons.mpr ⟨hb, hbs⟩)

theorem keepsLengths_resolveArrayLength (length : ArrayLength) :
    KeepsLengths (resolveArrayLength length) fun _ => True := by
  have hresult : KeepsLengths (lengthResult length) fun _ => True := by
    intro ev diagnostics hev
    cases length with
    | constant name span =>
      have hcache : (ev.evaluate name span).1.cache.Shallow := by
        unfold LengthConstantEvaluator.evaluate
        split
        · exact hev
        · split
          · next heval =>
            exact (ConstantValues.evaluate_shallow (lengthPhase_keepsShallow _ _) hev heval).1
          · next heval =>
            exact (ConstantValues.evaluate_shallow (lengthPhase_keepsShallow _ _) hev heval).1
          · exact hev
      refine ⟨?_, trivial⟩
      unfold lengthResult
      dsimp only
      split <;> exact hcache
    | _ => exact ⟨hev, trivial⟩
  refine hresult.bind fun result _ => ?_
  cases result with
  | ok resolved => exact .pure trivial
  | error d => exact fun _ _ hev => ⟨hev, trivial⟩

theorem keepsLengths_resolveValueType (ty : ValueType) :
    KeepsLengths (resolveValueType ty) fun _ => True := by
  induction ty with
  | array element length ih =>
    exact ih.bind fun _ _ => (keepsLengths_resolveArrayLength length).bind fun _ _ => .pure trivial
  | _ => exact .pure trivial

mutual

theorem keepsLengths_resolveStmtTypes : (statement : Stmt) →
    KeepsLengths (resolveStmtTypes statement) fun _ => True
  | .letVar _ ty _ _ => by
    rw [resolveStmtTypes]
    exact (keepsLengths_resolveValueType ty).bind fun _ _ => .pure trivial
  | .ifElse _ thenBlock none _ => by
    rw [resolveStmtTypes]
    exact (keepsLengths_resolveBlockTypes thenBlock).bind fun _ _ => .pure trivial
  | .ifElse _ thenBlock (some elseBlock) _ => by
    rw [resolveStmtTypes]
    exact (keepsLengths_resolveBlockTypes thenBlock).bind fun _ _ =>
      (keepsLengths_resolveBlockTypes elseBlock).bind fun _ _ => .pure trivial
  | .whileLoop _ body _ => by
    rw [resolveStmtTypes]
    exact (keepsLengths_resolveBlockTypes body).bind fun _ _ => .pure trivial
  | .forLoop _ _ _ _ body _ => by
    rw [resolveStmtTypes]
    exact (keepsLengths_resolveBlockTypes body).bind fun _ _ => .pure trivial
  | .assign .. | .expr .. | .ret .. => by
    rw [resolveStmtTypes]
    · exact .pure trivial
    all_goals nofun

theorem keepsLengths_resolveBlockTypes : (block : List Stmt) →
    KeepsLengths (resolveBlockTypes block) fun _ => True
  | [] => .pure trivial
  | statement :: rest => by
    rw [resolveBlockTypes]
    exact (keepsLengths_resolveStmtTypes statement).bind fun _ _ =>
      (keepsLengths_resolveBlockTypes rest).bind fun _ _ => .pure trivial

end

theorem keepsLengths_resolveFunction (function : Function) :
    KeepsLengths (resolveFunction function) fun _ => True := by
  refine (KeepsLengths.mapM (Q := fun _ => True) fun param _ =>
    (keepsLengths_resolveValueType param.ty).bind fun _ _ => .pure trivial).bind fun _ _ => ?_
  refine KeepsLengths.bind (P := fun _ => True) ?_ fun _ _ =>
    (keepsLengths_resolveBlockTypes function.body).bind fun _ _ => .pure trivial
  cases function.returnType with
  | value ty => exact (keepsLengths_resolveValueType ty).bind fun _ _ => .pure trivial
  | void => exact .pure trivial

/-- A program whose globals have no values yet, as the parser builds it. -/
def Program.Unevaluated (program : Program) : Prop :=
  ∀ global ∈ program.globals, global.value = none

/-- Resolving the types of a program keeps the cache shallow, and evaluates no global. -/
theorem keepsLengths_resolveProgram {program : Program} (h : program.Unevaluated) :
    KeepsLengths (resolveProgram program) Program.Unevaluated := by
  refine (KeepsLengths.mapM (Q := fun _ => True) fun declaration _ => ?_).bind fun _ _ => ?_
  · exact (KeepsLengths.mapM (Q := fun _ => True) fun field _ =>
      (keepsLengths_resolveValueType field.ty).bind fun _ _ => .pure trivial).bind
        fun _ _ => .pure trivial
  refine (KeepsLengths.mapM (Q := fun _ => True) fun constant _ =>
    (keepsLengths_resolveValueType constant.ty).bind fun _ _ => .pure trivial).bind fun _ _ => ?_
  refine (KeepsLengths.mapM (Q := fun global => global.value = none) fun global hglobal =>
    (keepsLengths_resolveValueType global.ty).bind fun _ _ => .pure (h global hglobal)).bind
      fun globals hglobals => ?_
  exact (KeepsLengths.mapM (Q := fun _ => True) fun function _ =>
    keepsLengths_resolveFunction function).bind fun _ _ => .pure hglobals

end Lengths

/-- Evaluating the constants keeps the cache shallow. -/
theorem shallow_evaluateConstants {ev : ConstantEvaluator} (constants : List Constant)
    (h : ev.cache.Shallow) : (evaluateConstants ev constants).value.cache.Shallow := by
  induction constants generalizing ev with
  | nil => exact h
  | cons constant rest ih =>
    rw [evaluateConstants]
    split
    · exact ih h
    · have hnamed (next : ConstantEvaluator) (result : Except Diagnostic ConstantValue)
          (hnext : ev.evaluateNamed constant.name = some (next, result)) : next.cache.Shallow := by
        obtain ⟨definition, -, hnext⟩ := Option.bind_eq_some_iff.mp hnext
        obtain ⟨⟨cache, found⟩, heval, heq⟩ := Option.bind_eq_some_iff.mp hnext
        obtain ⟨rfl, -⟩ := Prod.mk.inj (Option.some.inj heq)
        exact (ConstantValues.evaluate_shallow (constantPhase_keepsShallow _ _ _ _) h heval).1
      split
      · next hnext => exact ih (hnamed _ _ hnext)
      · next hnext => exact ih (hnamed _ _ hnext)
      · exact ih h

/-- What the initializer of a global refers to. -/
def globalEnvironment (constants : HashMap ConstantValue) (globals : HashMap ValueType) :
    Environment := fun name span =>
  match constants.lookup name with
  | some value => .ok value
  | none =>
    if name ∈ globals then
      .error ⟨s!"global initializers cannot reference mutable global `{name}`", span⟩
    else .error ⟨s!"`{name}` is not a compile-time constant", span⟩

/-- The initializer of a global is evaluated directly. -/
theorem evaluateInitializer_value (e : Expr) (ty : ValueType) (constants : HashMap ConstantValue)
    (globals : HashMap ValueType) (structs : HashMap StructDecl) :
    evaluateInitializer e ty constants globals structs =
      (e.value structs (globalEnvironment constants globals) (some ty)).mapError (·.message) := by
  have hvalue : ((Evaluation.new e (some ty)).resume structs
      (globalEnvironment constants globals)).2 =
        e.value structs (globalEnvironment constants globals) (some ty) := by
    rw [resume_environment, demand_new, outcome_demand]
  rw [← hvalue]
  cases hresume : ((Evaluation.new e (some ty)).resume structs
      (globalEnvironment constants globals)).2 with
  | ok value =>
    unfold evaluateInitializer
    dsimp only
    split
    · next found hfound =>
      obtain rfl := Except.ok.inj (hfound.symm.trans hresume)
      rfl
    · next d hd => cases hd.symm.trans hresume
  | error d =>
    unfold evaluateInitializer
    dsimp only
    split
    · next found hfound => cases hfound.symm.trans hresume
    · next d' hd =>
      obtain rfl := Except.error.inj (hd.symm.trans hresume)
      rfl

theorem shallow_evaluateInitializer {e : Expr} {ty : ValueType} {constants : HashMap ConstantValue}
    {globals : HashMap ValueType} {structs : HashMap StructDecl} {value : ConstantValue}
    (hconstants : ∀ name v, constants.lookup name = some v → v.Shallow)
    (h : evaluateInitializer e ty constants globals structs = .ok value) : value.Shallow := by
  unfold evaluateInitializer at h
  dsimp only at h
  split at h
  · next found hfound =>
    obtain rfl := Except.ok.inj h
    refine ((shallow_new e (some ty)).resume (fun n s v hv => ?_) rfl).2 found hfound
    split at hv
    · next w hw => exact Except.ok.inj hv ▸ hconstants n w hw
    · split at hv <;> cases hv
  · cases h

/-- The globals that were evaluated have shallow values. -/
theorem shallow_evaluateGlobals {constants : HashMap ConstantValue} {globals : HashMap ValueType}
    {structs : HashMap StructDecl} (hconstants : ∀ name v, constants.lookup name = some v → v.Shallow)
    (declared : List (Global × Bool)) (h : ∀ global ∈ declared, global.1.value = none) :
    ∀ global ∈ (evaluateGlobals constants globals structs declared).value, ∀ value,
      global.value = some value → value.Shallow := by
  induction declared with
  | nil => exact nofun
  | cons entry rest ih =>
    obtain ⟨global, invalid⟩ := entry
    obtain ⟨hglobal, hrest⟩ := List.forall_mem_cons.mp h
    have hvalue (value : ConstantValue)
        (hsome : (evaluateGlobal constants globals structs global).value = some value) :
        value.Shallow := by
      unfold evaluateGlobal at hsome
      split at hsome
      · next found hfound =>
        obtain ⟨-, heq⟩ := Option.ite_none_right_eq_some.mp hsome
        exact Option.some.inj heq ▸ shallow_evaluateInitializer hconstants hfound
      · cases hsome
    have hnone : global.value = none := hglobal
    rw [evaluateGlobals]
    cases invalid <;> simp only [Bool.false_eq_true, if_false, if_true, Logged.bind_value,
      Logged.pure_value, List.forall_mem_cons, hnone, Option.or_none]
    · exact ⟨hvalue, ih hrest⟩
    · exact ⟨nofun, ih hrest⟩

theorem shallow_checkResolved {program : Program} (hnew : program.Unevaluated)
    (invalidLengths : HashSet) :
    (∀ constant ∈ (checkResolved program invalidLengths).value.constants, ∀ value,
      constant.value = some value → value.Shallow) ∧
    ∀ global ∈ (checkResolved program invalidLengths).value.globals, ∀ value,
      global.value = some value → value.Shallow := by
  have hstart (definitions : HashMap ConstantDefinition) (globals : HashMap ValueType)
      (structs : HashMap StructDecl) (invalid : HashSet) : (evaluateConstants
        (.new definitions globals structs invalid program.resolution)
        program.constants).value.cache.Shallow :=
    shallow_evaluateConstants program.constants (ConstantValues.shallow_new program.resolution)
  unfold checkResolved
  simp only [Logged.bind_value]
  refine ⟨fun constant hconstant value hvalue => ?_, ?_⟩
  · obtain ⟨declared, -, rfl⟩ := List.mem_map.mp hconstant
    exact hstart _ _ _ _ _ _ hvalue
  · exact shallow_evaluateGlobals (hstart _ _ _ _) _ fun global hglobal =>
      hnew global.1 (List.of_mem_zip hglobal).1

/-- The constants and the globals of an accepted program have shallow values. -/
theorem shallow_of_check {program program' : Program} (hnew : program.Unevaluated)
    (h : check program = .ok program') :
    (∀ constant ∈ program'.constants, ∀ value, constant.value = some value → value.Shallow) ∧
      ∀ global ∈ program'.globals, ∀ value, global.value = some value → value.Shallow := by
  have hstart : (LengthConstantEvaluator.new program).cache.Shallow :=
    ConstantValues.shallow_new program.resolution
  have hresolved := (keepsLengths_resolveProgram hnew (.new program) [] hstart).2
  unfold check at h
  dsimp only at h
  split at h
  · obtain rfl := Except.ok.inj h
    exact shallow_checkResolved hresolved _
  · cases h

/-! ## Entries of the phases -/

/-- The references of a checked constant, which may not be globals. -/
def guardedEnvironment (globals : HashMap ValueType) (env : Environment) : Environment :=
  fun name span =>
    match refuseGlobal globals name span with
    | some d => .error d
    | none => env name span

omit [F32Primitives] in
theorem outcome_restrict {A : Type} (globals : HashMap ValueType) (env : Environment)
    (t : ConstantDemand A) :
    outcome env (restrict (refuseGlobal globals) t) = outcome (guardedEnvironment globals env) t := by
  induction t with
  | done a => rfl
  | fail d => rfl
  | ask name span k ih =>
    simp only [restrict, outcome, guardedEnvironment]
    cases refuseGlobal globals name span with
    | some d => rfl
    | none =>
      simp only [outcome]
      cases env name span with
      | ok value => exact ih value
      | error d => rfl

namespace ConstantPhase

/-- The declarations, the references and the type that an initializer is evaluated with. -/
def context (phase : ConstantPhase) (env : Environment) (name : String)
    (definition : ConstantDefinition) :
    Except Diagnostic (HashMap StructDecl × Environment × ValueType) :=
  match phase with
  | constant _ globals structs invalid =>
    if name ∈ invalid then .error (invalidInitializer name definition)
    else .ok (structs, guardedEnvironment globals env, definition.ty)
  | arrayLength definitions structs =>
    (outcome env ((PreparedTypes.new definition.ty structs).demand definitions)).map
      fun prepared => (prepared.2.toAList, env, prepared.1)

/-- The direct evaluation of a definition. -/
def direct (phase : ConstantPhase) (env : Environment) (name : String)
    (definition : ConstantDefinition) : Except Diagnostic ConstantValue := do
  let (structs, env, ty) ← phase.context env name definition
  let value ← definition.init.value structs env (some ty)
  validateConstantType name definition ty value

theorem outcome_system {phase : ConstantPhase} {resolution : Resolution} {name : String}
    {definition : ConstantDefinition} {t : ConstantDemand ConstantValue} (env : Environment)
    (hnew : (predefinedValues resolution).lookup name = none)
    (hdefinition : phase.evaluator.definitions.lookup name = some definition)
    (ht : phase.system resolution name = some t) :
    outcome env t = phase.direct env name definition := by
  cases phase with
  | constant definitions globals structs invalid =>
    have hlookup : definitions.lookup name = some definition := hdefinition
    simp only [system, constantSystem, hnew, hlookup, Option.map_some, Option.some.injEq] at ht
    subst ht
    unfold constantDemand
    by_cases hinvalid : name ∈ invalid
    · simp only [if_pos hinvalid, outcome_fail, direct, context]
      rfl
    · simp only [if_neg hinvalid, outcome_bind, outcome_ofExcept, outcome_restrict,
        outcome_demand, direct, context]
      rfl
  | arrayLength definitions structs =>
    have hlookup : definitions.lookup name = some definition := hdefinition
    simp only [system, lengthSystem, hnew, hlookup, Option.map_some, Option.some.injEq] at ht
    subst ht
    simp only [LengthEvaluation.demand, LengthEvaluation.new, outcome_bind, outcome_ofExcept,
      Option.getD_none, demand_new, outcome_demand, direct, context]
    cases outcome env ((PreparedTypes.new definition.ty structs).demand definitions) <;> rfl

/-- The entry of a declared constant is its direct evaluation, where references stand for the
entries of the cache. -/
theorem entry_direct {phase : ConstantPhase} {resolution : Resolution}
    {requests : List (String × Span)} {cache : ConstantValues}
    {results : List (Except Diagnostic ConstantValue)}
    (h : ConstantValues.evaluateAll phase.evaluator (.new resolution) requests =
      some (cache, results)) {name : String} {definition : ConstantDefinition}
    (hnew : (predefinedValues resolution).lookup name = none)
    (hdefinition : phase.evaluator.definitions.lookup name = some definition)
    {result : Except Diagnostic ConstantValue} (hentry : cache.entry name = some result) :
    result = phase.direct cache.environment name definition := by
  obtain ⟨left, R⟩ := phase.refines resolution
  have hfixed := (ConstantValues.evaluateAll_fixed R (ConstantValues.sound_new R)
    (ConstantValues.fixed_new R) h).1
  have hsystem : phase.system resolution name =
      some (left name definition (phase.evaluator.initialState definition)) :=
    R.initial hnew hdefinition
  exact (hfixed name _ result hsystem hentry).outcome.trans
    (outcome_system _ hnew hdefinition hsystem)

end ConstantPhase

/-! ## Literals -/

theorem length_elementValues {structs : HashMap StructDecl} {env : Environment}
    {elements : List Expr} {expected : Option ValueType} {values : List ConstantValue}
    (h : elementValues structs env elements expected = .ok values) :
    values.length = elements.length := by
  induction elements generalizing values with
  | nil =>
    obtain rfl := Except.ok.inj h
    rfl
  | cons e rest ih =>
    rw [elementValues] at h
    obtain ⟨value, -, h⟩ := bind_ok_iff.mp h
    obtain ⟨others, hothers, h⟩ := bind_ok_iff.mp h
    obtain rfl := Except.ok.inj h
    exact congrArg (· + 1) (ih hothers)

theorem withinDepth_bind {value : ConstantValue} {span : Span}
    {k : ConstantValue → Except Diagnostic ConstantValue} (h : k value = .ok value) :
    (withinDepth value span >>= k) = withinDepth value span := by
  unfold withinDepth
  split
  · exact h
  · rfl

namespace ConstantPhase

variable {phase : ConstantPhase} {env env' : Environment} {name : String}
  {definition : ConstantDefinition} {structs : HashMap StructDecl} {span : Span}

/-- An array literal of a constant whose elements have values is built, unless it is too deep. -/
theorem direct_arrayLiteral {elements : List Expr} {element : ValueType}
    {values : List ConstantValue} (hinit : definition.init = .arrayLiteral elements span)
    (hcontext : phase.context env name definition =
      .ok (structs, env', .array element (.resolved elements.length)))
    (hvalues : elementValues structs env' elements (some element) = .ok values) :
    phase.direct env name definition = withinDepth (.array element values) span := by
  rw [direct, hcontext, ok_bind]
  dsimp only
  rw [hinit, value_arrayLiteral hvalues]
  refine withinDepth_bind ?_
  simp [validateConstantType, ConstantValue.ty, length_elementValues hvalues]

/-- A struct literal of a constant whose fields have values is built, unless it is too deep. -/
theorem direct_structLiteral {struct : String} {fields : List (FieldInitializer Expr)}
    {declaration : StructDecl} {values : List ConstantValue}
    (hinit : definition.init = .structLiteral struct fields span)
    (hcontext : phase.context env name definition = .ok (structs, env', .struct struct))
    (hdeclaration : structs.lookup struct = some declaration)
    (hvalues : fieldValues (initializerValues structs env' fields) struct span declaration.fields =
      .ok values) :
    phase.direct env name definition =
      withinDepth (.struct struct ((declaration.fields.map (·.name)).zip values)) span := by
  rw [direct, hcontext, ok_bind]
  dsimp only
  rw [hinit, value_structLiteral hdeclaration hvalues]
  refine withinDepth_bind ?_
  simp [validateConstantType, ConstantValue.ty]

end ConstantPhase

/-! ## The limit -/

/-- The depth limit, for a program and everything that is evaluated for it. -/
structure DepthLimit (program : Program) : Prop where
  /-- An evaluation starts with no value at all. -/
  start : ∀ (e : Expr) (expected : Option ValueType), (Evaluation.new e expected).Shallow
  /-- Resumed with shallow values, it stays shallow and ends in a shallow value. -/
  evaluations : ∀ {structs : HashMap StructDecl} {E : Type} [FromDiagnostic E]
    {lookup : String → Span → Except E ConstantValue} {ev left : Evaluation}
    {result : Except E ConstantValue},
    (∀ name span value, lookup name span = .ok value → value.Shallow) → ev.Shallow →
      ev.resume structs lookup = (left, result) →
        left.Shallow ∧ ∀ value, result = .ok value → value.Shallow
  /-- The caches and the answers of both phases. -/
  requests : ∀ {phase : ConstantPhase} {resolution : Resolution} {requests : List (String × Span)}
    {cache : ConstantValues} {results : List (Except Diagnostic ConstantValue)},
    ConstantValues.evaluateAll phase.evaluator (.new resolution) requests = some (cache, results) →
      cache.Shallow ∧ ∀ value, .ok value ∈ results → value.Shallow
  /-- The cache that the types of the program are resolved with. -/
  lengths : (resolveProgram program (.new program, [])).2.1.cache.Shallow
  /-- The cache of checked constants. -/
  constants : ∀ {definitions globals structs invalid resolution constants},
    (evaluateConstants (.new definitions globals structs invalid resolution)
      constants).value.cache.Shallow
  /-- The values of the checked program. -/
  accepted : ∀ {program'}, check program = .ok program' →
    (∀ constant ∈ program'.constants, ∀ value, constant.value = some value → value.Shallow) ∧
      ∀ global ∈ program'.globals, ∀ value, global.value = some value → value.Shallow
  /-- An array literal with values for its elements, anywhere in an initializer. -/
  arrays : ∀ {structs : HashMap StructDecl} {env : Environment} {elements : List Expr} {span : Span}
    {element : ValueType} {values : List ConstantValue},
    elementValues structs env elements (some element) = .ok values →
      (Expr.arrayLiteral elements span).value structs env
          (some (.array element (.resolved elements.length))) =
        withinDepth (.array element values) span
  /-- A struct literal with values for its fields, anywhere in an initializer. -/
  structs : ∀ {structs : HashMap StructDecl} {env : Environment} {name : String}
    {fields : List (FieldInitializer Expr)} {span : Span} {declaration : StructDecl}
    {values : List ConstantValue}, structs.lookup name = some declaration →
    fieldValues (initializerValues structs env fields) name span declaration.fields = .ok values →
      (Expr.structLiteral name fields span).value structs env (some (.struct name)) =
        withinDepth (.struct name ((declaration.fields.map (·.name)).zip values)) span
  /-- A constant, for itself or for an array length, is evaluated as its initializer is, where
  references stand for cached entries. -/
  entries : ∀ {phase : ConstantPhase} {resolution : Resolution} {requests : List (String × Span)}
    {cache : ConstantValues} {results : List (Except Diagnostic ConstantValue)} {name : String}
    {definition : ConstantDefinition} {result : Except Diagnostic ConstantValue},
    ConstantValues.evaluateAll phase.evaluator (.new resolution) requests = some (cache, results) →
      (predefinedValues resolution).lookup name = none →
      phase.evaluator.definitions.lookup name = some definition →
      cache.entry name = some result → result = phase.direct cache.environment name definition
  /-- An array literal that a constant is. -/
  arrayEntries : ∀ {phase : ConstantPhase} {env env' : Environment} {name : String}
    {definition : ConstantDefinition} {structs : HashMap StructDecl} {elements : List Expr}
    {span : Span} {element : ValueType} {values : List ConstantValue},
    definition.init = .arrayLiteral elements span →
    phase.context env name definition =
      .ok (structs, env', .array element (.resolved elements.length)) →
    elementValues structs env' elements (some element) = .ok values →
      phase.direct env name definition = withinDepth (.array element values) span
  /-- A struct literal that a constant is. -/
  structEntries : ∀ {phase : ConstantPhase} {env env' : Environment} {name struct : String}
    {definition : ConstantDefinition} {structs : HashMap StructDecl}
    {fields : List (FieldInitializer Expr)} {span : Span} {declaration : StructDecl}
    {values : List ConstantValue}, definition.init = .structLiteral struct fields span →
    phase.context env name definition = .ok (structs, env', .struct struct) →
    structs.lookup struct = some declaration →
    fieldValues (initializerValues structs env' fields) struct span declaration.fields =
      .ok values →
      phase.direct env name definition =
        withinDepth (.struct struct ((declaration.fields.map (·.name)).zip values)) span
  /-- A global is evaluated as its initializer is. -/
  globals : ∀ (e : Expr) (ty : ValueType) (constants : HashMap ConstantValue)
    (globals : HashMap ValueType) (structs : HashMap StructDecl),
    evaluateInitializer e ty constants globals structs =
      (e.value structs (globalEnvironment constants globals) (some ty)).mapError (·.message)

/-- No value is nested more than 128 deep, and a literal whose parts have values is refused for its
depth exactly when it would be. -/
theorem depth_limit (program : Program) (hnew : program.Unevaluated) : DepthLimit program where
  start := shallow_new
  evaluations hlookup hshallow h := hshallow.resume hlookup h
  requests h := ConstantPhase.evaluateAll_shallow _ _ h
  lengths := (keepsLengths_resolveProgram hnew (.new program) []
    (ConstantValues.shallow_new program.resolution)).1
  constants := shallow_evaluateConstants _ (ConstantValues.shallow_new _)
  accepted h := shallow_of_check hnew h
  arrays h := value_arrayLiteral h
  structs hdeclaration h := value_structLiteral hdeclaration h
  entries h hnew hdefinition hentry := ConstantPhase.entry_direct h hnew hdefinition hentry
  arrayEntries hinit hcontext h := ConstantPhase.direct_arrayLiteral hinit hcontext h
  structEntries hinit hcontext hdeclaration h :=
    ConstantPhase.direct_structLiteral hinit hcontext hdeclaration h
  globals := evaluateInitializer_value

omit [F32Primitives] in
theorem depth_limit_sample : @DepthLimit softFloat Sample.program := by
  refine @depth_limit softFloat Sample.program fun global hglobal => ?_
  obtain rfl := List.mem_singleton.mp hglobal
  rfl

end

end Speck
