import Speck.ProgramTypes

/-!
# Resolved types

What `resolve_program_types` computes : every declared length is replaced by the number it
stands for, given the values of the constants (`ValueType.resolveIn`). `Settles` is the
specification of one step of the pass over the program : it keeps the cache of the early
phase sound and only adds to it and to the diagnostics, and when no diagnostic was reported
its result is the one that every later cache gives. `resolveProgram_settles` is the pass.
-/

namespace Speck

/-! ## The length a dimension stands for -/

/-- The number of a dimension as written, given the values of the constants. -/
def ArrayLength.valueIn (values : String → Option ConstantValue) : ArrayLength → Option ℤ
  | .literal value _ => some value
  | .constant name _ =>
    match values name with
    | some (.i32 value) => some value.toInt
    | _ => none
  | _ => none

/-- The length of a dimension, between 1 and `i32::MAX`. -/
def ArrayLength.resolveIn (values : String → Option ConstantValue) (length : ArrayLength) :
    Option ℕ :=
  match length.valueIn values with
  | some value => if 1 ≤ value ∧ value ≤ 2147483647 then some value.toNat else none
  | none => none

/-- A type with the lengths of its dimensions. -/
def ValueType.resolveIn (values : String → Option ConstantValue) : ValueType → Option ValueType
  | .array element length =>
    match element.resolveIn values, length.resolveIn values with
    | some element, some length => some (.array element (.resolved length))
    | _, _ => none
  | ty => some ty

/-- A type with every length replaced, if they all stand for one. -/
def ValueType.resolveOr (values : String → Option ConstantValue) (ty : ValueType) : ValueType :=
  (ty.resolveIn values).getD ty

/-! ## Types as written -/

/-- A length as the parser builds it : a literal or a name. -/
def ArrayLength.isWritten : ArrayLength → Bool
  | .literal _ _ | .constant _ _ => true
  | _ => false

def ValueType.isWritten : ValueType → Bool
  | .array element length => length.isWritten && element.isWritten
  | _ => true

/-! ## The types of a program -/

mutual

/-- The types of the locals of a statement. -/
def Stmt.types : Stmt → List ValueType
  | .letVar _ ty _ _ => [ty]
  | .ifElse _ thenBlock elseBlock _ =>
    blockTypes thenBlock ++
      match elseBlock with
      | some elseBlock => blockTypes elseBlock
      | none => []
  | .whileLoop _ body _ => blockTypes body
  | .forLoop _ _ _ _ body _ => blockTypes body
  | _ => []

def blockTypes : List Stmt → List ValueType
  | [] => []
  | statement :: rest => statement.types ++ blockTypes rest

end

mutual

/-- A statement with the types of its locals replaced. -/
def Stmt.mapTypes (f : ValueType → ValueType) : Stmt → Stmt
  | .letVar name ty init span => .letVar name (f ty) init span
  | .ifElse condition thenBlock elseBlock span =>
    .ifElse condition (mapBlockTypes f thenBlock)
      (match elseBlock with
        | some elseBlock => some (mapBlockTypes f elseBlock)
        | none => none) span
  | .whileLoop condition body span => .whileLoop condition (mapBlockTypes f body) span
  | .forLoop name nameSpan lower upper body span =>
    .forLoop name nameSpan lower upper (mapBlockTypes f body) span
  | statement => statement

def mapBlockTypes (f : ValueType → ValueType) : List Stmt → List Stmt
  | [] => []
  | statement :: rest => statement.mapTypes f :: mapBlockTypes f rest

end

namespace StructDecl

def types (declaration : StructDecl) : List ValueType := declaration.fields.map (·.ty)

def mapTypes (f : ValueType → ValueType) (declaration : StructDecl) : StructDecl :=
  { declaration with fields := declaration.fields.map fun field => { field with ty := f field.ty } }

end StructDecl

def Constant.mapTypes (f : ValueType → ValueType) (constant : Constant) : Constant :=
  { constant with ty := f constant.ty }

def Global.mapTypes (f : ValueType → ValueType) (global : Global) : Global :=
  { global with ty := f global.ty }

namespace ReturnType

def types : ReturnType → List ValueType
  | value ty => [ty]
  | void => []

def mapTypes (f : ValueType → ValueType) : ReturnType → ReturnType
  | value ty => value (f ty)
  | void => void

end ReturnType

namespace Function

def types (function : Function) : List ValueType :=
  function.params.map (·.ty) ++ function.returnType.types ++ blockTypes function.body

def mapTypes (f : ValueType → ValueType) (function : Function) : Function :=
  { function with
    params := function.params.map fun param => { param with ty := f param.ty }
    returnType := function.returnType.mapTypes f
    body := mapBlockTypes f function.body }

end Function

namespace Program

/-- Every type written in the program, in order. -/
def types (program : Program) : List ValueType :=
  program.structs.flatMap (·.types) ++ program.constants.map (·.ty) ++
    program.globals.map (·.ty) ++ program.functions.flatMap (·.types)

def mapTypes (f : ValueType → ValueType) (program : Program) : Program :=
  { program with
    structs := program.structs.map (·.mapTypes f)
    constants := program.constants.map (·.mapTypes f)
    globals := program.globals.map (·.mapTypes f)
    functions := program.functions.map (·.mapTypes f) }

end Program

mutual

theorem Stmt.types_mapTypes (f : ValueType → ValueType) :
    (statement : Stmt) → (statement.mapTypes f).types = statement.types.map f
  | .letVar .. | .assign .. | .expr .. | .ret .. => by simp [Stmt.mapTypes, Stmt.types]
  | .ifElse _ thenBlock none _ => by
    simp [Stmt.mapTypes, Stmt.types, blockTypes_mapBlockTypes f thenBlock]
  | .ifElse _ thenBlock (some elseBlock) _ => by
    simp [Stmt.mapTypes, Stmt.types, blockTypes_mapBlockTypes f thenBlock,
      blockTypes_mapBlockTypes f elseBlock]
  | .whileLoop _ body _ => by simp [Stmt.mapTypes, Stmt.types, blockTypes_mapBlockTypes f body]
  | .forLoop _ _ _ _ body _ => by
    simp [Stmt.mapTypes, Stmt.types, blockTypes_mapBlockTypes f body]

theorem blockTypes_mapBlockTypes (f : ValueType → ValueType) :
    (block : List Stmt) → blockTypes (mapBlockTypes f block) = (blockTypes block).map f
  | [] => rfl
  | statement :: rest => by
    simp [mapBlockTypes, blockTypes, statement.types_mapTypes f, blockTypes_mapBlockTypes f rest]

end

theorem ReturnType.types_mapTypes (f : ValueType → ValueType) (returnType : ReturnType) :
    (returnType.mapTypes f).types = returnType.types.map f := by
  cases returnType <;> rfl

theorem Function.types_mapTypes (f : ValueType → ValueType) (function : Function) :
    (function.mapTypes f).types = function.types.map f := by
  simp [Function.mapTypes, Function.types, blockTypes_mapBlockTypes, ReturnType.types_mapTypes,
    Function.comp_def]

theorem StructDecl.types_mapTypes (f : ValueType → ValueType) (declaration : StructDecl) :
    (declaration.mapTypes f).types = declaration.types.map f := by
  simp [StructDecl.mapTypes, StructDecl.types, Function.comp_def]

theorem Program.types_mapTypes (f : ValueType → ValueType) (program : Program) :
    (program.mapTypes f).types = program.types.map f := by
  simp [Program.mapTypes, Program.types, List.map_flatMap, List.flatMap_map,
    StructDecl.types_mapTypes, Function.types_mapTypes, Constant.mapTypes, Global.mapTypes,
    Function.comp_def]

/-! ## The pass -/

section Pass

variable [F32Primitives] (program : Program)

/-- The lazy meaning of the constants in the early phase. -/
def earlySystem : String → Option (ConstantDemand ConstantValue) :=
  lengthSystem (constantDefinitions program.constants) (structTable program.structs)
    program.resolution

/-- A cache of the early phase of the program holds lazy values only. -/
def EarlyCache (cache : ConstantValues) : Prop :=
  cache.Sound (lengthPhase (constantDefinitions program.constants) (structTable program.structs))
    (predefinedValues program.resolution) (earlySystem program)

/-- The evaluator of the early phase of the program. -/
structure EarlyEvaluator (ev : LengthConstantEvaluator) : Prop where
  definitions : ev.definitions = constantDefinitions program.constants
  structs : ev.structs = structTable program.structs
  sound : EarlyCache program ev.cache

theorem earlyEvaluator_new : EarlyEvaluator program (.new program) :=
  ⟨rfl, rfl, ConstantValues.sound_new
    (lengthPhase_refines (constantDefinitions program.constants) (structTable program.structs)
      program.resolution)⟩

/-- One step of the pass keeps the evaluator, and adds to the cache and the diagnostics. If no
diagnostic is reported then no constant failed, and the result is what every later cache
makes of the input, which is `ok` in it. -/
def Settles {α : Type} (m : LengthM α) (result : ConstantValues → α) (ok : ConstantValues → Prop) :
    Prop :=
  ∀ ev diagnostics, EarlyEvaluator program ev →
    EarlyEvaluator program (m (ev, diagnostics)).2.1 ∧
    ev.cache.Extends (m (ev, diagnostics)).2.1.cache ∧
    diagnostics <+: (m (ev, diagnostics)).2.2 ∧
    ((m (ev, diagnostics)).2.2 = [] →
      (ev.cache.failures = ∅ → (m (ev, diagnostics)).2.1.cache.failures = ∅) ∧
      ∀ cache, (m (ev, diagnostics)).2.1.cache.Extends cache →
        ok cache ∧ (m (ev, diagnostics)).1 = result cache)

variable {program} {α β : Type}

theorem Settles.pure (a : α) : Settles program (pure a) (fun _ => a) fun _ => True :=
  fun _ _ hev => ⟨hev, .refl _, List.prefix_rfl, fun _ => ⟨id, fun _ _ => ⟨trivial, rfl⟩⟩⟩

theorem Settles.bind {m : LengthM α} {k : α → LengthM β} {result : ConstantValues → α}
    {ok : ConstantValues → Prop} {result' : α → ConstantValues → β}
    {ok' : α → ConstantValues → Prop} (hm : Settles program m result ok)
    (hk : ∀ a, Settles program (k a) (result' a) (ok' a)) :
    Settles program (m >>= k) (fun cache => result' (result cache) cache)
      fun cache => ok cache ∧ ok' (result cache) cache := by
  intro ev diagnostics hev
  obtain ⟨hev', hext, hpre, hclean⟩ := hm ev diagnostics hev
  obtain ⟨hev'', hext', hpre', hclean'⟩ :=
    hk (m (ev, diagnostics)).1 (m (ev, diagnostics)).2.1 (m (ev, diagnostics)).2.2 hev'
  refine ⟨hev'', hext.trans hext', hpre.trans hpre', fun hnil => ?_⟩
  obtain ⟨hfail', hresult'⟩ := hclean' hnil
  obtain ⟨hfail, hresult⟩ := hclean (List.prefix_nil.mp (hnil ▸ hpre'))
  refine ⟨fun h => hfail' (hfail h), fun cache hcache => ?_⟩
  obtain ⟨hok, heq⟩ := hresult cache (hext'.trans hcache)
  obtain ⟨hok', heq'⟩ := hresult' cache hcache
  exact ⟨⟨hok, heq ▸ hok'⟩, heq'.trans (by rw [heq])⟩

theorem Settles.congr {m : LengthM α} {result result' : ConstantValues → α}
    {ok ok' : ConstantValues → Prop} (h : Settles program m result ok)
    (hcongr : ∀ cache, ok cache → ok' cache ∧ result cache = result' cache) :
    Settles program m result' ok' := by
  intro ev diagnostics hev
  obtain ⟨hev', hext, hpre, hclean⟩ := h ev diagnostics hev
  refine ⟨hev', hext, hpre, fun hnil => ⟨(hclean hnil).1, fun cache hcache => ?_⟩⟩
  obtain ⟨hok, heq⟩ := (hclean hnil).2 cache hcache
  exact ⟨(hcongr cache hok).1, heq.trans (hcongr cache hok).2⟩

theorem Settles.mapM {f : α → LengthM β} {result : α → ConstantValues → β}
    {ok : α → ConstantValues → Prop} {as : List α}
    (h : ∀ a ∈ as, Settles program (f a) (result a) (ok a)) :
    Settles program (as.mapM f) (fun cache => as.map (result · cache))
      fun cache => ∀ a ∈ as, ok a cache := by
  induction as with
  | nil =>
    rw [List.mapM_nil]
    exact (Settles.pure _).congr fun cache _ => ⟨by simp, rfl⟩
  | cons a as ih =>
    simp only [List.forall_mem_cons] at h
    rw [List.mapM_cons]
    refine (h.1.bind fun b => (ih h.2).bind fun bs => .pure (b :: bs)).congr fun cache hok => ?_
    exact ⟨List.forall_mem_cons.mpr ⟨hok.1, hok.2.1⟩, rfl⟩

/-- Without a new diagnostic, a request for a length succeeds. -/
theorem evaluate_settles {ev : LengthConstantEvaluator} (hev : EarlyEvaluator program ev)
    (name : String) (span : Span) :
    EarlyEvaluator program (ev.evaluate name span).1 ∧
    ev.cache.Extends (ev.evaluate name span).1.cache ∧
    ∀ value, (ev.evaluate name span).2 = .ok value →
      (ev.cache.failures = ∅ → (ev.evaluate name span).1.cache.failures = ∅) ∧
      (ev.evaluate name span).1.cache.values.lookup name = some (.i32 value) := by
  obtain ⟨definitions, structs, cache⟩ := ev
  obtain ⟨rfl, rfl, hsound⟩ := hev
  obtain ⟨cache', result, heval, hans⟩ := ConstantValues.evaluate_spec
    (lengthPhase_refines (constantDefinitions program.constants) (structTable program.structs)
      program.resolution) hsound name span
  unfold LengthConstantEvaluator.evaluate
  cases hrequire : requireLengthType name span (constantDefinitions program.constants) with
  | error d => exact ⟨⟨rfl, rfl, hsound⟩, .refl _, fun value h => by cases h⟩
  | ok u =>
    simp only [heval]
    cases result with
    | error d => exact ⟨⟨rfl, rfl, hans.sound⟩, hans.extend, fun value h => by cases h⟩
    | ok v =>
      refine ⟨⟨rfl, rfl, hans.sound⟩, hans.extend, fun value h => ⟨hans.failures_eq, ?_⟩⟩
      have hv := hans.result
      cases v <;> cases h
      exact hv

omit [F32Primitives] in
theorem prefix_pushUniqueDiagnostic (diagnostics : List Diagnostic) (d : Diagnostic) :
    diagnostics <+: pushUniqueDiagnostic diagnostics d := by
  unfold pushUniqueDiagnostic
  split
  · exact List.prefix_rfl
  · exact List.prefix_append _ _

omit [F32Primitives] in
theorem pushUniqueDiagnostic_ne_nil (diagnostics : List Diagnostic) (d : Diagnostic) :
    pushUniqueDiagnostic diagnostics d ≠ [] := by
  unfold pushUniqueDiagnostic
  split
  · exact List.ne_nil_of_mem ‹_›
  · simp

omit [F32Primitives] in
theorem resolveIn_of_positive {values : String → Option ConstantValue} {length : ArrayLength}
    {value : ℤ} {span : Span} {n : ℕ} (hvalue : length.valueIn values = some value)
    (h : positiveArrayLength value span = .ok n) : length.resolveIn values = some n := by
  obtain ⟨rfl, hpos, hmax⟩ := positiveArrayLength_eq_ok.mp h
  simp only [ArrayLength.resolveIn, hvalue]
  rw [if_pos (by omega)]
  simp

/-- The value of a dimension is the length that every later cache gives it. -/
theorem lengthResult_spec {length : ArrayLength} (h : length.isWritten)
    {ev : LengthConstantEvaluator} (hev : EarlyEvaluator program ev)
    (diagnostics : List Diagnostic) :
    ∃ result ev', lengthResult length (ev, diagnostics) = (result, (ev', diagnostics)) ∧
      EarlyEvaluator program ev' ∧ ev.cache.Extends ev'.cache ∧
      ∀ resolved, result = .ok resolved →
        (ev.cache.failures = ∅ → ev'.cache.failures = ∅) ∧
        ∃ n, resolved = .resolved n ∧ ∀ cache, ev'.cache.Extends cache →
          length.resolveIn cache.values.lookup = some n := by
  cases length with
  | literal value span =>
    refine ⟨_, ev, rfl, hev, .refl _, fun resolved hresolved => ⟨id, ?_⟩⟩
    cases hpositive : positiveArrayLength value span with
    | error d => simp [hpositive, Except.map] at hresolved
    | ok n =>
      simp only [hpositive, Except.map, Except.ok.injEq] at hresolved
      exact ⟨n, hresolved.symm, fun cache _ => resolveIn_of_positive rfl hpositive⟩
  | constant name span =>
    obtain ⟨hev', hext, hvalue⟩ := evaluate_settles hev name span
    cases heval : (ev.evaluate name span).2 with
    | error d =>
      refine ⟨.error d, (ev.evaluate name span).1, ?_, hev', hext, fun _ h => by cases h⟩
      simp [lengthResult, heval]
    | ok value =>
      refine ⟨(positiveArrayLength value.toInt span).map .resolved, (ev.evaluate name span).1,
        by simp only [lengthResult, heval], hev', hext, fun resolved hresolved => ?_⟩
      obtain ⟨hfail, hlookup⟩ := hvalue value heval
      cases hpositive : positiveArrayLength value.toInt span with
      | error d => simp [hpositive, Except.map] at hresolved
      | ok n =>
        simp only [hpositive, Except.map, Except.ok.injEq] at hresolved
        refine ⟨hfail, n, hresolved.symm, fun cache hcache => resolveIn_of_positive ?_ hpositive⟩
        simp [ArrayLength.valueIn, hcache.values hlookup]
  | resolved | invalid => cases h

theorem resolveArrayLength_settles {length : ArrayLength} (h : length.isWritten) :
    Settles program (resolveArrayLength length)
      (fun cache => ((length.resolveIn cache.values.lookup).map .resolved).getD .invalid)
      fun cache => (length.resolveIn cache.values.lookup).isSome := by
  intro ev diagnostics hev
  obtain ⟨result, ev', hresult, hev', hext, hok⟩ := lengthResult_spec h hev diagnostics
  cases result with
  | error d =>
    have heq : resolveArrayLength length (ev, diagnostics) =
        (.invalid, (ev', pushUniqueDiagnostic diagnostics d)) := by
      simp only [resolveArrayLength, bind, StateT.bind, hresult]
      rfl
    rw [heq]
    exact ⟨hev', hext, prefix_pushUniqueDiagnostic diagnostics d,
      fun hnil => absurd hnil (pushUniqueDiagnostic_ne_nil diagnostics d)⟩
  | ok resolved =>
    have heq : resolveArrayLength length (ev, diagnostics) = (resolved, (ev', diagnostics)) := by
      simp only [resolveArrayLength, bind, StateT.bind, hresult]
      rfl
    obtain ⟨hfail, n, rfl, hn⟩ := hok resolved rfl
    rw [heq]
    exact ⟨hev', hext, List.prefix_rfl, fun _ => ⟨hfail, fun cache hcache => by
      simp [hn cache hcache]⟩⟩

theorem resolveValueType_settles {ty : ValueType} (h : ty.isWritten) :
    Settles program (resolveValueType ty) (fun cache => ty.resolveOr cache.values.lookup)
      fun cache => (ty.resolveIn cache.values.lookup).isSome := by
  induction ty with
  | array element length ih =>
    obtain ⟨hlength, helement⟩ := Bool.and_eq_true_iff.mp h
    refine ((ih helement).bind fun element =>
      (resolveArrayLength_settles hlength).bind fun length =>
        .pure (ValueType.array element length)).congr fun cache hok => ?_
    obtain ⟨helement, hlength, -⟩ := hok
    obtain ⟨element', helement⟩ := Option.isSome_iff_exists.mp helement
    obtain ⟨length', hlength⟩ := Option.isSome_iff_exists.mp hlength
    simp [ValueType.resolveIn, ValueType.resolveOr, helement, hlength]
  | _ => exact (Settles.pure _).congr fun cache _ => ⟨rfl, rfl⟩

/-- Every type of the list has its lengths. -/
def AllResolve (types : List ValueType) (cache : ConstantValues) : Prop :=
  ∀ ty ∈ types, (ty.resolveIn cache.values.lookup).isSome

mutual

theorem resolveStmtTypes_settles : (statement : Stmt) → (∀ ty ∈ statement.types, ty.isWritten) →
    Settles program (resolveStmtTypes statement)
      (fun cache => statement.mapTypes (·.resolveOr cache.values.lookup))
      (AllResolve statement.types)
  | .letVar name ty init span, h => by
    refine ((resolveValueType_settles (h ty (by simp [Stmt.types]))).bind fun ty =>
      .pure (Stmt.letVar name ty init span)).congr fun cache hok => ⟨?_, rfl⟩
    simpa [AllResolve, Stmt.types] using hok.1
  | .ifElse condition thenBlock none span, h => by
    refine ((resolveBlockTypes_settles thenBlock fun ty hty => h ty (by simp [Stmt.types, hty])).bind
      fun block => .pure (Stmt.ifElse condition block none span)).congr fun cache hok => ⟨?_, rfl⟩
    simpa [AllResolve, Stmt.types] using hok.1
  | .ifElse condition thenBlock (some elseBlock) span, h => by
    refine ((resolveBlockTypes_settles thenBlock fun ty hty => h ty (by simp [Stmt.types, hty])).bind
      fun thenBlock => (resolveBlockTypes_settles elseBlock fun ty hty =>
        h ty (by simp [Stmt.types, hty])).bind fun elseBlock =>
          .pure (Stmt.ifElse condition thenBlock (some elseBlock) span)).congr
            fun cache hok => ⟨fun ty hty => ?_, rfl⟩
    rcases List.mem_append.mp hty with hty | hty
    · exact hok.1 ty hty
    · exact hok.2.1 ty hty
  | .whileLoop condition body span, h => by
    exact ((resolveBlockTypes_settles body h).bind fun body =>
      .pure (Stmt.whileLoop condition body span)).congr fun cache hok => ⟨hok.1, rfl⟩
  | .forLoop name nameSpan lower upper body span, h => by
    exact ((resolveBlockTypes_settles body h).bind fun body =>
      .pure (Stmt.forLoop name nameSpan lower upper body span)).congr
        fun cache hok => ⟨hok.1, rfl⟩
  | .assign .., _ | .expr .., _ | .ret .., _ => by
    exact (Settles.pure _).congr fun cache _ => ⟨by simp [AllResolve, Stmt.types], rfl⟩

theorem resolveBlockTypes_settles : (block : List Stmt) → (∀ ty ∈ blockTypes block, ty.isWritten) →
    Settles program (resolveBlockTypes block)
      (fun cache => mapBlockTypes (·.resolveOr cache.values.lookup) block)
      (AllResolve (blockTypes block))
  | [], _ => (Settles.pure _).congr fun cache _ => ⟨by simp [AllResolve, blockTypes], rfl⟩
  | statement :: rest, h => by
    refine ((resolveStmtTypes_settles statement fun ty hty =>
      h ty (by simp [blockTypes, hty])).bind fun statement =>
        (resolveBlockTypes_settles rest fun ty hty => h ty (by simp [blockTypes, hty])).bind
          fun rest => .pure (statement :: rest)).congr fun cache hok => ⟨fun ty hty => ?_, rfl⟩
    rcases List.mem_append.mp hty with hty | hty
    · exact hok.1 ty hty
    · exact hok.2.1 ty hty

end

theorem resolveStruct_settles {declaration : StructDecl}
    (h : ∀ ty ∈ declaration.types, ty.isWritten) :
    Settles program (resolveStruct declaration)
      (fun cache => declaration.mapTypes (·.resolveOr cache.values.lookup))
      (AllResolve declaration.types) := by
  refine ((Settles.mapM (f := fun field : StructField => do
    let ty ← resolveValueType field.ty
    return { field with ty }) fun field hfield => (resolveValueType_settles
      (h field.ty (List.mem_map_of_mem hfield))).bind fun ty => .pure { field with ty }).bind
        fun fields => .pure { declaration with fields }).congr fun cache hok => ⟨?_, rfl⟩
  rintro ty hty
  obtain ⟨field, hfield, rfl⟩ := List.mem_map.mp hty
  exact (hok.1 field hfield).1

theorem resolveFunction_settles {function : Function} (h : ∀ ty ∈ function.types, ty.isWritten) :
    Settles program (resolveFunction function)
      (fun cache => function.mapTypes (·.resolveOr cache.values.lookup))
      (AllResolve function.types) := by
  have hparams : Settles program (function.params.mapM fun param : Param => do
      let ty ← resolveValueType param.ty
      return { param with ty }) _ _ :=
    Settles.mapM fun param hparam => (resolveValueType_settles
      (h param.ty (by simp [Function.types]; exact .inl ⟨param, hparam, rfl⟩))).bind
        fun ty => .pure { param with ty }
  have hreturn : Settles program (resolveReturnType function.returnType)
      (fun cache => function.returnType.mapTypes (·.resolveOr cache.values.lookup))
      (AllResolve function.returnType.types) := by
    cases hr : function.returnType with
    | void => exact (Settles.pure _).congr fun cache _ => ⟨by simp [AllResolve, ReturnType.types], rfl⟩
    | value ty =>
      refine ((resolveValueType_settles (h ty (by simp [Function.types, hr, ReturnType.types]))).bind
        fun ty => .pure (ReturnType.value ty)).congr fun cache hok => ⟨?_, rfl⟩
      simpa [AllResolve, ReturnType.types] using hok.1
  refine (hparams.bind fun params => hreturn.bind fun returnType =>
    (resolveBlockTypes_settles function.body fun ty hty =>
      h ty (by simp [Function.types, hty])).bind fun body =>
        .pure { function with params, returnType, body }).congr fun cache hok => ⟨?_, rfl⟩
  intro ty hty
  simp only [Function.types, List.mem_append, List.mem_map] at hty
  rcases hty with (⟨param, hparam, rfl⟩ | hty) | hty
  · exact (hok.1 param hparam).1
  · exact hok.2.1 ty hty
  · exact hok.2.2.1 ty hty

/-- The pass replaces every type of the program by the type it stands for. -/
theorem resolveProgram_settles (h : ∀ ty ∈ program.types, ty.isWritten) :
    Settles program (resolveProgram program)
      (fun cache => program.mapTypes (·.resolveOr cache.values.lookup))
      (AllResolve program.types) := by
  have hmem : ∀ ty, (ty ∈ program.structs.flatMap (·.types) ∨ ty ∈ program.constants.map (·.ty) ∨
      ty ∈ program.globals.map (·.ty) ∨ ty ∈ program.functions.flatMap (·.types)) ↔
      ty ∈ program.types := fun ty => by simp [Program.types]
  have hstructs : Settles program (program.structs.mapM resolveStruct) _ _ :=
    Settles.mapM fun declaration hd => resolveStruct_settles fun ty hty =>
      h ty ((hmem ty).mp (.inl (List.mem_flatMap.mpr ⟨declaration, hd, hty⟩)))
  have hconstants : Settles program (program.constants.mapM resolveConstant) _ _ :=
    Settles.mapM fun constant hc => (resolveValueType_settles (h constant.ty
      ((hmem _).mp (.inr (.inl (List.mem_map_of_mem hc)))))).bind
        fun ty => .pure { constant with ty }
  have hglobals : Settles program (program.globals.mapM resolveGlobal) _ _ :=
    Settles.mapM fun global hg => (resolveValueType_settles (h global.ty
      ((hmem _).mp (.inr (.inr (.inl (List.mem_map_of_mem hg))))))).bind
        fun ty => .pure { global with ty }
  have hfunctions : Settles program (program.functions.mapM resolveFunction) _ _ :=
    Settles.mapM fun function hf => resolveFunction_settles fun ty hty =>
      h ty ((hmem ty).mp (.inr (.inr (.inr (List.mem_flatMap.mpr ⟨function, hf, hty⟩)))))
  refine (hstructs.bind fun structs => hconstants.bind fun constants => hglobals.bind fun globals =>
    hfunctions.bind fun functions =>
      .pure { program with structs, constants, globals, functions }).congr
        fun cache hok => ⟨fun ty hty => ?_, rfl⟩
  rcases (hmem ty).mpr hty with hty | hty | hty | hty
  · obtain ⟨declaration, hd, hty⟩ := List.mem_flatMap.mp hty
    exact hok.1 declaration hd ty hty
  · obtain ⟨constant, hc, rfl⟩ := List.mem_map.mp hty
    exact (hok.2.1 constant hc).1
  · obtain ⟨global, hg, rfl⟩ := List.mem_map.mp hty
    exact (hok.2.2.1 global hg).1
  · obtain ⟨function, hf, hty⟩ := List.mem_flatMap.mp hty
    exact hok.2.2.2.1 function hf ty hty

/-- The evaluator of the early phase at its end. -/
def earlyEvaluator (program : Program) : LengthConstantEvaluator :=
  (resolveProgram program (.new program, [])).2.1

/-- Without a diagnostic, the resolved program is the program with its types replaced by the
values of the early cache, and no constant failed. -/
theorem resolveProgramTypes_spec {resolved : Program} {invalidLengths : HashSet}
    (h : ∀ ty ∈ program.types, ty.isWritten)
    (hresolve : resolveProgramTypes program = (resolved, invalidLengths, [])) :
    EarlyCache program (earlyEvaluator program).cache ∧ invalidLengths = [] ∧
      AllResolve program.types (earlyEvaluator program).cache ∧
      resolved = program.mapTypes (·.resolveOr (earlyEvaluator program).cache.values.lookup) := by
  obtain ⟨hev, -, -, hclean⟩ :=
    resolveProgram_settles h (.new program) [] (earlyEvaluator_new program)
  have hprogram := congrArg (·.1) hresolve
  have hinvalid := congrArg (·.2.1) hresolve
  have hdiagnostics := congrArg (·.2.2) hresolve
  obtain ⟨hfail, hresult⟩ := hclean hdiagnostics
  obtain ⟨hok, heq⟩ := hresult _ (.refl _)
  refine ⟨hev.sound, ?_, hok, hprogram.symm.trans heq⟩
  refine hinvalid.symm.trans ?_
  exact congrArg AList.keys (hfail rfl)

end Pass

end Speck
