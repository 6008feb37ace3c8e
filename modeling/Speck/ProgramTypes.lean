import Speck.TypeResolution

/-!
# Resolving the types of a program

`resolve_program_types` : every declared type of the program has its array lengths
replaced by their values, or by `Invalid` with a diagnostic, in one pass over the program
that shares the evaluator of the array-length phase.
-/

namespace Speck

/-- The definitions of the declared constants. -/
def constantDefinitions (constants : List Constant) : HashMap ConstantDefinition :=
  .ofList (constants.map fun constant =>
    (constant.name, ⟨constant.ty, constant.init, constant.span⟩))

def structTable (structs : List StructDecl) : HashMap StructDecl :=
  .ofList (structs.map fun declaration => (declaration.name, declaration))

section

variable [F32Primitives]

structure LengthConstantEvaluator where
  definitions : HashMap ConstantDefinition
  structs : HashMap StructDecl
  cache : ConstantValues

namespace LengthConstantEvaluator

def new (program : Program) : LengthConstantEvaluator :=
  ⟨constantDefinitions program.constants, structTable program.structs, .new program.resolution⟩

/-- Request a length constant. The scheduler always answers (`ConstantValues.evaluate_spec`),
so the last case never happens. -/
def evaluate (ev : LengthConstantEvaluator) (name : String) (usage : Span) :
    LengthConstantEvaluator × Except Diagnostic I32 :=
  match requireLengthType name usage ev.definitions with
  | .error d => (ev, .error d)
  | .ok () =>
    match ConstantValues.evaluate (lengthPhase ev.definitions ev.structs) ev.cache name usage with
    | some (cache, .ok value) => ({ ev with cache }, lengthValue value name usage)
    | some (cache, .error d) => ({ ev with cache }, .error d)
    | none => (ev, .error unbalanced)

end LengthConstantEvaluator

def pushUniqueDiagnostic (diagnostics : List Diagnostic) (d : Diagnostic) : List Diagnostic :=
  if d ∈ diagnostics then diagnostics else diagnostics ++ [d]

/-- The evaluator and the diagnostics so far. -/
abbrev LengthM := StateM (LengthConstantEvaluator × List Diagnostic)

/-- The value of a dimension. -/
def lengthResult (length : ArrayLength) : LengthM (Except Diagnostic ArrayLength) :=
  match length with
  | .literal value span => return (positiveArrayLength value span).map .resolved
  | .constant name span => fun (ev, diagnostics) =>
    let (ev, result) := ev.evaluate name span
    match result with
    | .ok value => ((positiveArrayLength value.toInt span).map .resolved, (ev, diagnostics))
    | .error d => (.error d, (ev, diagnostics))
  | length => return .ok length

def resolveArrayLength (length : ArrayLength) : LengthM ArrayLength := do
  match ← lengthResult length with
  | .ok resolved => return resolved
  | .error d => do
    modify fun (ev, diagnostics) => (ev, pushUniqueDiagnostic diagnostics d)
    return .invalid

def resolveValueType : ValueType → LengthM ValueType
  | .array element length => do
    let element ← resolveValueType element
    let length ← resolveArrayLength length
    return .array element length
  | ty => return ty

mutual

def resolveStmtTypes : Stmt → LengthM Stmt
  | .letVar name ty init span => do
    let ty ← resolveValueType ty
    return .letVar name ty init span
  | .ifElse condition thenBlock elseBlock span => do
    let thenBlock ← resolveBlockTypes thenBlock
    match elseBlock with
    | some elseBlock => do
      let elseBlock ← resolveBlockTypes elseBlock
      return .ifElse condition thenBlock (some elseBlock) span
    | none => return .ifElse condition thenBlock none span
  | .whileLoop condition body span => do
    let body ← resolveBlockTypes body
    return .whileLoop condition body span
  | .forLoop name nameSpan lower upper body span => do
    let body ← resolveBlockTypes body
    return .forLoop name nameSpan lower upper body span
  | statement => return statement

def resolveBlockTypes : List Stmt → LengthM (List Stmt)
  | [] => return []
  | statement :: rest => do
    let statement ← resolveStmtTypes statement
    let rest ← resolveBlockTypes rest
    return statement :: rest

end

def resolveStruct (declaration : StructDecl) : LengthM StructDecl := do
  let fields ← declaration.fields.mapM fun field => do
    let ty ← resolveValueType field.ty
    return { field with ty }
  return { declaration with fields }

def resolveConstant (constant : Constant) : LengthM Constant := do
  let ty ← resolveValueType constant.ty
  return { constant with ty }

def resolveGlobal (global : Global) : LengthM Global := do
  let ty ← resolveValueType global.ty
  return { global with ty }

def resolveReturnType : ReturnType → LengthM ReturnType
  | .value ty => do
    let ty ← resolveValueType ty
    return .value ty
  | .void => return .void

def resolveFunction (function : Function) : LengthM Function := do
  let params ← function.params.mapM fun param => do
    let ty ← resolveValueType param.ty
    return { param with ty }
  let returnType ← resolveReturnType function.returnType
  let body ← resolveBlockTypes function.body
  return { function with params, returnType, body }

def resolveProgram (program : Program) : LengthM Program := do
  let structs ← program.structs.mapM resolveStruct
  let constants ← program.constants.mapM resolveConstant
  let globals ← program.globals.mapM resolveGlobal
  let functions ← program.functions.mapM resolveFunction
  return { program with structs, constants, globals, functions }

/-- The resolved program, the constants that failed and the diagnostics. -/
def resolveProgramTypes (program : Program) : Program × HashSet × List Diagnostic :=
  let (resolved, ev, diagnostics) := resolveProgram program (.new program, [])
  (resolved, ev.cache.failures.keys, diagnostics)

end

end Speck
