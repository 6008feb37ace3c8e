import Speck.Checker
import Speck.SoftFloat
import Speck.ProgramTypes

/-!
# Semantic checking

`check` of `sema.rs` : the passes over a parsed program, in their order. A program without
diagnostics is accepted, with its types resolved and its constants and globals evaluated.
-/

namespace Speck

/-! ## Declared names -/

/-- What a declared name is, in a diagnostic. -/
def existing (names : HashMap String) (name : String) : String := (names.lookup name).getD ""

/-- The function table before any declaration. -/
def builtinSignatures : HashMap Signature :=
  .ofList (Builtins.functions.map fun builtin => (builtin.name, ⟨builtin.params, builtin.returnType⟩))

/-- What each top-level name is, before any declaration. -/
def predefinedNames (resolution : Resolution) : HashMap String :=
  (HashMap.ofList (Builtins.functions.map fun builtin => (builtin.name, "function"))).extend
    ((Builtins.constants resolution).map fun constant => (constant.name, "predefined constant"))

def checkFieldNames (structName : String) (seen : HashSet) : List StructField → Logged Unit
  | [] => pure ()
  | field :: rest => do
    .errorIf (field.name ∈ seen)
      s!"field `{field.name}` is declared more than once in struct `{structName}`" field.span
    checkFieldNames structName (field.name :: seen) rest

/-- The struct table and the top-level names after the struct declarations. -/
def declareStructs (structs : HashMap StructDecl) (names : HashMap String) :
    List StructDecl → Logged (HashMap StructDecl × HashMap String)
  | [] => return (structs, names)
  | declaration :: rest => do
    let duplicate := decide (declaration.name ∈ structs)
    .errorIf duplicate s!"struct `{declaration.name}` is declared more than once" declaration.span
    .errorIf (!duplicate && decide (declaration.name ∈ names))
      s!"struct `{declaration.name}` conflicts with an existing {existing names declaration.name}"
      declaration.span
    checkFieldNames declaration.name [] declaration.fields
    declareStructs (structs.insert declaration.name declaration)
      (if duplicate then names else names.insert declaration.name "struct") rest

def declareConstants (constants : HashMap ValueType) (names : HashMap String) :
    List Constant → Logged (HashMap ValueType × HashMap String)
  | [] => return (constants, names)
  | constant :: rest =>
    if Builtins.isPredefinedConstant constant.name then do
      .error s!"constant `{constant.name}` conflicts with a predefined constant" constant.span
      declareConstants constants names rest
    else do
      .errorIf (decide (constant.name ∈ constants))
        s!"constant `{constant.name}` is declared more than once" constant.span
      .errorIf (decide (constant.name ∈ names))
        s!"constant `{constant.name}` conflicts with an existing {existing names constant.name}"
        constant.span
      declareConstants (constants.insert constant.name constant.ty)
        (names.insert constant.name "constant") rest

def declareGlobals (globals : HashMap ValueType) (names : HashMap String) :
    List Global → Logged (HashMap ValueType × HashMap String)
  | [] => return (globals, names)
  | global :: rest => do
    .errorIf (decide (global.name ∈ globals))
      s!"global `{global.name}` is declared more than once" global.span
    .errorIf (decide (global.name ∈ names))
      s!"global `{global.name}` conflicts with an existing {existing names global.name}"
      global.span
    declareGlobals (globals.insert global.name global.ty) (names.insert global.name "global variable")
      rest

def Function.signature (function : Function) : Signature :=
  ⟨function.params.map (·.ty), function.returnType⟩

/-- The function table after the named functions. -/
def declareFunctions (functions : HashMap Signature) (names : HashMap String) :
    List Function → Logged (HashMap Signature × HashMap String)
  | [] => return (functions, names)
  | function :: rest =>
    if function.kind = .named then do
      .errorIf (decide (function.name ∈ functions))
        s!"function `{function.name}` conflicts with an existing function" function.span
      .errorIf ((names.lookup function.name).any (· != "function"))
        s!"function `{function.name}` conflicts with an existing {existing names function.name}"
        function.span
      declareFunctions (functions.insert function.name function.signature)
        (names.insert function.name "function") rest
    else declareFunctions functions names rest

/-- An entry point is declared exactly once. -/
def checkEntryPoint (program : Program) (kind : FunctionKind) (name : String) : Logged Unit :=
  match (program.functions.filter (·.kind == kind)).length with
  | 0 => .error s!"game is missing its `{name}` entry point" program.titleSpan
  | 1 => pure ()
  | _ => .error s!"game declares `{name}` more than once" program.titleSpan

/-! ## Declared types -/

def validateKnownType (structs : HashMap StructDecl) (span : Span) : ValueType → Logged Unit
  | .struct name => .errorIf (decide (name ∉ structs)) s!"unknown struct type `{name}`" span
  | .array element _ => validateKnownType structs span element
  | _ => pure ()

/-- `for item in items { f(item) }`. -/
def forEach {α : Type} (f : α → Logged Unit) : List α → Logged Unit
  | [] => pure ()
  | a :: rest => do
    f a
    forEach f rest

mutual

def validateStmtTypes (structs : HashMap StructDecl) : Stmt → Logged Unit
  | .letVar _ ty _ span => validateKnownType structs span ty
  | .ifElse _ thenBlock elseBlock _ => do
    validateBlockTypes structs thenBlock
    match elseBlock with
    | some elseBlock => validateBlockTypes structs elseBlock
    | none => return ()
  | .whileLoop _ body _ => validateBlockTypes structs body
  | .forLoop _ _ _ _ body _ => validateBlockTypes structs body
  | _ => pure ()

def validateBlockTypes (structs : HashMap StructDecl) : List Stmt → Logged Unit
  | [] => pure ()
  | statement :: rest => do
    validateStmtTypes structs statement
    validateBlockTypes structs rest

end

def validateFunctionTypes (structs : HashMap StructDecl) (function : Function) : Logged Unit := do
  forEach (fun param => validateKnownType structs param.span param.ty) function.params
  match function.returnType with
  | .value ty => validateKnownType structs function.span ty
  | .void => pure ()
  validateBlockTypes structs function.body

def validateDeclaredTypes (program : Program) (structs : HashMap StructDecl) : Logged Unit := do
  forEach (fun declaration : StructDecl =>
    forEach (fun field : StructField => validateKnownType structs field.span field.ty)
      declaration.fields) program.structs
  forEach (fun constant : Constant => validateKnownType structs constant.span constant.ty)
    program.constants
  forEach (fun global : Global => validateKnownType structs global.span global.ty) program.globals
  forEach (validateFunctionTypes structs) program.functions

/-! ## Compile-time initializers -/

mutual

/-- Does the expression avoid calls and mutable globals? -/
def validateCompileTimeStructure (globals : HashMap ValueType) (description : String) :
    Expr → Logged Bool
  | .var name span =>
    if name ∈ globals then do
      .error s!"{description} cannot reference mutable global `{name}`" span
      return false
    else return true
  | .unary _ operand _ => validateCompileTimeStructure globals description operand
  | .binary left _ right _ => do
    let left ← validateCompileTimeStructure globals description left
    let right ← validateCompileTimeStructure globals description right
    return left && right
  | .call name args span => do
    .error s!"{description} cannot call function `{name}`" span
    let _ ← validateElements globals description args
    return false
  | .conversion _ args _ => validateElements globals description args
  | .arrayLiteral elements _ => validateElements globals description elements
  | .index base index _ => do
    let base ← validateCompileTimeStructure globals description base
    let index ← validateCompileTimeStructure globals description index
    return base && index
  | .structLiteral _ fields _ => validateInitializers globals description fields
  | .field base _ _ _ => validateCompileTimeStructure globals description base
  | _ => return true

def validateElements (globals : HashMap ValueType) (description : String) :
    List Expr → Logged Bool
  | [] => return true
  | e :: rest => do
    let e ← validateCompileTimeStructure globals description e
    let rest ← validateElements globals description rest
    return e && rest

def validateInitializers (globals : HashMap ValueType) (description : String) :
    List (FieldInitializer Expr) → Logged Bool
  | [] => return true
  | ⟨_, value, _⟩ :: rest => do
    let value ← validateCompileTimeStructure globals description value
    let rest ← validateInitializers globals description rest
    return value && rest

end

/-- The names of the constants whose initializers are not compile-time expressions. -/
def invalidStructures (globals : HashMap ValueType) : List Constant → Logged HashSet
  | [] => return []
  | constant :: rest => do
    let valid ← validateCompileTimeStructure globals "constant expressions" constant.init
    let rest ← invalidStructures globals rest
    return if valid then rest else constant.name :: rest

/-- For each global, whether its initializer cannot be evaluated. -/
def invalidGlobals (analysis : StructTypeAnalysis) (globals : HashMap ValueType) :
    List Global → Logged (List Bool)
  | [] => return []
  | global :: rest => do
    let invalid ← if analysis.resolutionFailed global.ty then pure true
      else (!·) <$> validateCompileTimeStructure globals "global initializers" global.init
    let rest ← invalidGlobals analysis globals rest
    return invalid :: rest

section

variable [F32Primitives]

/-- The type of an initializer against the declared one. -/
def checkInitializer (c : FunctionChecker) (what name : String) (ty : ValueType) (init : Expr) :
    Logged Unit := do
  let actual ← c.requireValueAs [∅] init ty s!"{what} initializer"
  .errorIf (actual.any (· != ty))
    s!"{what} `{name}` has type `{ty.name}`, but its initializer has type `{foundName actual}`"
    init.span

/-- Evaluate the constants in order, unless they are invalid or failed before. -/
def evaluateConstants (ev : ConstantEvaluator) : List Constant → Logged ConstantEvaluator
  | [] => return ev
  | constant :: rest =>
    if constant.name ∈ ev.invalid ∨ ev.cache.failed constant.name then evaluateConstants ev rest
    else
      match ev.evaluateNamed constant.name with
      | some (ev, .ok _) => evaluateConstants ev rest
      | some (ev, .error d) => do
        .error d.message d.span
        evaluateConstants ev rest
      | none => evaluateConstants ev rest

/-- The value of a global's initializer, unless it is of another type. -/
def evaluateGlobal (constants : HashMap ConstantValue) (globals : HashMap ValueType)
    (structs : HashMap StructDecl) (global : Global) : Logged (Option ConstantValue) :=
  match evaluateInitializer global.init global.ty constants globals structs with
  | .ok value => return if value.ty = global.ty then some value else none
  | .error message => do
    .error message global.init.span
    return none

/-- The globals with the values of their initializers. -/
def evaluateGlobals (constants : HashMap ConstantValue) (globals : HashMap ValueType)
    (structs : HashMap StructDecl) : List (Global × Bool) → Logged (List Global)
  | [] => return []
  | (global, invalid) :: rest => do
    let value ← if invalid then pure none else evaluateGlobal constants globals structs global
    let rest ← evaluateGlobals constants globals structs rest
    return { global with value := value.or global.value } :: rest

def checkUpdate (function : Function) : Logged Unit :=
  .errorIf (function.kind == .update && function.params.map (·.ty) != [.f32])
    "`update` must take exactly one `f32` frame-delta parameter" function.span

/-- The passes of `check` after type resolution, on the program with resolved types. -/
def checkResolved (program : Program) (invalidLengths : HashSet) : Logged Program := do
  let (structs, names) ← declareStructs ∅ (predefinedNames program.resolution) program.structs
  validateDeclaredTypes program structs
  let analysis ← ⟨(StructTypeAnalysis.new structs).1, (StructTypeAnalysis.new structs).2⟩
  let predefined := HashMap.ofList
    ((Builtins.constants program.resolution).map fun constant => (constant.name, constant.value.ty))
  let (constants, names) ← declareConstants predefined names program.constants
  let (globals, names) ← declareGlobals ∅ names program.globals
  let invalid ← invalidStructures globals program.constants
  let invalid := invalid ++ invalidLengths ++
    (program.constants.filter fun constant => analysis.resolutionFailed constant.ty).map (·.name)
  let globalInvalid ← invalidGlobals analysis globals program.globals
  let (functions, _) ← declareFunctions builtinSignatures names program.functions
  checkEntryPoint program .start "start"
  checkEntryPoint program .update "update"
  checkEntryPoint program .draw "draw"
  let checker : FunctionChecker := ⟨globals, constants, predefinedValues program.resolution, structs,
    functions, .void⟩
  forEach (fun constant : Constant =>
    if constant.name ∈ invalid then pure ()
    else checkInitializer checker "constant" constant.name constant.ty constant.init)
    program.constants
  forEach (fun global : Global × Bool =>
    if global.2 then pure ()
    else checkInitializer checker "global" global.1.name global.1.ty global.1.init)
    (program.globals.zip globalInvalid)
  let evaluator ← evaluateConstants
    (.new (constantDefinitions program.constants) globals structs invalid program.resolution)
    program.constants
  let values := evaluator.cache.values
  let evaluated := program.constants.map fun constant =>
    { constant with value := values.lookup constant.name }
  let globalValues ← evaluateGlobals values globals structs (program.globals.zip globalInvalid)
  let checker := { checker with constantValues := values }
  forEach (fun function => do
    checkUpdate function
    checkFunction checker function) program.functions
  return { program with constants := evaluated, globals := globalValues }

def deduplicateDiagnostics : List Diagnostic → List Diagnostic → List Diagnostic
  | _, [] => []
  | seen, d :: rest =>
    if d ∈ seen then deduplicateDiagnostics seen rest
    else d :: deduplicateDiagnostics (d :: seen) rest

/-- `check`. -/
def check (program : Program) : Except (List Diagnostic) Program :=
  let (resolved, invalidLengths, diagnostics) := resolveProgramTypes program
  let result := checkResolved resolved invalidLengths
  match deduplicateDiagnostics [] (diagnostics ++ result.diagnostics) with
  | [] => .ok result.value
  | diagnostics => .error diagnostics

end

/-! ## An accepted program -/

namespace Sample

def span : Span := ⟨⟨0⟩, 0, 0⟩

def int (value : ℤ) : Expr := .i32 value span

def var (name : String) : Expr := .var name span

def entryPoint (kind : FunctionKind) (params : List Param) : Function :=
  ⟨"", kind, params, .void, [], span⟩

/-- `fn pick(box: Box, at: i32) -> i32`, with a loop, a call, a mutation and checked operations. -/
def pick : Function where
  name := "pick"
  kind := .named
  params := [⟨"box", .struct "Box", span⟩, ⟨"at", .i32, span⟩]
  returnType := .value .i32
  body := [
    .letVar "sum" .i32 (int 0) span,
    .forLoop "i" span (int 0) (var "SIZE") [
      .assign (var "sum") .add (.index (.field (var "box") "items" span span) (var "i") span) span]
      span,
    .ifElse (.binary (.index (var "table") (int 0) span) .logicalAnd
        (.binary (var "at") .less (var "SIZE") span) span)
      [.ret (some (.binary (var "sum") .divide (var "at") span)) span] none span,
    .ret (some (.call "pick" [var "box", int 1] span)) span]
  span := span

/-- The length of `table` is an element of `BOX`, whose type needs the length `SIZE`. -/
def program : Program where
  resolution := .default
  title := "sample"
  titleSpan := span
  structs := [⟨"Box", [⟨"items", .array .i32 (.constant "SIZE" span), span⟩], span⟩]
  sounds := []
  constants := [
    ⟨"LAST", .i32, .index (.field (var "BOX") "items" span span) (int 1) span, none, span⟩,
    ⟨"BOX", .struct "Box",
      .structLiteral "Box" [⟨"items", .arrayLiteral [int 3, int 1] span, span⟩] span, none, span⟩,
    ⟨"SIZE", .i32, .binary (int 1) .add (int 1) span, none, span⟩]
  globals := [⟨"table", .array .bool (.constant "LAST" span),
    .arrayLiteral [.bool true span] span, none, span⟩]
  functions := [pick, entryPoint .start [], entryPoint .update [⟨"dt", .f32, span⟩],
    entryPoint .draw []]

theorem accepted : ∃ program', @check softFloat program = .ok program' := by
  have h : (@check softFloat program).isOk = true := by decide +kernel
  cases hcheck : @check softFloat program with
  | ok program' => exact ⟨program', rfl⟩
  | error diagnostics => simp [hcheck, Except.isOk, Except.toBool] at h

end Sample

end Speck
