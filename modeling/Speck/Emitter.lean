import Speck.LlvmLines
import Speck.Source

/-!
# The emitter

`llvm.rs` : the LLVM text of a checked program. `FunctionEmitter` walks the body of a function once,
numbers temporaries and labels as it goes, and appends lines; a local gets its storage in the entry
block. It keeps whether the current block has its terminator, and stops at a statement after one.

What the source expects of a checked program is checked here : where it would panic, the emission
fails. A development build reports where a check failed, through `RuntimeDiagnostics`.
-/

namespace Speck

namespace Emitter

open EmbeddedData (intText i32Text RuntimeDiagnostics)

/-! ## State -/

structure Variable where
  ty : ValueType
  pointer : Operand

structure Value where
  ty : ReturnType
  repr : Operand

structure Signature where
  params : List ValueType
  returnType : ReturnType
  symbol : Text

/-- What a function emitter knows of the program and of its function. -/
structure FunctionEmitter where
  function : Function
  globals : HashMap Variable
  constants : HashMap ConstantValue
  structs : HashMap StructDecl
  functions : HashMap Signature
  diagnostics : RuntimeDiagnostics

/-- What it keeps, with the innermost scope first. -/
structure State where
  scopes : List (HashMap Variable)
  lines : List Line
  nextTemp : ℕ
  nextLabel : ℕ
  currentBlock : Label
  terminated : Bool

def State.new : State := ⟨[∅], [], 0, 0, .entry, false⟩

abbrev EmitM := StateT State Option

/-- `expect`. -/
def expect {α : Type} (value : Option α) : EmitM α := fun s => value.map fun a => (a, s)

/-- `unreachable!`. -/
def unreachable {α : Type} : EmitM α := fun _ => none

/-! ## Lines -/

def temp : EmitM ℕ := fun s => some (s.nextTemp, { s with nextTemp := s.nextTemp + 1 })

def label (stage : String) : EmitM Label := fun s =>
  some (.numbered stage s.nextLabel, { s with nextLabel := s.nextLabel + 1 })

def pushLine (line : Line) : EmitM Unit := fun s =>
  some ((), { s with lines := s.lines ++ [line] })

/-- `lines.insert`, which panics past the end. -/
def insertLine (index : ℕ) (line : Line) : EmitM Unit := fun s =>
  if index ≤ s.lines.length then
    some ((), { s with lines := s.lines.take index ++ line :: s.lines.drop index })
  else none

def instruction (parts : List Part) : EmitM Unit := pushLine (.instruction ⟨none, parts⟩)

/-- The instruction of a new temporary. -/
def define (parts : List Part) : EmitM Operand := do
  let number ← temp
  pushLine (.instruction ⟨some number, parts⟩)
  pure (.temp number)

def entryAlloca (ty : Text) : EmitM Operand := do
  let number ← temp
  insertLine 2 (.instruction ⟨some number, ["alloca ", ty]⟩)
  pure (.temp number)

def terminate (parts : List Part) : EmitM Unit := do
  pushLine (.terminator ⟨none, parts⟩)
  modify fun s => { s with terminated := true }

def placeLabel (block : Label) : EmitM Unit := do
  pushLine (.label block)
  modify fun s => { s with currentBlock := block, terminated := false }

/-! ## Scopes -/

def pushScope (scope : HashMap Variable) : EmitM Unit :=
  modify fun s => { s with scopes := scope :: s.scopes }

def popScope : EmitM Unit := modify fun s => { s with scopes := s.scopes.tail }

/-- `scopes.last_mut()`. -/
def declare (name : String) (place : Variable) : EmitM Unit := fun s =>
  match s.scopes with
  | [] => none
  | scope :: rest => some ((), { s with scopes := scope.insert name place :: rest })

namespace FunctionEmitter

/-- `RuntimeDiagnostics::instruction`. -/
def location (diagnostics : RuntimeDiagnostics) (span : Span) : EmitM (Option (List Part)) :=
  match diagnostics with
  | .plain => pure none
  | .located sources => do
    let source ← expect sources[span.source.id]?
    let (line, column) ← expect (source.location span.start)
    pure (some ["call void @crumb_source_location(ptr @spk_source_", decimalText span.source.id,
      ", i32 ", decimalText line, ", i32 ", decimalText column, ")"])

variable (f : FunctionEmitter)

def reportLocation (span : Span) : EmitM Unit := do
  match ← location f.diagnostics span with
  | some parts => instruction parts
  | none => pure ()

def findVariable (name : String) : EmitM (Option Variable) := fun s =>
  some ((lookupScopes s.scopes name).or (f.globals.lookup name), s)

/-! ## Expressions -/

def valueType (value : Value) : EmitM ValueType := expect value.ty.valueType

/-- The value of a place. -/
def load (place : Variable) : EmitM Value := do
  let ty ← expect (llvmValueType place.ty)
  let temp ← define ["load ", ty, ", ptr ", place.pointer]
  pure ⟨.value place.ty, temp⟩

def store (ty : ValueType) (value pointer : Operand) : EmitM Unit := do
  let ty ← expect (llvmValueType ty)
  instruction ["store ", ty, " ", value, ", ptr ", pointer]

/-- The failure block of a check, and the label of the block after it. -/
def failureBlock (failureLabel : Label) (span : Span) (call : List Part) : EmitM Unit := do
  placeLabel failureLabel
  f.reportLocation span
  instruction call
  terminate ["unreachable"]

def boundsCheck (index : Operand) (length : ℕ) (span : Span) : EmitM Unit := do
  let nonnegative ← define ["icmp sge i32 ", index, ", 0"]
  let belowLength ← define ["icmp slt i32 ", index, ", ", decimalText length]
  let valid ← define ["and i1 ", nonnegative, ", ", belowLength]
  let validLabel ← label "bounds_valid"
  let failureLabel ← label "bounds_failure"
  terminate ["br i1 ", valid, ", label ", validLabel, ", label ", failureLabel]
  f.failureBlock failureLabel span
    ["call void @crumb_bounds_fail(i32 ", index, ", i32 ", decimalText length, ")"]
  placeLabel validLabel

/-- The element of an array in memory, behind its bounds check. -/
def elementPointer (base : Operand) (arrayType : Text) (element : ValueType) (length : ℕ)
    (index : EmitM Value) (span : Span) : EmitM Variable := do
  let index ← index
  f.boundsCheck index.repr length span
  let pointer ← define
    ["getelementptr inbounds ", arrayType, ", ptr ", base, ", i32 0, i32 ", index.repr]
  pure ⟨element, pointer⟩

/-- The `Index` case of `lvalue`. -/
def indexLvalue (base : EmitM (Option Variable)) (index : EmitM Value) (span : Span) :
    EmitM (Option Variable) := do
  match ← base with
  | none => pure none
  | some base =>
    match base.ty.resolvedArray with
    | none => pure none
    | some (element, length) => do
      let arrayType ← expect (llvmValueType base.ty)
      let pointer ← f.elementPointer base.pointer arrayType element length index span
      pure (some pointer)

/-- The index of a field, and the field. -/
def findField (fields : List StructField) (name : String) : Option (ℕ × StructField) :=
  (fields.zipIdx.find? fun (field, _) => field.name == name).map fun (field, index) => (index, field)

/-- The `Field` case of `lvalue`. -/
def fieldLvalue (base : EmitM (Option Variable)) (name : String) : EmitM (Option Variable) := do
  match ← base with
  | none => pure none
  | some base =>
    match base.ty with
    | .struct structName =>
      match (f.structs.lookup structName).bind fun declaration =>
        findField declaration.fields name with
      | none => pure none
      | some (index, field) => do
        let aggregateType ← expect (llvmValueType base.ty)
        let pointer ← define ["getelementptr inbounds ", aggregateType, ", ptr ", base.pointer,
          ", i32 0, i32 ", decimalText index]
        pure (some ⟨field.ty, pointer⟩)
    | _ => pure none

/-- The `Index` case of `expression`. -/
def indexExpression (lvalue : EmitM (Option Variable)) (base index : EmitM Value) (span : Span) :
    EmitM Value := do
  match ← lvalue with
  | some place => load place
  | none => do
    let base ← base
    let baseType ← valueType base
    let (element, length) ← expect baseType.resolvedArray
    let arrayType ← expect (llvmValueType baseType)
    let storage ← entryAlloca arrayType
    instruction ["store ", arrayType, " ", base.repr, ", ptr ", storage]
    let place ← f.elementPointer storage arrayType element length index span
    load place

/-- The `Field` case of `expression`. -/
def fieldExpression (lvalue : EmitM (Option Variable)) (base : EmitM Value) (name : String) :
    EmitM Value := do
  match ← lvalue with
  | some place => load place
  | none => do
    let base ← base
    match ← valueType base with
    | .struct structName => do
      let declaration ← expect (f.structs.lookup structName)
      let (index, field) ← expect (findField declaration.fields name)
      let temp ← define ["extractvalue ", '%' :: symbolName "struct" structName, " ", base.repr,
        ", ", decimalText index]
      pure ⟨.value field.ty, temp⟩
    | _ => unreachable

/-- The `Variable` case of `expression`. -/
def variableExpression (name : String) : EmitM Value := do
  match ← f.findVariable name with
  | some place => load place
  | none => do
    let value ← expect (f.constants.lookup name)
    let constant ← expect (llvmConstant value)
    pure ⟨.value value.ty, .text constant⟩

def unary (op : UnaryOp) (operand : EmitM Value) : EmitM Value := do
  let operand ← operand
  let temp ← match op, ← valueType operand with
    | .negate, .i32 => define ["sub i32 0, ", operand.repr]
    | .negate, .f32 => define ["fneg float ", operand.repr]
    | .not, .bool => define ["xor i1 ", operand.repr, ", true"]
    | _, _ => unreachable
  pure ⟨operand.ty, temp⟩

def checkedI32Division (left : Operand) (op : BinaryOp) (right : Operand) (span : Span) :
    EmitM Value := do
  let (mnemonic, failHook, stage) ← match op with
    | .divide => pure ("sdiv", "crumb_division_fail", "division")
    | .remainder => pure ("srem", "crumb_remainder_fail", "remainder")
    | _ => unreachable
  let failureLabel ← label (stage ++ "_failure")
  let validLabel ← label (stage ++ "_valid")
  let isZero ← define ["icmp eq i32 ", right, ", 0"]
  let isMinimum ← define ["icmp eq i32 ", left, ", ", i32Text (BitVec.intMin 32)]
  let isNegativeOne ← define ["icmp eq i32 ", right, ", -1"]
  let overflows ← define ["and i1 ", isMinimum, ", ", isNegativeOne]
  let invalid ← define ["or i1 ", isZero, ", ", overflows]
  terminate ["br i1 ", invalid, ", label ", failureLabel, ", label ", validLabel]
  f.failureBlock failureLabel span
    ["call void @", failHook, "(i32 ", left, ", i32 ", right, ")"]
  placeLabel validLabel
  let result ← define [mnemonic, " i32 ", left, ", ", right]
  pure ⟨.value .i32, result⟩

/-- The instruction of an operator on operands of a type, and the type of its result. -/
def binaryInstruction (op : BinaryOp) (ty : ValueType) : Option (String × ValueType) :=
  let isFloat : Bool := ty = .f32
  match op with
  | .add => some (if isFloat then "fadd" else "add", ty)
  | .subtract => some (if isFloat then "fsub" else "sub", ty)
  | .multiply => some (if isFloat then "fmul" else "mul", ty)
  | .divide => some (if isFloat then "fdiv" else "sdiv", ty)
  | .equal => some (if isFloat then "fcmp oeq" else "icmp eq", .bool)
  | .notEqual => some (if isFloat then "fcmp one" else "icmp ne", .bool)
  | .less => some (if isFloat then "fcmp olt" else "icmp slt", .bool)
  | .lessEqual => some (if isFloat then "fcmp ole" else "icmp sle", .bool)
  | .greater => some (if isFloat then "fcmp ogt" else "icmp sgt", .bool)
  | .greaterEqual => some (if isFloat then "fcmp oge" else "icmp sge", .bool)
  | .logicalAnd | .logicalOr | .remainder => none

def binary (left : Value) (op : BinaryOp) (right : Value) (span : Span) : EmitM Value := do
  let leftType ← valueType left
  if (op = .divide ∨ op = .remainder) ∧ leftType ≠ .f32 then
    f.checkedI32Division left.repr op right.repr span
  else do
    let (mnemonic, resultType) ← expect (binaryInstruction op leftType)
    let ty ← expect (llvmValueType leftType)
    let temp ← define [mnemonic, " ", ty, " ", left.repr, ", ", right.repr]
    pure ⟨.value resultType, temp⟩

def logicalExpression (left : EmitM Value) (op : BinaryOp) (right : EmitM Value) :
    EmitM Value := do
  let left ← left
  let rhsLabel ← label "logical_rhs"
  let shortLabel ← label "logical_short"
  let mergeLabel ← label "logical_merge"
  let shortValue := if op = .logicalAnd then "false" else "true"
  if op = .logicalAnd then
    terminate ["br i1 ", left.repr, ", label ", rhsLabel, ", label ", shortLabel]
  else
    terminate ["br i1 ", left.repr, ", label ", shortLabel, ", label ", rhsLabel]
  placeLabel shortLabel
  terminate ["br label ", mergeLabel]
  placeLabel rhsLabel
  let right ← right
  let rhsPredecessor := (← get).currentBlock
  terminate ["br label ", mergeLabel]
  placeLabel mergeLabel
  let temp ← define (phiParts "i1" [(shortValue, shortLabel), (right.repr, rhsPredecessor)])
  pure ⟨.value .bool, temp⟩

def safeFloatToInt (source : Operand) : EmitM Value := do
  let nanLabel ← label "fptosi_nan"
  let highCheckLabel ← label "fptosi_high_check"
  let highLabel ← label "fptosi_high"
  let lowCheckLabel ← label "fptosi_low_check"
  let lowLabel ← label "fptosi_low"
  let convertLabel ← label "fptosi_convert"
  let mergeLabel ← label "fptosi_merge"
  let isNan ← define ["fcmp uno float ", source, ", ", source]
  terminate ["br i1 ", isNan, ", label ", nanLabel, ", label ", highCheckLabel]
  placeLabel nanLabel
  terminate ["br label ", mergeLabel]
  placeLabel highCheckLabel
  let isHigh ← define ["fcmp oge float ", source, ", 0x41E0000000000000"]
  terminate ["br i1 ", isHigh, ", label ", highLabel, ", label ", lowCheckLabel]
  placeLabel highLabel
  terminate ["br label ", mergeLabel]
  placeLabel lowCheckLabel
  let isLow ← define ["fcmp ole float ", source, ", 0xC1E0000000000000"]
  terminate ["br i1 ", isLow, ", label ", lowLabel, ", label ", convertLabel]
  placeLabel lowLabel
  terminate ["br label ", mergeLabel]
  placeLabel convertLabel
  let converted ← define ["fptosi float ", source, " to i32"]
  terminate ["br label ", mergeLabel]
  placeLabel mergeLabel
  let result ← define (phiParts "i32" [("0", nanLabel), (i32Text (BitVec.intMax 32), highLabel),
    (i32Text (BitVec.intMin 32), lowLabel), (converted, convertLabel)])
  pure ⟨.value .i32, result⟩

def conversion (target : ValueType) (source : EmitM Value) : EmitM Value := do
  let source ← source
  match ← valueType source, target with
  | .i32, .i32 | .f32, .f32 => pure source
  | .i32, .f32 => do
    let temp ← define ["sitofp i32 ", source.repr, " to float"]
    pure ⟨.value .f32, temp⟩
  | .f32, .i32 => safeFloatToInt source.repr
  | _, _ => unreachable

/-- One part of an aggregate that is built. -/
def insertValue (aggregateType : Text) (aggregate : Operand) (ty : Text) (value : Operand)
    (index : ℕ) : EmitM Operand :=
  define ["insertvalue ", aggregateType, " ", aggregate, ", ", ty, " ", value, ", ",
    decimalText index]

/-- `join(", ")` of the arguments, between the front of a call and its end. -/
def callParts (front : List Part) (arguments : List (List Part)) : List Part :=
  front.append ((List.intercalate ([", "] : List Part) arguments).append [")"])

/-- The call behind its arguments. -/
def callSignature (signature : Signature) (arguments : List (List Part)) : EmitM Value := do
  if signature.returnType = .void then
    instruction (callParts ["call void ", signature.symbol, "("] arguments)
    pure ⟨.void, .text []⟩
  else do
    let returnType ← expect (llvmReturnType signature.returnType)
    let temp ← define (callParts ["call ", returnType, " ", signature.symbol, "("] arguments)
    pure ⟨signature.returnType, temp⟩

mutual

def lvalue : Expr → EmitM (Option Variable)
  | .var name _ => f.findVariable name
  | .index base index span => f.indexLvalue (lvalue base) (expressionAs none index) span
  | .field base name _ _ => f.fieldLvalue (lvalue base) name
  | _ => pure none

/-- `expression_as` where a type is expected, and `expression` where none is : they differ on array
literals. -/
def expressionAs : Option ValueType → Expr → EmitM Value
  | _, .i32 value _ => pure ⟨.value .i32, .text (intText value)⟩
  | _, .f32 value _ => pure ⟨.value .f32, .text (llvmFloat value)⟩
  | _, .bool value _ => pure ⟨.value .bool, .text (boolText value)⟩
  | none, .arrayLiteral _ _ => unreachable
  | some expected, .arrayLiteral elements _ => do
    let (elementType, _) ← expect expected.resolvedArray
    let aggregateType ← expect (llvmValueType expected)
    let elementLlvmType ← expect (llvmValueType elementType)
    let aggregate ← arrayElements elementType aggregateType elementLlvmType 0
      (.text "undef".toList) elements
    pure ⟨.value expected, aggregate⟩
  | _, .structLiteral name fields _ => do
    let declaration ← expect (f.structs.lookup name)
    let aggregateType ← expect (llvmValueType (.struct name))
    let aggregate ← structFields declaration aggregateType (.text "undef".toList) fields
    pure ⟨.value (.struct name), aggregate⟩
  | _, .var name _ => f.variableExpression name
  | _, .index base index span =>
    f.indexExpression (f.indexLvalue (lvalue base) (expressionAs none index) span)
      (expressionAs none base) (expressionAs none index) span
  | _, .field base name _ _ =>
    f.fieldExpression (f.fieldLvalue (lvalue base) name) (expressionAs none base) name
  | _, .unary op operand _ =>
    if op = .negate ∧ operand.isMinMagnitude = true then
      pure ⟨.value .i32, .text (i32Text (BitVec.intMin 32))⟩
    else unary op (expressionAs none operand)
  | _, .binary left op right span =>
    if op.isLogical then logicalExpression (expressionAs none left) op (expressionAs none right)
    else do
      let left ← expressionAs none left
      let right ← expressionAs none right
      f.binary left op right span
  | _, .call name args _ => do
    let signature ← expect (f.functions.lookup name)
    let arguments ← callArguments args signature.params
    callSignature signature arguments
  | _, .conversion target (source :: _) _ => conversion target.val (expressionAs none source)
  | _, .conversion _ [] _ => unreachable

/-- The loop over the elements of an array literal. -/
def arrayElements (elementType : ValueType) (aggregateType elementLlvmType : Text) (index : ℕ)
    (aggregate : Operand) : List Expr → EmitM Operand
  | [] => pure aggregate
  | element :: rest => do
    let value ← expressionAs (some elementType) element
    let temp ← insertValue aggregateType aggregate elementLlvmType value.repr index
    arrayElements elementType aggregateType elementLlvmType (index + 1) temp rest

/-- The loop over the initializers of a struct literal. -/
def structFields (declaration : StructDecl) (aggregateType : Text) (aggregate : Operand) :
    List (FieldInitializer Expr) → EmitM Operand
  | [] => pure aggregate
  | ⟨name, init, _⟩ :: rest => do
    let (index, field) ← expect (findField declaration.fields name)
    let value ← expressionAs (some field.ty) init
    let ty ← expect (llvmValueType field.ty)
    let temp ← insertValue aggregateType aggregate ty value.repr index
    structFields declaration aggregateType temp rest

/-- The arguments of a call, each with its type. -/
def callArguments : List Expr → List ValueType → EmitM (List (List Part))
  | argument :: args, expected :: params => do
    let value ← expressionAs (some expected) argument
    let valueType ← valueType value
    let ty ← expect (llvmValueType valueType)
    let rest ← callArguments args params
    pure ([(ty : Part), " ", value.repr] :: rest)
  | _, _ => pure []

end

abbrev expression (e : Expr) : EmitM Value := f.expressionAs none e

/-! ## Statements -/

def nestedBlock (scope : HashMap Variable) (statements : EmitM Unit) : EmitM Unit := do
  pushScope scope
  statements
  popScope

/-- Without a terminator of its own, the block goes on. -/
def closeBlock (next : Label) : EmitM Unit := do
  if (← get).terminated then pure () else terminate ["br label ", next]

def letStatement (name : String) (ty : ValueType) (init : EmitM Value) : EmitM Unit := do
  let value ← init
  let llvmType ← expect (llvmValueType ty)
  let pointer ← entryAlloca llvmType
  store ty value.repr pointer
  declare name ⟨ty, pointer⟩

/-- The value that an assignment stores. -/
def assignedValue (place : Variable) (op : AssignOp) (value : Expr) (span : Span) :
    EmitM Value := do
  match Source.binaryOp op with
  | none => f.expressionAs (some place.ty) value
  | some op => do
    let left ← load place
    let right ← f.expression value
    f.binary left op right span

def assignStatement (target : Expr) (op : AssignOp) (value : Expr) : EmitM Unit := do
  let place ← f.lvalue target
  let place ← expect place
  let value ← f.assignedValue place op value target.span
  store place.ty value.repr place.pointer

def ifStatement (condition : EmitM Value) (thenBlock : EmitM Unit) : EmitM Unit := do
  let condition ← condition
  let thenLabel ← label "if_then"
  let endLabel ← label "if_end"
  terminate ["br i1 ", condition.repr, ", label ", thenLabel, ", label ", endLabel]
  placeLabel thenLabel
  nestedBlock ∅ thenBlock
  closeBlock endLabel
  placeLabel endLabel

def ifElseStatement (condition : EmitM Value) (thenBlock elseBlock : EmitM Unit) :
    EmitM Unit := do
  let condition ← condition
  let thenLabel ← label "if_then"
  let endLabel ← label "if_end"
  let elseLabel ← label "if_else"
  terminate ["br i1 ", condition.repr, ", label ", thenLabel, ", label ", elseLabel]
  placeLabel thenLabel
  nestedBlock ∅ thenBlock
  let thenTerminated := (← get).terminated
  closeBlock endLabel
  placeLabel elseLabel
  nestedBlock ∅ elseBlock
  let elseTerminated := (← get).terminated
  closeBlock endLabel
  placeLabel endLabel
  if thenTerminated && elseTerminated then terminate ["unreachable"] else pure ()

def whileStatement (condition : EmitM Value) (body : EmitM Unit) : EmitM Unit := do
  let conditionLabel ← label "while_condition"
  let bodyLabel ← label "while_body"
  let endLabel ← label "while_end"
  terminate ["br label ", conditionLabel]
  placeLabel conditionLabel
  let condition ← condition
  terminate ["br i1 ", condition.repr, ", label ", bodyLabel, ", label ", endLabel]
  placeLabel bodyLabel
  nestedBlock ∅ body
  closeBlock conditionLabel
  placeLabel endLabel

/-- The end of a turn of a `for` loop. -/
def forStep (pointer : Operand) (conditionLabel : Label) : EmitM Unit := do
  if (← get).terminated then pure ()
  else do
    let current ← define ["load i32, ptr ", pointer]
    let next ← define ["add i32 ", current, ", 1"]
    instruction ["store i32 ", next, ", ptr ", pointer]
    terminate ["br label ", conditionLabel]

def forStatement (name : String) (lower upper : EmitM Value) (body : EmitM Unit) : EmitM Unit := do
  let lower ← lower
  let upper ← upper
  let pointer ← entryAlloca "i32".toList
  instruction ["store i32 ", lower.repr, ", ptr ", pointer]
  let conditionLabel ← label "for_condition"
  let bodyLabel ← label "for_body"
  let endLabel ← label "for_end"
  terminate ["br label ", conditionLabel]
  placeLabel conditionLabel
  let current ← define ["load i32, ptr ", pointer]
  let inRange ← define ["icmp slt i32 ", current, ", ", upper.repr]
  terminate ["br i1 ", inRange, ", label ", bodyLabel, ", label ", endLabel]
  placeLabel bodyLabel
  nestedBlock (AList.singleton name ⟨.i32, pointer⟩) body
  forStep pointer conditionLabel
  placeLabel endLabel

def returnStatement : Option Expr → EmitM Unit
  | some value => do
    let expected ← expect f.function.returnType.valueType
    let value ← f.expressionAs (some expected) value
    let valueType ← valueType value
    let ty ← expect (llvmValueType valueType)
    terminate ["ret ", ty, " ", value.repr]
  | none => terminate ["ret void"]

mutual

def statement : Stmt → EmitM Unit
  | .letVar name ty init _ => letStatement name ty (f.expressionAs (some ty) init)
  | .assign target op value _ => f.assignStatement target op value
  | .expr e _ => do
    let _ ← f.expression e
    pure ()
  | .ifElse condition thenBlock none _ =>
    ifStatement (f.expression condition) (statements thenBlock)
  | .ifElse condition thenBlock (some elseBlock) _ =>
    ifElseStatement (f.expression condition) (statements thenBlock) (statements elseBlock)
  | .whileLoop condition body _ => whileStatement (f.expression condition) (statements body)
  | .forLoop name _ lower upper body _ =>
    forStatement name (f.expression lower) (f.expression upper) (statements body)
  | .ret value _ => f.returnStatement value

/-- The statements up to one that ends the block. -/
def statements : List Stmt → EmitM Unit
  | [] => pure ()
  | s :: rest => do
    if (← get).terminated then pure ()
    else do
      statement s
      statements rest

end

/-! ## Functions -/

/-- The storage of the parameters, which are the first scope. -/
def params (index : ℕ) : List Param → EmitM Unit
  | [] => pure ()
  | param :: rest => do
    let ty ← expect (llvmValueType param.ty)
    let pointer ← define ["alloca ", ty]
    instruction ["store ", ty, " %arg", decimalText index, ", ptr ", pointer]
    declare param.name ⟨param.ty, pointer⟩
    params (index + 1) rest

def symbol : Text :=
  match f.function.kind with
  | .named => symbolName "fn" f.function.name
  | .start => "spk_start".toList
  | .update => "spk_update".toList
  | .draw => "spk_draw".toList

/-- The parameters as the header declares them. -/
def headerParams (params : List Param) : Option Text := do
  let texts ← params.zipIdx.mapM fun (param, index) => do
    let ty ← llvmValueType param.ty
    pure (ty ++ " %arg".toList ++ decimalText index)
  pure (commaSeparated texts)

/-- The lines of a function. -/
def emitLines (titleLength : ℕ) : EmitM Unit := do
  let headerParams ← expect (headerParams f.function.params)
  let returnType ← expect (llvmReturnType f.function.returnType)
  pushLine (.define ("define ".toList ++ returnType ++ " @".toList ++ f.symbol ++ "(".toList ++
    headerParams ++ ") \x7b".toList))
  pushLine (.label .entry)
  if f.function.kind = .start then
    instruction ["call void @crumb_storage_init(ptr @spk_storage_identity_data, i64 ",
      decimalText titleLength, ")"]
  params 0 f.function.params
  f.statements f.function.body
  if (← get).terminated then pure ()
  else if f.function.returnType = .void then terminate ["ret void"]
  else terminate ["unreachable"]
  pushLine .close

/-- `FunctionEmitter::emit`. -/
def emit (titleLength : ℕ) : Option Text :=
  (f.emitLines titleLength .new).map fun (_, s) => EmbeddedData.unlines (s.lines.map Line.write)

end FunctionEmitter

/-! ## Programs -/

/-- `function_signatures`. -/
def functionSignatures (program : Program) : HashMap Signature :=
  (HashMap.ofList (Builtins.functions.map fun builtin =>
    (builtin.name, ⟨builtin.params, builtin.returnType, builtin.llvmSymbol.toList⟩))).extend
      (program.namedFunctions.map fun function =>
        (function.name, ⟨function.params.map (·.ty), function.returnType,
          '@' :: symbolName "fn" function.name⟩))

/-- The constants with their values. -/
def constantValues (program : Program) : Option (List (Constant × ConstantValue)) :=
  program.constants.mapM fun constant => constant.value.map fun value => (constant, value)

/-- The globals and the aggregate constants, which are in memory. -/
def globalVariables (program : Program) (constants : List (Constant × ConstantValue)) :
    HashMap Variable :=
  (HashMap.ofList (program.globals.map fun global =>
    (global.name, ⟨global.ty, .text ('@' :: symbolName "global" global.name)⟩))).extend
      ((constants.filter fun (_, value) => isAggregateConstant value).map fun (constant, _) =>
        (constant.name, ⟨constant.ty, .text ('@' :: symbolName "const" constant.name)⟩))

/-- The predefined and the declared constants. -/
def knownConstants (program : Program) (constants : List (Constant × ConstantValue)) :
    HashMap ConstantValue :=
  (HashMap.ofList ((Builtins.constants program.resolution).map fun constant =>
    (constant.name, constant.value))).extend
      (constants.map fun (constant, value) => (constant.name, value))

def headerLines (program : Program) (targetTriple : Option Text) : List Text :=
  ["; Speck game: ".toList ++
      program.title.toList.map fun c => if c = '\r' ∨ c = '\n' then ' ' else c,
    "source_filename = \"speck\"".toList] ++
  targetTriple.toList.map (fun triple => "target triple = \"".toList ++ triple ++ ['"']) ++ [[]]

def builtinLine (builtin : BuiltinFunction) : Option Text := do
  let params ← builtin.params.mapM llvmValueType
  let returnType ← llvmReturnType builtin.returnType
  pure ("declare ".toList ++ returnType ++ ' ' :: builtin.llvmSymbol.toList ++ '(' ::
    commaSeparated params ++ [')'])

def structLine (declaration : StructDecl) : Option Text := do
  let fields ← declaration.fields.mapM fun field => llvmValueType field.ty
  pure ('%' :: symbolName "struct" declaration.name ++ " = type \x7b ".toList ++
    commaSeparated fields ++ " \x7d".toList)

def constantLine (constant : Constant) (value : ConstantValue) : Option Text := do
  let ty ← llvmValueType constant.ty
  let text ← llvmConstant value
  pure ('@' :: symbolName "const" constant.name ++ " = internal constant ".toList ++ ty ++
    ' ' :: text)

def globalLine (global : Global) : Option Text := do
  let value ← global.value
  let ty ← llvmValueType global.ty
  let text ← llvmConstant value
  pure ('@' :: symbolName "global" global.name ++ " = internal global ".toList ++ ty ++
    ' ' :: text)

/-- The emitter of a function of the program. -/
def functionEmitter (program : Program) (constants : List (Constant × ConstantValue))
    (diagnostics : RuntimeDiagnostics) (function : Function) : FunctionEmitter where
  function := function
  globals := globalVariables program constants
  constants := knownConstants program constants
  structs := structTable program.structs
  functions := functionSignatures program
  diagnostics := diagnostics

/-- Without the last newline, where an empty line would end the text. -/
def trimLastLine (text : Text) : Text :=
  if ['\n', '\n'].isSuffixOf text then text.dropLast else text

/-- `emit_program`. -/
def emitProgram (program : Program) (targetTriple : Option Text)
    (diagnostics : RuntimeDiagnostics) : Option Text := do
  let constants ← constantValues program
  let builtins ← Builtins.functions.mapM builtinLine
  let structs ← program.structs.mapM structLine
  let aggregates ← (constants.filter fun (_, value) => isAggregateConstant value).mapM
    fun (constant, value) => constantLine constant value
  let globals ← program.globals.mapM globalLine
  let functions ← program.functions.mapM fun function =>
    (functionEmitter program constants diagnostics function).emit program.title.utf8ByteSize
  pure (trimLastLine (
    EmbeddedData.unlines (headerLines program targetTriple) ++
    EmbeddedData.emit program ++
    EmbeddedData.unlines builtins ++
    diagnostics.declarations ++
    EmbeddedData.unlines ["declare void @crumb_bounds_fail(i32, i32)".toList,
      "declare void @crumb_division_fail(i32, i32)".toList,
      "declare void @crumb_remainder_fail(i32, i32)".toList, []] ++
    EmbeddedData.unlines structs ++ (if program.structs = [] then [] else ['\n']) ++
    EmbeddedData.unlines aggregates ++ EmbeddedData.unlines globals ++
    (if program.globals = [] ∧ aggregates = [] then [] else ['\n']) ++
    functions.flatMap (· ++ ['\n'])))

end Emitter

end Speck
