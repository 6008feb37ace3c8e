import Speck.StructGraph

/-!
# The function checker

`FunctionChecker` of `sema.rs`. The checker never stops at a diagnostic : an inference is
its result, if there is one, with the diagnostics reported on the way (`Logged`). The scopes
are a stack with the innermost one first.
-/

namespace Speck

/-! ## Diagnostics on the way -/

/-- A result with the diagnostics of computing it, in order. -/
structure Logged (α : Type) where
  value : α
  diagnostics : List Diagnostic

namespace Logged

variable {α β : Type}

instance : Monad Logged where
  pure a := ⟨a, []⟩
  bind x f := ⟨(f x.value).value, x.diagnostics ++ (f x.value).diagnostics⟩

/-- Report one diagnostic. -/
def error (message : String) (span : Span) : Logged Unit := ⟨(), [⟨message, span⟩]⟩

/-- Report one diagnostic if the condition holds. -/
def errorIf (condition : Bool) (message : String) (span : Span) : Logged Unit :=
  if condition then error message span else pure ()

/-- No diagnostic was reported. -/
def Clean (x : Logged α) : Prop := x.diagnostics = []

@[simp] theorem pure_value (a : α) : (pure a : Logged α).value = a := rfl

@[simp] theorem bind_value (x : Logged α) (f : α → Logged β) :
    (x >>= f).value = (f x.value).value := rfl

@[simp] theorem clean_pure (a : α) : (pure a : Logged α).Clean := rfl

@[simp] theorem clean_bind (x : Logged α) (f : α → Logged β) :
    (x >>= f).Clean ↔ x.Clean ∧ (f x.value).Clean := List.append_eq_nil_iff

@[simp] theorem map_value (f : α → β) (x : Logged α) : (f <$> x).value = f x.value := rfl

@[simp] theorem clean_map (f : α → β) (x : Logged α) : (f <$> x).Clean ↔ x.Clean := by
  change x.diagnostics ++ [] = [] ↔ x.diagnostics = []
  rw [List.append_nil]

@[simp] theorem not_clean_error (message : String) (span : Span) : ¬(error message span).Clean := by
  simp [Clean, error]

@[simp] theorem clean_errorIf (condition : Bool) (message : String) (span : Span) :
    (errorIf condition message span).Clean ↔ condition = false := by
  cases condition <;> simp [errorIf]

@[simp] theorem clean_ite (p : Prop) [Decidable p] (x y : Logged α) :
    (if p then x else y).Clean ↔ (p → x.Clean) ∧ (¬p → y.Clean) := by
  split <;> simp_all

end Logged

/-- The type found, in a diagnostic. -/
def foundName (actual : Option ValueType) : String := (actual.map ValueType.name).getD ""

/-! ## Bindings -/

structure Signature where
  params : List ValueType
  returnType : ReturnType

inductive Mutability where
  | mutable
  | constant
  | loopVariable
  deriving DecidableEq, Repr

structure Binding where
  ty : ValueType
  mutability : Mutability
  deriving DecidableEq, Repr

abbrev Scopes := List (HashMap Binding)

/-- What a checker knows of the program and of its function. -/
structure FunctionChecker where
  globals : HashMap ValueType
  constants : HashMap ValueType
  constantValues : HashMap ConstantValue
  structs : HashMap StructDecl
  functions : HashMap Signature
  returnType : ReturnType

/-- The target of an assignment. -/
structure Lvalue where
  ty : ValueType
  mutability : Mutability
  rootName : String

/-- The innermost entry of a name. -/
def lookupScopes {α : Type} (scopes : List (HashMap α)) (name : String) : Option α :=
  scopes.findSome? (·.lookup name)

namespace FunctionChecker

variable [F32Primitives] (c : FunctionChecker)

omit [F32Primitives] in
/-- A local, else a global, else a constant. -/
def binding (scopes : Scopes) (name : String) : Option Binding :=
  (lookupScopes scopes name).or <|
    ((c.globals.lookup name).map (⟨·, .mutable⟩)).or <|
      (c.constants.lookup name).map (⟨·, .constant⟩)

/-! ## Expressions -/

omit [F32Primitives] in
/-- A value is required where `inferred` may be `void`. -/
def requireValue (inferred : Logged (Option ReturnType)) (span : Span) (description : String) :
    Logged (Option ValueType) := do
  match ← inferred with
  | some (.value ty) => return some ty
  | some .void => do
    .error s!"{description} requires a value, but found `void`" span
    return none
  | none => return none

/-- An index that folds to a constant must be in bounds. Only constants are folded. -/
def checkConstantIndex (scopes : Scopes) (index : Expr) (length : ℕ) : Logged Unit :=
  let lookup : String → Span → Except Diagnostic ConstantValue := fun name span =>
    match (c.binding scopes name).filter (·.mutability == .constant) with
    | some _ =>
      match c.constantValues.lookup name with
      | some value => .ok value
      | none => .error ⟨s!"`{name}` is not a compile-time constant", span⟩
    | none => .error ⟨s!"`{name}` is not a compile-time constant", span⟩
  match evaluateExpression index lookup with
  | .ok (.i32 value) =>
    .errorIf (value.toInt < 0 || length ≤ value.toInt.toNat)
      s!"constant index {value.toInt} is out of bounds for length {length}" index.span
  | _ => pure ()

/-- The type of an element, given what its base and its index were inferred as. -/
def inferIndex (scopes : Scopes) (base : Logged (Option ValueType))
    (indexType : Logged (Option ValueType)) (index : Expr) (span : Span) :
    Logged (Option ValueType) := do
  let some baseType ← base | return none
  let indexType ← indexType
  .errorIf (indexType.any (· != .i32))
    s!"array index must be i32, found `{foundName indexType}`" index.span
  if baseType.hasInvalidArrayLength then return none
  match baseType.resolvedArray with
  | none => do
    .error s!"cannot index value of type `{baseType.name}`" span
    return none
  | some (element, length) => do
    c.checkConstantIndex scopes index length
    return some element

omit [F32Primitives] in
/-- The type of a field of a value of type `baseType`. -/
def fieldType (baseType : ValueType) (baseSpan : Span) (name : String) (nameSpan : Span) :
    Logged (Option ValueType) :=
  match baseType with
  | .struct structName =>
    match c.structs.lookup structName with
    | none => do
      .error s!"unknown struct type `{structName}`" baseSpan
      return none
    | some declaration =>
      match declaration.fields.find? (·.name == name) with
      | none => do
        .error s!"type `{structName}` has no field named `{name}`" nameSpan
        return none
      | some field => return some field.ty
  | _ => do
    .error s!"type `{baseType.name}` has no fields" nameSpan
    return none

omit [F32Primitives] in
/-- The result type of a unary operation. -/
def unaryType (op : UnaryOp) (ty : ValueType) (span : Span) : Logged (Option ReturnType) :=
  match op, ty with
  | .negate, .i32 => return some (.value .i32)
  | .negate, .f32 => return some (.value .f32)
  | .not, .bool => return some (.value .bool)
  | .negate, _ => do
    .error "unary `-` requires `i32` or `f32`" span
    return none
  | .not, _ => do
    .error "unary `!` requires `bool`" span
    return none

omit [F32Primitives] in
/-- The result type of a binary operation on two operand types. -/
def binaryType (left : ValueType) (op : BinaryOp) (right : ValueType) (span : Span) :
    Logged (Option ReturnType) := do
  if op.isLogical then
    if left ≠ .bool ∨ right ≠ .bool then do
      .error s!"Boolean operator requires `bool` operands, found `{left.name}` and `{right.name}`"
        span
      return none
    else return some (.value .bool)
  else if left ≠ right then do
    .error s!"operator operands must have the same type, found `{left.name}` and `{right.name}`"
      span
    return none
  else
    match op with
    | .add | .subtract | .multiply | .divide =>
      if left.isNumeric then return some (.value left)
      else do
        .error "arithmetic requires `i32` or `f32` operands" span
        return none
    | .remainder =>
      if left = .i32 then return some (.value left)
      else do
        .error s!"remainder requires `i32` operands, found `{left.name}`" span
        return none
    | .less | .lessEqual | .greater | .greaterEqual =>
      if left.isNumeric then return some (.value .bool)
      else do
        .error "ordering comparison requires numeric operands" span
        return none
    | _ =>
      if left = .i32 ∨ left = .f32 ∨ left = .bool then return some (.value .bool)
      else do
        .error "equality comparison requires scalar operands" span
        return none

omit [F32Primitives] in
/-- The result type of a conversion of an operand inferred as `source`. -/
def conversionType (target : ValueType) (source : Option ReturnType) (span : Span) :
    Logged (Option ReturnType) :=
  match source with
  | some (.value .i32) | some (.value .f32) => return some (.value target)
  | some (.value .bool) => do
    .error "cannot convert `bool` to a numeric type" span
    return none
  | some (.value (.array _ _)) => do
    .error "cannot convert an array to a numeric type" span
    return none
  | some (.value (.struct name)) => do
    .error s!"cannot convert struct `{name}` to a numeric type" span
    return none
  | some .void => do
    .error "cannot convert `void` to a numeric type" span
    return none
  | none => return none

omit [F32Primitives] in
/-- Every declared field needs an initializer. -/
def missingFields (name : String) (seen : HashSet) (span : Span) :
    List StructField → Logged Unit
  | [] => pure ()
  | field :: rest => do
    .errorIf (field.name ∉ seen) s!"missing initializer for field `{field.name}` of `{name}`" span
    missingFields name seen span rest

mutual

def inferExpr (scopes : Scopes) : Expr → Logged (Option ReturnType)
  | .i32 value span => do
    .errorIf (!i32InRange value) "integer literal does not fit in `i32`" span
    return some (.value .i32)
  | .f32 value span => do
    .errorIf (!value.isFinite) "floating-point literal must be finite" span
    return some (.value .f32)
  | .bool _ _ => return some (.value .bool)
  | .arrayLiteral _ span => do
    .error "array literal requires an explicit array type annotation" span
    return none
  | .structLiteral name fields span =>
    match c.structs.lookup name with
    | none => do
      .error s!"unknown struct type `{name}`" span
      inferInitializers scopes fields
      return none
    | some declaration => do
      let seen ← checkInitializers scopes name declaration [] fields
      missingFields name seen span declaration.fields
      return some (.value (.struct name))
  | .var name span =>
    match c.binding scopes name with
    | some binding => return some (.value binding.ty)
    | none => do
      .error s!"unknown variable `{name}`" span
      return none
  | .index base index span => do
    let ty ← c.inferIndex scopes
      (requireValue (inferExpr scopes base) base.span "indexed expression")
      (requireValue (inferExpr scopes index) index.span "array index") index span
    return ty.map .value
  | .field base name nameSpan _ => do
    let some baseType ← requireValue (inferExpr scopes base) base.span "field access"
      | return none
    let ty ← c.fieldType baseType base.span name nameSpan
    return ty.map .value
  | .unary op operand span =>
    if op = .negate && operand.isMinMagnitude then return some (.value .i32)
    else do
      let some ty ← requireValue (inferExpr scopes operand) operand.span "unary operator"
        | return none
      unaryType op ty span
  | .binary left op right span => do
    let leftType ← requireValue (inferExpr scopes left) left.span "operator operand"
    let rightType ← requireValue (inferExpr scopes right) right.span "operator operand"
    match leftType, rightType with
    | some leftType, some rightType => binaryType leftType op rightType span
    | _, _ => return none
  | .call name args span =>
    match c.functions.lookup name with
    | none => do
      .error s!"unknown function `{name}`" span
      inferAll scopes args
      return none
    | some signature => do
      .errorIf (args.length != signature.params.length)
        s!"function `{name}` expects {signature.params.length} argument(s), but received {args.length}"
        span
      checkArgs scopes name 0 signature.params args
      return some signature.returnType
  | .conversion target args span =>
    match args with
    | [arg] => do
      let source ← inferExpr scopes arg
      conversionType target.val source arg.span
    | args => do
      .error s!"conversion to `{target.val.name}` expects 1 argument, but received {args.length}" span
      inferAll scopes args
      return none
termination_by e => 2 * sizeOf e

def requireValueAs (scopes : Scopes) (e : Expr) (expected : ValueType) (description : String) :
    Logged (Option ValueType) :=
  if expected.hasInvalidArrayLength then return some expected
  else
    match e with
    | .arrayLiteral elements span =>
      match expected.resolvedArray with
      | none => do
        .error s!"{description} is an array literal, but the declared type is `{expected.name}`" span
        return none
      | some (elementType, length) => do
        .errorIf (elements.length != length)
          s!"expected array length {length}, found {elements.length} elements" span
        checkElements scopes elementType elements
        return some expected
    | e => requireValue (inferExpr scopes e) e.span description
termination_by 2 * sizeOf e + 1

/-- The elements of an array literal. -/
def checkElements (scopes : Scopes) (elementType : ValueType) : List Expr → Logged Unit
  | [] => pure ()
  | element :: rest => do
    let actual ← requireValueAs scopes element elementType "array element"
    .errorIf (actual.any (· != elementType))
      s!"array element expects `{elementType.name}`, but found `{foundName actual}`"
      element.span
    checkElements scopes elementType rest
termination_by elements => 2 * sizeOf elements

/-- The arguments of a call from position `index` on. -/
def checkArgs (scopes : Scopes) (name : String) (index : ℕ) (params : List ValueType) :
    List Expr → Logged Unit
  | [] => pure ()
  | arg :: rest => do
    match params with
    | expected :: params => do
      let actual ← requireValueAs scopes arg expected "function argument"
      .errorIf (actual.any (· != expected))
        s!"argument {index + 1} to `{name}` expects `{expected.name}`, but found `{foundName actual}`"
        arg.span
      checkArgs scopes name (index + 1) params rest
    | [] => do
      let _ ← requireValue (inferExpr scopes arg) arg.span "function argument"
      checkArgs scopes name (index + 1) [] rest
termination_by args => 2 * sizeOf args

def inferAll (scopes : Scopes) : List Expr → Logged Unit
  | [] => pure ()
  | e :: rest => do
    let _ ← inferExpr scopes e
    inferAll scopes rest
termination_by es => 2 * sizeOf es

/-- The initializers of a declared struct, with the fields seen before. -/
def checkInitializers (scopes : Scopes) (name : String) (declaration : StructDecl)
    (seen : HashSet) : List (FieldInitializer Expr) → Logged HashSet
  | [] => pure seen
  | ⟨fieldName, value, span⟩ :: rest =>
    if fieldName ∈ seen then do
      .error s!"field `{fieldName}` is initialized more than once in `{name}`" span
      let _ ← inferExpr scopes value
      checkInitializers scopes name declaration seen rest
    else
      match declaration.fields.find? (·.name == fieldName) with
      | none => do
        .error s!"type `{name}` has no field named `{fieldName}`" span
        let _ ← inferExpr scopes value
        checkInitializers scopes name declaration (fieldName :: seen) rest
      | some field => do
        let actual ← requireValueAs scopes value field.ty "field initializer"
        .errorIf (actual.any (· != field.ty))
          s!"field `{field.name}` of `{name}` expects `{field.ty.name}`, but found `{foundName actual}`"
          value.span
        checkInitializers scopes name declaration (fieldName :: seen) rest
termination_by fields => 2 * sizeOf fields

/-- The initializers of an unknown struct. -/
def inferInitializers (scopes : Scopes) : List (FieldInitializer Expr) → Logged Unit
  | [] => pure ()
  | ⟨_, value, _⟩ :: rest => do
    let _ ← inferExpr scopes value
    inferInitializers scopes rest
termination_by fields => 2 * sizeOf fields

end

/-! ## Statements -/

/-- The binding of the root and the type of the place that an assignment target names. -/
def inferLvalue (scopes : Scopes) : Expr → Logged (Option Lvalue)
  | .var name span =>
    match c.binding scopes name with
    | some binding => return some ⟨binding.ty, binding.mutability, name⟩
    | none => do
      .error s!"cannot assign to unknown variable `{name}`" span
      return none
  | .index base index span => do
    let some root ← inferLvalue scopes base | return none
    let indexType ← requireValue (c.inferExpr scopes index) index.span "array index"
    .errorIf (indexType.any (· != .i32))
      s!"array index must be i32, found `{foundName indexType}`" index.span
    if root.ty.hasInvalidArrayLength then return none
    match root.ty.resolvedArray with
    | none => do
      .error s!"cannot index value of type `{root.ty.name}`" span
      return none
    | some (element, length) => do
      c.checkConstantIndex scopes index length
      return some { root with ty := element }
  | .field base name nameSpan _ => do
    let some root ← inferLvalue scopes base | return none
    let ty ← c.fieldType root.ty base.span name nameSpan
    return ty.map fun ty => { root with ty }
  | e => do
    let _ ← c.inferExpr scopes e
    .error "invalid assignment target" e.span
    return none

def requireBool (scopes : Scopes) (e : Expr) (description : String) : Logged Unit := do
  let actual ← requireValue (c.inferExpr scopes e) e.span description
  .errorIf (actual.any (· != .bool))
    s!"{description} must be `bool`, found `{foundName actual}`" e.span

/-- Declare a name in the innermost scope. -/
def declare (scopes : Scopes) (name : String) (binding : Binding) : Scopes :=
  match scopes with
  | scope :: scopes => scope.insert name binding :: scopes
  | [] => []

/-- Is the name declared in the innermost scope? -/
def declaredHere (scopes : Scopes) (name : String) : Bool :=
  match scopes with
  | scope :: _ => decide (name ∈ scope)
  | [] => false

omit [F32Primitives] in
/-- The diagnostic of an assignment to a constant. -/
def constantTarget (target : Expr) (op : AssignOp) (rootName : String) : String :=
  if op = .set && target.isVar then s!"cannot assign to constant `{rootName}`"
  else if op = .set then s!"cannot assign through constant `{rootName}`"
  else if target.isVar then s!"cannot use compound assignment on constant `{rootName}`"
  else s!"cannot use compound assignment through constant `{rootName}`"

omit [F32Primitives] in
/-- The diagnostic of an assigned value of another type. -/
def mismatchedValue (target : Expr) (op : AssignOp) (lvalue : Lvalue) (actual : ValueType) : String :=
  if op = .set && target.isVar then
    s!"cannot assign `{actual.name}` to variable `{lvalue.rootName}` of type `{lvalue.ty.name}`"
  else if op = .set then s!"cannot assign `{actual.name}` to target of type `{lvalue.ty.name}`"
  else if target.isVar then
    s!"compound assignment to `{lvalue.rootName}` expects `{lvalue.ty.name}`, but found `{actual.name}`"
  else s!"compound assignment expects `{lvalue.ty.name}`, but found `{actual.name}`"

def checkAssign (scopes : Scopes) (target : Expr) (op : AssignOp) (value : Expr) (span : Span) :
    Logged Unit := do
  let some lvalue ← c.inferLvalue scopes target | return ()
  let actual ← if op = .set then c.requireValueAs scopes value lvalue.ty "assignment"
    else requireValue (c.inferExpr scopes value) value.span "compound assignment"
  match lvalue.mutability with
  | .loopVariable => .error s!"loop variable `{lvalue.rootName}` is read-only" span
  | .constant => .error (constantTarget target op lvalue.rootName) span
  | .mutable =>
    if op ≠ .set then
      if !lvalue.ty.isNumeric then
        .error s!"compound assignment requires a numeric target, but found `{lvalue.ty.name}`" span
      else
        .errorIf (op == .remainder && lvalue.ty != .i32)
          s!"remainder requires `i32` operands, but found `{lvalue.ty.name}`" span
    match actual with
    | some actual =>
      .errorIf (lvalue.ty != actual) (mismatchedValue target op lvalue actual) value.span
    | none => return ()

def checkReturn (scopes : Scopes) (value : Option Expr) (span : Span) : Logged Unit :=
  match c.returnType, value with
  | .void, none => pure ()
  | .void, some value => do
    let _ ← c.inferExpr scopes value
    .error "void function cannot return a value" value.span
  | .value expected, none => .error s!"return requires a value of type `{expected.name}`" span
  | .value expected, some value => do
    let actual ← if value.isArrayLiteral then
        (Option.map .value) <$> c.requireValueAs scopes value expected "return"
      else c.inferExpr scopes value
    match actual with
    | some (.value actual) =>
      .errorIf (actual != expected)
        s!"return expects `{expected.name}`, but found `{actual.name}`" value.span
    | some .void => .error s!"return expects `{expected.name}`, but found `void`" value.span
    | none => return ()

/-- A bound of a `for` loop. -/
def checkBound (scopes : Scopes) (bound : Expr) (description : String) : Logged Unit := do
  let actual ← requireValue (c.inferExpr scopes bound) bound.span description
  .errorIf (actual.any (· != .i32))
    s!"{description} must be `i32`, found `{foundName actual}`" bound.span

mutual

def checkStatement (scopes : Scopes) : Stmt → Logged Scopes
  | .letVar name ty init span => do
    .errorIf (Builtins.isPredefinedConstant name)
      s!"variable `{name}` conflicts with a predefined constant" span
    let actual ← c.requireValueAs scopes init ty "variable initializer"
    .errorIf (actual.any (· != ty))
      s!"variable `{name}` has type `{ty.name}`, but its initializer has type `{foundName actual}`"
      init.span
    .errorIf (declaredHere scopes name)
      s!"variable `{name}` is declared more than once in this block" span
    return declare scopes name ⟨ty, .mutable⟩
  | .assign target op value span => do
    c.checkAssign scopes target op value span
    return scopes
  | .expr expression _ => do
    let _ ← c.inferExpr scopes expression
    return scopes
  | .ifElse condition thenBlock elseBlock _ => do
    c.requireBool scopes condition "`if` condition"
    let _ ← checkStatements (∅ :: scopes) thenBlock
    match elseBlock with
    | some elseBlock => do
      let _ ← checkStatements (∅ :: scopes) elseBlock
      return scopes
    | none => return scopes
  | .whileLoop condition body _ => do
    c.requireBool scopes condition "`while` condition"
    let _ ← checkStatements (∅ :: scopes) body
    return scopes
  | .forLoop name nameSpan lower upper body _ => do
    c.checkBound scopes lower "range lower bound"
    c.checkBound scopes upper "range upper bound"
    .errorIf (Builtins.isPredefinedConstant name)
      s!"loop variable `{name}` conflicts with a predefined constant" nameSpan
    let _ ← checkStatements (AList.singleton name ⟨.i32, .loopVariable⟩ :: scopes) body
    return scopes
  | .ret value span => do
    c.checkReturn scopes value span
    return scopes

def checkStatements (scopes : Scopes) : List Stmt → Logged Scopes
  | [] => return scopes
  | statement :: rest => do
    let scopes ← checkStatement scopes statement
    checkStatements scopes rest

end

end FunctionChecker

mutual

/-- Does the statement return on every path? -/
def Stmt.returns : Stmt → Bool
  | .ret _ _ => true
  | .ifElse _ thenBlock (some elseBlock) _ => blockReturns thenBlock && blockReturns elseBlock
  | _ => false

def blockReturns : List Stmt → Bool
  | [] => false
  | statement :: rest => statement.returns || blockReturns rest

end

section Function

variable [F32Primitives]

/-- The scope of the parameters. -/
def checkParams (scope : HashMap Binding) : List Param → Logged (HashMap Binding)
  | [] => return scope
  | param :: rest => do
    .errorIf (Builtins.isPredefinedConstant param.name)
      s!"parameter `{param.name}` conflicts with a predefined constant" param.span
    .errorIf (decide (param.name ∈ scope))
      s!"parameter `{param.name}` is declared more than once" param.span
    checkParams (scope.insert param.name ⟨param.ty, .mutable⟩) rest

/-- `check_function`. -/
def checkFunction (c : FunctionChecker) (function : Function) : Logged Unit := do
  let c := { c with returnType := function.returnType }
  let scope ← checkParams ∅ function.params
  let _ ← c.checkStatements [scope] function.body
  .errorIf (function.returnType.valueType.isSome && !blockReturns function.body)
    s!"function `{function.name}` may finish without returning `{function.returnType.name}`"
    function.span

end Function

end Speck
