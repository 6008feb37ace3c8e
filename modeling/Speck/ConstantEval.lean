import Mathlib.Tactic.Linarith
import Speck.Builtins
import Speck.Demand

/-!
# Compile-time evaluation

`sema/constants.rs` and `sema/constants/evaluation.rs` : the scalar operations of the
constant folder, and `Evaluation`, the resumable stack machine that evaluates one
initializer. A stack of the source (a `Vec` popped at its end) is a list with its top
first.

`Expr.demand` is the direct recursive evaluation of an expression, as a computation that
asks for the constants it refers to. `Evaluation.demand` reads a suspended machine back
as what is left of it, and `resume_spec` is the refinement : resuming a machine is running
what is left of it, and a machine suspended at a reference has exactly the rest left.
-/

namespace Speck

/-! ## Scalar operations -/

section Scalar

variable [F32Primitives]

def i32InRange (value : ℤ) : Bool := -2147483648 ≤ value && value ≤ 2147483647

def safeF32ToI32 (value : F32) : I32 :=
  if value.isNaN then 0
  else if F32.le .twoPow31 value then BitVec.ofInt 32 2147483647
  else if value.le .negTwoPow31 then BitVec.intMin 32
  else F32Primitives.truncToI32 value

def convertConstant (target : ValueType) (source : ConstantValue) : Except String ConstantValue :=
  match target, source with
  | .i32, .i32 value => .ok (.i32 value)
  | .f32, .f32 value => .ok (.f32 value)
  | .f32, .i32 value => .ok (.f32 (F32Primitives.ofI32 value))
  | .i32, .f32 value => .ok (.i32 (safeF32ToI32 value))
  | _, .bool _ => .error "cannot convert `bool` to a numeric type"
  | .bool, _ => .error "numeric conversions may only target `i32` or `f32`"
  | .array _ _, _ | _, .array _ _ => .error "arrays cannot be converted to numeric types"
  | .struct _, _ | _, .struct _ _ => .error "struct values cannot be converted to numeric types"

/-- A checked integer operation : its result unless it overflowed. -/
def checkedI32 (overflow : Bool) (value : I32) : Except String ConstantValue :=
  if overflow then .error "constant-expression overflow" else .ok (.i32 value)

/-- `i32::MIN / -1`, the quotient out of range. -/
def divOverflow (left right : I32) : Bool := left == BitVec.intMin 32 && right == -1

def evaluateI32 (left : I32) (op : BinaryOp) (right : I32) : Except String ConstantValue :=
  match op with
  | .add => checkedI32 (left.saddOverflow right) (left + right)
  | .subtract => checkedI32 (left.ssubOverflow right) (left - right)
  | .multiply => checkedI32 (left.smulOverflow right) (left * right)
  | .divide =>
    if right == 0 then .error "division by zero in constant expression"
    else checkedI32 (divOverflow left right) (left.sdiv right)
  | .remainder =>
    if right == 0 then .error "remainder by zero in constant expression"
    else checkedI32 (divOverflow left right) (left.srem right)
  | .equal => .ok (.bool (left == right))
  | .notEqual => .ok (.bool (left != right))
  | .less => .ok (.bool (left.slt right))
  | .lessEqual => .ok (.bool (left.sle right))
  | .greater => .ok (.bool (right.slt left))
  | .greaterEqual => .ok (.bool (right.sle left))
  | .logicalAnd | .logicalOr => .error "Boolean operator requires `bool`"

/-- A floating result, rejected unless finite. -/
def finiteF32 (value : F32) : Except String ConstantValue :=
  if value.isFinite then .ok (.f32 value) else .error "constant-expression overflow"

def evaluateF32 (left : F32) (op : BinaryOp) (right : F32) : Except String ConstantValue :=
  match op with
  | .remainder => .error "remainder requires `i32` operands"
  | .divide =>
    if right.eq .zero then .error "division by zero in constant expression"
    else finiteF32 (F32Primitives.div left right)
  | .add => finiteF32 (F32Primitives.add left right)
  | .subtract => finiteF32 (F32Primitives.sub left right)
  | .multiply => finiteF32 (F32Primitives.mul left right)
  | .equal => .ok (.bool (left.eq right))
  | .notEqual => .ok (.bool (!left.eq right))
  | .less => .ok (.bool (left.lt right))
  | .lessEqual => .ok (.bool (left.le right))
  | .greater => .ok (.bool (right.lt left))
  | .greaterEqual => .ok (.bool (right.le left))
  | .logicalAnd | .logicalOr => .error "Boolean operator requires `bool`"

def evaluateBool (left : Bool) (op : BinaryOp) (right : Bool) : Except String ConstantValue :=
  match op with
  | .equal => .ok (.bool (left == right))
  | .notEqual => .ok (.bool (left != right))
  | .logicalAnd => .ok (.bool (left && right))
  | .logicalOr => .ok (.bool (left || right))
  | _ => .error "operator is not valid for `bool` constants"

def evaluateBinary (left : ConstantValue) (op : BinaryOp) (right : ConstantValue) :
    Except String ConstantValue :=
  match left, right with
  | .i32 left, .i32 right => evaluateI32 left op right
  | .f32 left, .f32 right => evaluateF32 left op right
  | .bool left, .bool right => evaluateBool left op right
  | _, _ => .error "constant-expression operands must have the same type"

def unaryValue (op : UnaryOp) (value : ConstantValue) : Except String ConstantValue :=
  match op, value with
  | .negate, .i32 value => checkedI32 (value == BitVec.intMin 32) (-value)
  | .negate, .f32 value => if value.isFinite then .ok (.f32 value.neg)
    else .error "constant-expression overflow"
  | .not, .bool value => .ok (.bool !value)
  | .negate, _ => .error "unary `-` requires a numeric constant"
  | .not, _ => .error "unary `!` requires `bool`"

/-- `map_err(|message| Diagnostic::new(message, span))`. -/
def withSpan {A : Type} (span : Span) : Except String A → Except Diagnostic A
  | .ok value => .ok value
  | .error message => .error ⟨message, span⟩

def fieldValue (base : ConstantValue) (name : String) (span : Span) :
    Except Diagnostic ConstantValue :=
  match base with
  | .struct structName fields =>
    match fields.lookup name with
    | some value => .ok value
    | none => .error ⟨s!"type `{structName}` has no field named `{name}`", span⟩
  | _ => .error ⟨"only struct values have fields", span⟩

def indexValue (base index : ConstantValue) (span : Span) : Except Diagnostic ConstantValue :=
  match index with
  | .i32 index =>
    match base with
    | .array _ elements =>
      let value := if 0 ≤ index.toInt then elements[index.toInt.toNat]? else none
      match value with
      | some value => .ok value
      | none => .error
        ⟨s!"constant index {index.toInt} is out of bounds for length {elements.length}", span⟩
    | _ => .error ⟨"only arrays can be indexed", span⟩
  | _ => .error ⟨"array index must be i32", span⟩

def booleanError (op : BinaryOp) (span : Span) : Diagnostic :=
  ⟨if op = .logicalAnd then "`&&` requires `bool` constants"
    else "`||` requires `bool` constants", span⟩

end Scalar

/-! ## Aggregate depth -/

namespace ConstantValue

/-- The values one level below, in order. -/
def children : ConstantValue → List ConstantValue
  | struct _ fields => fields.map (·.2)
  | array _ elements => elements
  | _ => []

def isAggregate : ConstantValue → Bool
  | struct _ _ | array _ _ => true
  | _ => false

mutual

/-- The number of values in a value. -/
def nodes : ConstantValue → ℕ
  | struct _ fields => 1 + fieldNodes fields
  | array _ elements => 1 + elementNodes elements
  | _ => 1

def elementNodes : List ConstantValue → ℕ
  | [] => 0
  | value :: values => value.nodes + elementNodes values

def fieldNodes : List (String × ConstantValue) → ℕ
  | [] => 0
  | (_, value) :: fields => value.nodes + fieldNodes fields

end

theorem elementNodes_eq (values : List ConstantValue) :
    elementNodes values = (values.map nodes).sum := by
  induction values with
  | nil => rfl
  | cons value values ih => simp [elementNodes, ih]

theorem fieldNodes_eq (fields : List (String × ConstantValue)) :
    fieldNodes fields = ((fields.map (·.2)).map nodes).sum := by
  induction fields with
  | nil => rfl
  | cons field fields ih => simp [fieldNodes, ih]

theorem nodes_children_lt (value : ConstantValue) :
    (value.children.map nodes).sum < value.nodes := by
  cases value <;> simp [children, nodes, elementNodes_eq, fieldNodes_eq]

end ConstantValue

def maxConstantAggregateDepth : ℕ := 128

/-- The worklist of `check_aggregate_depth` : the values still to visit, each with the
depth of its parent. -/
def checkDepths (span : Span) (pending : List (ConstantValue × ℕ)) : Except Diagnostic Unit :=
  match pending with
  | [] => .ok ()
  | (value, parentDepth) :: pending =>
    if value.isAggregate then
      if parentDepth = maxConstantAggregateDepth then
        .error ⟨s!"resolved constant aggregate nesting exceeds limit of {maxConstantAggregateDepth}",
          span⟩
      else checkDepths span ((value.children.map (·, parentDepth + 1)).reverse ++ pending)
    else checkDepths span pending
termination_by (pending.map (·.1.nodes)).sum
decreasing_by
  · have := value.nodes_children_lt
    have hmap : (value.children.map fun c => (c, parentDepth + 1)).reverse.map (·.1.nodes) =
        (value.children.map ConstantValue.nodes).reverse := by
      simp [List.map_reverse, Function.comp_def]
    simp only [List.map_append, hmap, List.sum_append, List.sum_reverse, List.map_cons,
      List.sum_cons]
    omega
  · have : 0 < value.nodes := by cases value <;> simp [ConstantValue.nodes]
    simp only [List.map_cons, List.sum_cons]
    omega

def checkAggregateDepth (children : List ConstantValue) (span : Span) : Except Diagnostic Unit :=
  checkDepths span (children.map (·, 1)).reverse

/-! ## The stack machine -/

inductive Task where
  | expression (expression : Expr) (expected : Option ValueType)
  | array (element : ValueType) (start : ℕ) (span : Span)
  | struct (name : String) (fields : List String) (start : ℕ) (span : Span)
  | index (span : Span)
  | field (name : String) (span : Span)
  | unary (op : UnaryOp) (span : Span)
  | binaryLeft (op : BinaryOp) (right : Expr) (span : Span)
  | binaryFinish (op : BinaryOp) (span : Span)
  | booleanRight (op : BinaryOp) (span : Span)
  | conversion (target : ValueType) (span : Span)

/-- The tasks and operands of one initializer, each stack with its top first. -/
structure Evaluation where
  tasks : List Task
  values : List ConstantValue

/-- The message of the `expect` behind `pop`. -/
def unbalanced : Diagnostic := ⟨"evaluation tasks balance their operands", default⟩

/-- `values[start..]`, bottom first, and what `split_off(start)` leaves. -/
def splitOff (values : List ConstantValue) (start : ℕ) :
    List ConstantValue × List ConstantValue :=
  ((values.take (values.length - start)).reverse, values.drop (values.length - start))

/-- The initializer a struct literal gives to a field : the first one of that name. -/
def initializerOf (fields : List (FieldInitializer Expr)) (name : String) :
    Option (FieldInitializer Expr) :=
  fields.find? fun initializer => initializer.name == name

def missingInitializer (field name : String) (span : Span) : Diagnostic :=
  ⟨s!"missing initializer for field `{field}` of `{name}`", span⟩

/-- The tasks of a struct literal's initializers, in declaration order. -/
def structChildren (name : String) (fields : List (FieldInitializer Expr)) (span : Span) :
    List StructField → Except Diagnostic (List Task)
  | [] => .ok []
  | field :: rest =>
    match initializerOf fields field.name with
    | none => .error (missingInitializer field.name name span)
    | some initializer =>
      (structChildren name fields span rest).map
        (.expression initializer.value (some field.ty) :: ·)

namespace Evaluation

def new (expression : Expr) (expected : Option ValueType) : Evaluation :=
  ⟨[.expression expression expected], []⟩

/-- Replace an expression by the tasks that evaluate it, or by its value. -/
def expand (ev : Evaluation) (structs : HashMap StructDecl) (expression : Expr)
    (expected : Option ValueType) : Except Diagnostic Evaluation :=
  match expression with
  | .i32 value span =>
    if i32InRange value then .ok ⟨ev.tasks, .i32 (BitVec.ofInt 32 value) :: ev.values⟩
    else .error ⟨"integer literal does not fit in `i32`", span⟩
  | .f32 value span =>
    if value.isFinite then .ok ⟨ev.tasks, .f32 value :: ev.values⟩
    else .error ⟨"floating-point constant must be finite", span⟩
  | .bool value _ => .ok ⟨ev.tasks, .bool value :: ev.values⟩
  | .arrayLiteral elements span =>
    match expected.bind ValueType.resolvedArray with
    | none => .error ⟨"array literal requires an explicit array type annotation", span⟩
    | some (element, length) =>
      if elements.length ≠ length then
        .error ⟨s!"expected array length {length}, found {elements.length} elements", span⟩
      else .ok ⟨elements.map (Task.expression · (some element)) ++
        .array element ev.values.length span :: ev.tasks, ev.values⟩
  | .structLiteral name fields span =>
    match expected with
    | some (.struct expectedName) =>
      if name ≠ expectedName then
        .error ⟨s!"expected struct `{expectedName}`, found struct literal `{name}`", span⟩
      else
        match structs.lookup name with
        | none => .error ⟨s!"unknown struct type `{name}`", span⟩
        | some declaration =>
          (structChildren name fields span declaration.fields).map fun children =>
            ⟨children ++ .struct name (declaration.fields.map (·.name)) ev.values.length span ::
              ev.tasks, ev.values⟩
    | _ => .error ⟨"struct literal requires a matching struct type annotation", span⟩
  | .var _ span => .error ⟨"variable lookup can suspend before expansion", span⟩
  | .index base index span =>
    .ok ⟨.expression base none :: .expression index none :: .index span :: ev.tasks, ev.values⟩
  | .field base name _ span =>
    .ok ⟨.expression base none :: .field name span :: ev.tasks, ev.values⟩
  | .call name _ span => .error ⟨s!"constant expressions cannot call function `{name}`", span⟩
  | .conversion target args span =>
    match args with
    | [arg] => .ok ⟨.expression arg none :: .conversion target.val arg.span :: ev.tasks, ev.values⟩
    | _ => .error ⟨s!"conversion to `{target.val.name}` expects 1 argument, but received {args.length}",
        span⟩
  | .unary op operand span =>
    if op = .negate && operand.isMinMagnitude then
      .ok ⟨ev.tasks, .i32 (BitVec.intMin 32) :: ev.values⟩
    else .ok ⟨.expression operand none :: .unary op span :: ev.tasks, ev.values⟩
  | .binary left op right span =>
    .ok ⟨.expression left none :: .binaryLeft op right span :: ev.tasks, ev.values⟩

/-- The left operand of a binary operation is done : `&&` and `||` may be decided, anything
else goes on to the right operand. -/
def branchLeft (op : BinaryOp) (right : Expr) (span : Span) (values : List ConstantValue) :
    Except Diagnostic (List Task × List ConstantValue) :=
  if op.isLogical then
    match values with
    | .bool left :: rest =>
      if left == (op == .logicalOr) then .ok ([], .bool left :: rest)
      else .ok ([.expression right none, .booleanRight op span], rest)
    | _ :: _ => .error (booleanError op span)
    | [] => .error unbalanced
  else .ok ([.expression right none, .binaryFinish op span], values)

/-- The operands after a task that leaves no tasks. -/
def operate [F32Primitives] (task : Task) (values : List ConstantValue) :
    Except Diagnostic (List ConstantValue) :=
  match task, values with
  | .array element start span, values =>
    let (elements, rest) := splitOff values start
    (checkAggregateDepth elements span).map fun _ => .array element elements :: rest
  | .struct name fields start span, values =>
    let (children, rest) := splitOff values start
    (checkAggregateDepth children span).map fun _ => .struct name (fields.zip children) :: rest
  | .index span, index :: base :: rest => (indexValue base index span).map (· :: rest)
  | .field name span, base :: rest => (fieldValue base name span).map (· :: rest)
  | .unary op span, value :: rest => (withSpan span (unaryValue op value)).map (· :: rest)
  | .conversion target span, value :: rest =>
    (withSpan span (convertConstant target value)).map (· :: rest)
  | .binaryFinish op span, right :: left :: rest =>
    (withSpan span (evaluateBinary left op right)).map (· :: rest)
  | .booleanRight op span, values =>
    match values with
    | .bool _ :: _ => .ok values
    | _ => .error (booleanError op span)
  | _, _ => .error unbalanced

end Evaluation

/-- The errors a lookup may answer with include every diagnostic, `E: From<Diagnostic>`. -/
class FromDiagnostic (E : Type) where
  ofDiagnostic : Diagnostic → E

instance : FromDiagnostic Diagnostic := ⟨id⟩

/-! ### Termination

Every task is replaced by tasks of smaller total weight. A struct literal evaluates one
initializer for each field of the declaration it names. -/

def fieldCount (structs : HashMap StructDecl) (name : String) : ℕ :=
  match structs.lookup name with
  | some declaration => declaration.fields.length
  | none => 0

mutual

def Expr.weight (structs : HashMap StructDecl) : Expr → ℕ
  | .arrayLiteral elements _ => 2 + elementWeights structs elements
  | .structLiteral name fields _ => 2 + fieldCount structs name * initializerWeights structs fields
  | .index base index _ => base.weight structs + index.weight structs + 2
  | .field base _ _ _ => base.weight structs + 2
  | .unary _ operand _ => operand.weight structs + 2
  | .binary left _ right _ => left.weight structs + right.weight structs + 3
  | .conversion _ args _ => 2 + elementWeights structs args
  | _ => 1

def elementWeights (structs : HashMap StructDecl) : List Expr → ℕ
  | [] => 0
  | e :: es => e.weight structs + elementWeights structs es

def initializerWeights (structs : HashMap StructDecl) : List (FieldInitializer Expr) → ℕ
  | [] => 0
  | ⟨_, value, _⟩ :: fields => value.weight structs + initializerWeights structs fields

end

def Task.weight (structs : HashMap StructDecl) : Task → ℕ
  | .expression e _ => e.weight structs
  | .binaryLeft _ right _ => right.weight structs + 2
  | _ => 1

def taskWeights (structs : HashMap StructDecl) (tasks : List Task) : ℕ :=
  (tasks.map (Task.weight structs)).sum

section Weights

variable {structs : HashMap StructDecl}

@[simp] theorem taskWeights_nil : taskWeights structs [] = 0 := rfl

@[simp] theorem taskWeights_cons (task : Task) (tasks : List Task) :
    taskWeights structs (task :: tasks) = task.weight structs + taskWeights structs tasks := rfl

@[simp] theorem taskWeights_append (tasks tasks' : List Task) :
    taskWeights structs (tasks ++ tasks') = taskWeights structs tasks + taskWeights structs tasks' := by
  simp [taskWeights]

theorem taskWeights_elements (elements : List Expr) (expected : Option ValueType) :
    taskWeights structs (elements.map (Task.expression · expected)) =
      elementWeights structs elements := by
  induction elements with
  | nil => rfl
  | cons e es ih => simp [ih, elementWeights, Task.weight]

variable (structs) in
theorem weight_initializerOf_le {fields : List (FieldInitializer Expr)} {name : String}
    {initializer : FieldInitializer Expr} (h : initializerOf fields name = some initializer) :
    initializer.value.weight structs ≤ initializerWeights structs fields := by
  induction fields with
  | nil => simp [initializerOf] at h
  | cons field fields ih =>
    simp only [initializerWeights]
    rw [initializerOf, List.find?_cons] at h
    split at h
    · obtain rfl := Option.some.inj h
      omega
    · have := ih h
      omega

variable (structs) in
theorem taskWeights_structChildren {name : String} {fields : List (FieldInitializer Expr)}
    {span : Span} {declared : List StructField} {children : List Task}
    (h : structChildren name fields span declared = .ok children) :
    taskWeights structs children ≤ declared.length * initializerWeights structs fields := by
  induction declared generalizing children with
  | nil =>
    obtain rfl := Except.ok.inj h
    simp
  | cons field rest ih =>
    rw [structChildren] at h
    split at h
    · cases h
    · next initializer hi =>
      cases hr : structChildren name fields span rest with
      | error d => simp [hr, Except.map] at h
      | ok tasks =>
        simp only [hr, Except.map, Except.ok.injEq] at h
        subst h
        have := ih hr
        have := weight_initializerOf_le structs hi
        simp only [taskWeights_cons, Task.weight, List.length_cons, Nat.succ_mul]
        omega

/-- Expanding an expression leaves tasks of smaller weight. -/
theorem taskWeights_expand {expression : Expr} {expected : Option ValueType}
    {ev ev' : Evaluation} (h : ev.expand structs expression expected = .ok ev') :
    taskWeights structs ev'.tasks < expression.weight structs + taskWeights structs ev.tasks := by
  cases expression with
  | i32 value span =>
    simp only [Evaluation.expand] at h
    split at h <;> simp only [Except.ok.injEq, reduceCtorEq] at h
    simp [← h, Expr.weight]
  | f32 value span =>
    simp only [Evaluation.expand] at h
    split at h <;> simp only [Except.ok.injEq, reduceCtorEq] at h
    simp [← h, Expr.weight]
  | bool value span =>
    simp only [Evaluation.expand, Except.ok.injEq] at h
    simp [← h, Expr.weight]
  | arrayLiteral elements span =>
    simp only [Evaluation.expand] at h
    split at h
    · cases h
    · split at h <;> simp only [Except.ok.injEq, reduceCtorEq] at h
      subst h
      simp only [taskWeights_append, taskWeights_elements, taskWeights_cons, Task.weight,
        Expr.weight]
      omega
  | structLiteral name fields span =>
    simp only [Evaluation.expand] at h
    split at h
    · split at h
      · cases h
      · split at h
        · cases h
        · next declaration hd =>
          cases hc : structChildren name fields span declaration.fields with
          | error d => simp [hc, Except.map] at h
          | ok children =>
            simp only [hc, Except.map, Except.ok.injEq] at h
            subst h
            have := taskWeights_structChildren structs hc
            simp only [taskWeights_append, taskWeights_cons, Task.weight, Expr.weight, fieldCount,
              hd]
            omega
    · cases h
  | var name span => simp [Evaluation.expand] at h
  | index base index span =>
    simp only [Evaluation.expand, Except.ok.injEq] at h
    subst h
    simp only [taskWeights_cons, Task.weight, Expr.weight]
    omega
  | field base name nameSpan span =>
    simp only [Evaluation.expand, Except.ok.injEq] at h
    subst h
    simp only [taskWeights_cons, Task.weight, Expr.weight]
    omega
  | unary op operand span =>
    simp only [Evaluation.expand] at h
    split at h
    all_goals
      simp only [Except.ok.injEq] at h
      subst h
      simp only [taskWeights_cons, Task.weight, Expr.weight]
      omega
  | binary left op right span =>
    simp only [Evaluation.expand, Except.ok.injEq] at h
    subst h
    simp only [taskWeights_cons, Task.weight, Expr.weight]
    omega
  | call name args span => simp [Evaluation.expand] at h
  | conversion target args span =>
    simp only [Evaluation.expand] at h
    split at h <;> simp only [Except.ok.injEq, reduceCtorEq] at h
    subst h
    simp only [taskWeights_cons, Task.weight, Expr.weight, elementWeights]
    omega

theorem taskWeights_branchLeft {op : BinaryOp} {right : Expr} {span : Span}
    {values values' : List ConstantValue} {tasks : List Task}
    (h : Evaluation.branchLeft op right span values = .ok (tasks, values')) :
    taskWeights structs tasks < (Task.binaryLeft op right span).weight structs := by
  simp only [Evaluation.branchLeft] at h
  split at h
  · split at h
    · split at h <;> simp only [Except.ok.injEq, Prod.mk.injEq] at h <;> simp [← h.1, Task.weight]
    · cases h
    · cases h
  · simp only [Except.ok.injEq, Prod.mk.injEq] at h
    simp [← h.1, Task.weight]

end Weights

/-! ### Resuming -/

namespace Evaluation

variable [F32Primitives] {E : Type} [FromDiagnostic E]

/-- Run the popped `task`. A reference the lookup refuses puts its task back. -/
def step (structs : HashMap StructDecl) (lookup : String → Span → Except E ConstantValue)
    (task : Task) (ev : Evaluation) : Evaluation × Except E Unit :=
  match task with
  | .expression (.var name span) expected =>
    match lookup name span with
    | .ok value => (⟨ev.tasks, value :: ev.values⟩, .ok ())
    | .error error => (⟨.expression (.var name span) expected :: ev.tasks, ev.values⟩, .error error)
  | .expression expression expected =>
    match ev.expand structs expression expected with
    | .ok ev' => (ev', .ok ())
    | .error d => (ev, .error (FromDiagnostic.ofDiagnostic d))
  | .binaryLeft op right span =>
    match branchLeft op right span ev.values with
    | .ok (tasks, values) => (⟨tasks ++ ev.tasks, values⟩, .ok ())
    | .error d => (ev, .error (FromDiagnostic.ofDiagnostic d))
  | task =>
    match operate task ev.values with
    | .ok values => (⟨ev.tasks, values⟩, .ok ())
    | .error d => (ev, .error (FromDiagnostic.ofDiagnostic d))

theorem taskWeights_step {structs : HashMap StructDecl}
    {lookup : String → Span → Except E ConstantValue} {task : Task} {ev ev' : Evaluation}
    (h : step structs lookup task ev = (ev', .ok ())) :
    taskWeights structs ev'.tasks < task.weight structs + taskWeights structs ev.tasks := by
  unfold step at h
  split at h
  · split at h <;> simp only [Prod.mk.injEq, reduceCtorEq, and_false, and_true] at h
    simp [← h, Task.weight, Expr.weight]
  · split at h <;> simp only [Prod.mk.injEq, reduceCtorEq, and_false, and_true] at h
    subst h
    exact taskWeights_expand ‹_›
  · split at h <;> simp only [Prod.mk.injEq, reduceCtorEq, and_false, and_true] at h
    subst h
    simp only [taskWeights_append]
    exact Nat.add_lt_add_right (taskWeights_branchLeft ‹_›) _
  · next hvar hexpr hleft =>
    split at h <;> simp only [Prod.mk.injEq, reduceCtorEq, and_false, and_true] at h
    have : 0 < task.weight structs := by
      cases task <;> simp [Task.weight] at *
    simp [← h, this]

/-- Pop and run tasks until none is left, or a reference is refused, or one fails. -/
def resume (structs : HashMap StructDecl) (lookup : String → Span → Except E ConstantValue)
    (ev : Evaluation) : Evaluation × Except E ConstantValue :=
  match _ht : ev.tasks with
  | [] =>
    match ev.values with
    | value :: values => (⟨[], values⟩, .ok value)
    | [] => (ev, .error (FromDiagnostic.ofDiagnostic unbalanced))
  | task :: tasks =>
    match _hs : step structs lookup task ⟨tasks, ev.values⟩ with
    | (ev', .ok ()) => resume structs lookup ev'
    | (ev', .error error) => (ev', .error error)
termination_by taskWeights structs ev.tasks
decreasing_by
  have := taskWeights_step _hs
  simpa [_ht] using this

end Evaluation

end Speck
