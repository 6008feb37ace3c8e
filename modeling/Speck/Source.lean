import Speck.CheckedProgram

/-!
# The source semantics

What a checked program does, as a definitional interpreter : operands, arguments, elements and
fields are evaluated left to right, an assignment evaluates its target's path before its right-hand
side, `&&` and `||` skip their right operand, `i32` arithmetic wraps, and a failed bounds check, a
division and a remainder end the run with their operands. A run that takes more calls and turns of
loops than its fuel is `exhausted`; one that meets a state in which the semantics says nothing is
`stuck`.

A run notes what it evaluates, calls, assigns and returns. A frame keeps the declared type and the
mutability of each local beside its value; no step looks at them.
-/

namespace Speck

namespace Source

/-! ## Runs -/

/-- A failure that the runtime reports, with its operands. -/
inductive Failure where
  | bounds (index : I32) (length : ℕ)
  | division (dividend divisor : I32)
  | remainder (dividend divisor : I32)

inductive Stop where
  | failed (failure : Failure)
  | exhausted
  | stuck

inductive Event where
  | value (scopes : Scopes) (e : Expr) (expected : Option ValueType) (result : Option ConstantValue)
  | call (name : String) (args : List ConstantValue)
  | assign (scopes : Scopes) (root : String)
  | return (returnType : ReturnType) (result : Option ConstantValue)

/-- The globals, the scopes of the function that runs, and what was noted, the last first. -/
structure RunState where
  globals : HashMap ConstantValue
  scopes : Scopes
  locals : List (HashMap ConstantValue)
  events : List Event

abbrev RunM := ExceptT Stop (StateM RunState)

def stuck {α : Type} : RunM α := throw .stuck

def note (event : Event) : RunM Unit :=
  modify fun s => { s with events := event :: s.events }

/-- The answers of the host to builtin functions, by what has happened so far. -/
structure Host where
  i32 : List Event → I32
  f32 : List Event → F32
  bool : List Event → Bool

def Host.answer (host : Host) (events : List Event) : ReturnType → Option ConstantValue
  | .value .i32 => some (.i32 (host.i32 events))
  | .value .f32 => some (.f32 (host.f32 events))
  | .value .bool => some (.bool (host.bool events))
  | _ => none

/-! ## Operations -/

section Operations

variable [F32Primitives]

def runI32 (left : I32) (op : BinaryOp) (right : I32) : Except Stop ConstantValue :=
  match op with
  | .add => .ok (.i32 (left + right))
  | .subtract => .ok (.i32 (left - right))
  | .multiply => .ok (.i32 (left * right))
  | .divide =>
    if right == 0 || divOverflow left right then .error (.failed (.division left right))
    else .ok (.i32 (left.sdiv right))
  | .remainder =>
    if right == 0 || divOverflow left right then .error (.failed (.remainder left right))
    else .ok (.i32 (left.srem right))
  | .equal => .ok (.bool (left == right))
  | .notEqual => .ok (.bool (left != right))
  | .less => .ok (.bool (left.slt right))
  | .lessEqual => .ok (.bool (left.sle right))
  | .greater => .ok (.bool (right.slt left))
  | .greaterEqual => .ok (.bool (right.sle left))
  | .logicalAnd | .logicalOr => .error .stuck

/-- Every comparison is ordered, `!=` too. -/
def runF32 (left : F32) (op : BinaryOp) (right : F32) : Except Stop ConstantValue :=
  match op with
  | .add => .ok (.f32 (F32Primitives.add left right))
  | .subtract => .ok (.f32 (F32Primitives.sub left right))
  | .multiply => .ok (.f32 (F32Primitives.mul left right))
  | .divide => .ok (.f32 (F32Primitives.div left right))
  | .equal => .ok (.bool (left.eq right))
  | .notEqual => .ok (.bool (left.one right))
  | .less => .ok (.bool (left.lt right))
  | .lessEqual => .ok (.bool (left.le right))
  | .greater => .ok (.bool (right.lt left))
  | .greaterEqual => .ok (.bool (right.le left))
  | .remainder | .logicalAnd | .logicalOr => .error .stuck

def runBinary (left : ConstantValue) (op : BinaryOp) (right : ConstantValue) :
    Except Stop ConstantValue :=
  match left, right with
  | .i32 left, .i32 right => runI32 left op right
  | .f32 left, .f32 right => runF32 left op right
  | .bool left, .bool right =>
    match op with
    | .equal => .ok (.bool (left == right))
    | .notEqual => .ok (.bool (left != right))
    | _ => .error .stuck
  | _, _ => .error .stuck

def runUnary (op : UnaryOp) (operand : ConstantValue) : Except Stop ConstantValue :=
  match op, operand with
  | .negate, .i32 value => .ok (.i32 (-value))
  | .negate, .f32 value => .ok (.f32 value.neg)
  | .not, .bool value => .ok (.bool !value)
  | _, _ => .error .stuck

def runConversion (target : ValueType) (operand : ConstantValue) : Except Stop ConstantValue :=
  (convertConstant target operand).mapError fun _ => .stuck

/-- The position that an index selects. -/
def checkIndex (index : ConstantValue) (array : ConstantValue) : Except Stop ℕ :=
  match index, array with
  | .i32 index, .array _ elements =>
    if 0 ≤ index.toInt ∧ index.toInt < elements.length then .ok index.toInt.toNat
    else .error (.failed (.bounds index elements.length))
  | _, _ => .error .stuck

end Operations

/-! ## Places -/

/-- One step of a path into an aggregate. -/
inductive Step where
  | index (position : ℕ)
  | field (name : String)

def select : ConstantValue → Step → Option ConstantValue
  | .array _ elements, .index position => elements[position]?
  | .struct _ fields, .field name => fields.lookup name
  | _, _ => none

/-- The aggregate with one of its values replaced. -/
def replace : ConstantValue → Step → ConstantValue → ConstantValue
  | .array element elements, .index position, value => .array element (elements.set position value)
  | .struct name fields, .field field, value =>
    .struct name (fields.map fun p => if p.1 = field then (p.1, value) else p)
  | aggregate, _, _ => aggregate

def readPath (value : ConstantValue) : List Step → Option ConstantValue
  | [] => some value
  | step :: path => (select value step).bind (readPath · path)

def writePath (value : ConstantValue) (path : List Step) (written : ConstantValue) :
    Option ConstantValue :=
  match path with
  | [] => some written
  | step :: path => do
    let inner ← select value step
    let inner ← writePath inner path written
    pure (replace value step inner)

/-- Replace the innermost local of a name. -/
def assignLocal (locals : List (HashMap ConstantValue)) (name : String) (value : ConstantValue) :
    List (HashMap ConstantValue) :=
  match locals with
  | [] => []
  | scope :: scopes =>
    if name ∈ scope then scope.insert name value :: scopes
    else scope :: assignLocal scopes name value

/-- What a function needs of the program around it. -/
structure Env where
  structs : HashMap StructDecl
  constants : HashMap ConstantValue
  functions : HashMap Signature
  call : String → List ConstantValue → RunM (Option ConstantValue)

variable (env : Env)

/-- A local, else a global, else a constant. -/
def readName (name : String) : RunM ConstantValue := do
  let s ← get
  match (lookupScopes s.locals name).or ((s.globals.lookup name).or (env.constants.lookup name)) with
  | some value => pure value
  | none => stuck

def readPlace (name : String) (path : List Step) : RunM ConstantValue := do
  let value ← readName env name
  match readPath value path with
  | some value => pure value
  | none => stuck

/-- Constants have no place to write to. -/
def writePlace (name : String) (path : List Step) (written : ConstantValue) : RunM Unit := do
  let s ← get
  match lookupScopes s.locals name, s.globals.lookup name with
  | some value, _ =>
    match writePath value path written with
    | some value => set { s with locals := assignLocal s.locals name value }
    | none => stuck
  | none, some value =>
    match writePath value path written with
    | some value => set { s with globals := s.globals.insert name value }
    | none => stuck
  | none, none => stuck

/-- Does the expression name a place? -/
def isPlace : Expr → Bool
  | .var _ _ => true
  | .index base _ _ => isPlace base
  | .field base _ _ _ => isPlace base
  | _ => false

/-! ## Expressions -/

section Expressions

variable [F32Primitives]

def required : Option ConstantValue → RunM ConstantValue
  | some value => pure value
  | none => stuck

def lift {α : Type} (result : Except Stop α) : RunM α := ExceptT.mk (pure result)

/-- The fields of a literal in the order of their declaration. -/
def declarationOrder (declaration : StructDecl) (values : List (String × ConstantValue)) :
    Option (List (String × ConstantValue)) :=
  declaration.fields.mapM fun field => (values.lookup field.name).map (field.name, ·)

def noteValue (e : Expr) (expected : Option ValueType) (result : Option ConstantValue) :
    RunM (Option ConstantValue) := do
  let s ← get
  note (.value s.scopes e expected result)
  pure result

mutual

/-- The value of an expression, or of nothing for a call to a `void` function. An array literal has
the type that its place asks for. -/
def eval : Expr → Option ValueType → RunM (Option ConstantValue)
  | .i32 value span, expected =>
    noteValue (.i32 value span) expected (some (.i32 (BitVec.ofInt 32 value)))
  | .f32 value span, expected => noteValue (.f32 value span) expected (some (.f32 value))
  | .bool value span, expected => noteValue (.bool value span) expected (some (.bool value))
  | .arrayLiteral elements span, expected => do
    match expected.bind ValueType.resolvedArray with
    | none => stuck
    | some (element, _) =>
      let values ← evalElements element elements
      noteValue (.arrayLiteral elements span) expected (some (.array element values))
  | .structLiteral name fields span, expected => do
    match env.structs.lookup name with
    | none => stuck
    | some declaration =>
      let values ← evalFields declaration fields
      match declarationOrder declaration values with
      | none => stuck
      | some values => noteValue (.structLiteral name fields span) expected (some (.struct name values))
  | .var name span, expected => do
    let value ← readName env name
    noteValue (.var name span) expected (some value)
  | .index base index span, expected => do
    if isPlace base then
      let (name, path) ← evalPlace base
      let position ← required (← eval index none)
      let array ← readPlace env name path
      let position ← lift (checkIndex position array)
      let value ← readPlace env name (path ++ [.index position])
      noteValue (.index base index span) expected (some value)
    else
      let array ← required (← eval base none)
      let position ← required (← eval index none)
      let position ← lift (checkIndex position array)
      let value ← required (select array (.index position))
      noteValue (.index base index span) expected (some value)
  | .field base name nameSpan span, expected => do
    if isPlace base then
      let (root, path) ← evalPlace base
      let value ← readPlace env root (path ++ [.field name])
      noteValue (.field base name nameSpan span) expected (some value)
    else
      let aggregate ← required (← eval base none)
      let value ← required (select aggregate (.field name))
      noteValue (.field base name nameSpan span) expected (some value)
  | .unary op operand span, expected => do
    if op = .negate && operand.isMinMagnitude then
      noteValue (.unary op operand span) expected (some (.i32 (BitVec.intMin 32)))
    else
      let value ← required (← eval operand none)
      let value ← lift (runUnary op value)
      noteValue (.unary op operand span) expected (some value)
  | .binary left op right span, expected => do
    let leftValue ← required (← eval left none)
    if op.isLogical then
      match leftValue with
      | .bool short =>
        if short = decide (op = .logicalOr) then
          noteValue (.binary left op right span) expected (some (.bool short))
        else
          let rightValue ← required (← eval right none)
          noteValue (.binary left op right span) expected (some rightValue)
      | _ => stuck
    else
      let rightValue ← required (← eval right none)
      let value ← lift (runBinary leftValue op rightValue)
      noteValue (.binary left op right span) expected (some value)
  | .call name args span, expected => do
    match env.functions.lookup name with
    | none => stuck
    | some signature =>
      let values ← evalArgs args signature.params
      note (.call name values)
      let result ← env.call name values
      noteValue (.call name args span) expected result
  | .conversion target args span, expected => do
    match args with
    | [arg] =>
      let value ← required (← eval arg none)
      let value ← lift (runConversion target.val value)
      noteValue (.conversion target [arg] span) expected (some value)
    | _ => stuck

def evalElements (element : ValueType) : List Expr → RunM (List ConstantValue)
  | [] => pure []
  | e :: es => do
    let value ← required (← eval e (some element))
    let values ← evalElements element es
    pure (value :: values)

def evalArgs : List Expr → List ValueType → RunM (List ConstantValue)
  | [], _ => pure []
  | e :: es, ty :: types => do
    let value ← required (← eval e (some ty))
    let values ← evalArgs es types
    pure (value :: values)
  | _ :: _, [] => stuck

/-- The initializers of a literal in source order. -/
def evalFields (declaration : StructDecl) :
    List (FieldInitializer Expr) → RunM (List (String × ConstantValue))
  | [] => pure []
  | ⟨name, e, _⟩ :: fields => do
    match declaration.fields.find? (·.name == name) with
    | none => stuck
    | some field =>
      let value ← required (← eval e (some field.ty))
      let values ← evalFields declaration fields
      pure ((name, value) :: values)

/-- The root of a place and the path to it. -/
def evalPlace : Expr → RunM (String × List Step)
  | .var name _ => pure (name, [])
  | .index base index _ => do
    let (name, path) ← evalPlace base
    let position ← required (← eval index none)
    let array ← readPlace env name path
    let position ← lift (checkIndex position array)
    pure (name, path ++ [.index position])
  | .field base name _ _ => do
    let (root, path) ← evalPlace base
    pure (root, path ++ [.field name])
  | _ => stuck

end

/-! ## Statements -/

/-- Where control goes after a statement. -/
inductive Flow where
  | next
  | returned (result : Option ConstantValue)

def declareLocal (name : String) (ty : ValueType) (value : ConstantValue) : RunM Unit :=
  modify fun s =>
    { s with
      scopes := FunctionChecker.declare s.scopes name ⟨ty, .mutable⟩
      locals := match s.locals with
        | scope :: scopes => scope.insert name value :: scopes
        | [] => [] }

/-- Run in a new innermost scope. -/
def inScope {α : Type} (scope : HashMap Binding) (values : HashMap ConstantValue) (m : RunM α) :
    RunM α := do
  modify fun s => { s with scopes := scope :: s.scopes, locals := values :: s.locals }
  let a ← m
  modify fun s => { s with scopes := s.scopes.tail, locals := s.locals.tail }
  pure a

def evalBool (e : Expr) : RunM Bool := do
  match ← eval env e none with
  | some (.bool value) => pure value
  | _ => stuck

def evalI32 (e : Expr) : RunM I32 := do
  match ← eval env e none with
  | some (.i32 value) => pure value
  | _ => stuck

/-- Turns of a `while` loop. -/
def whileTurns (condition : RunM Bool) (body : RunM Flow) : ℕ → RunM Flow
  | 0 => throw .exhausted
  | fuel + 1 => do
    if ← condition then
      match ← body with
      | .next => whileTurns condition body fuel
      | .returned result => pure (.returned result)
    else pure .next

/-- Turns of a `for` loop from `current` on. -/
def forTurns (body : I32 → RunM Flow) (upper : I32) : ℕ → I32 → RunM Flow
  | 0, _ => throw .exhausted
  | fuel + 1, current => do
    if current.slt upper then
      match ← body current with
      | .next => forTurns body upper fuel (current + 1)
      | .returned result => pure (.returned result)
    else pure .next

/-- The operator of a compound assignment. -/
def binaryOp : AssignOp → Option BinaryOp
  | .set => none
  | .add => some .add
  | .subtract => some .subtract
  | .multiply => some .multiply
  | .divide => some .divide
  | .remainder => some .remainder

/-- The value that an assignment writes to a place that holds `current`. -/
def evalAssigned (current : ConstantValue) (op : AssignOp) (value : Expr) : RunM ConstantValue := do
  match binaryOp op with
  | none => required (← eval env value (some current.ty))
  | some op =>
    let right ← required (← eval env value none)
    lift (runBinary current op right)

def execAssign (target : Expr) (op : AssignOp) (value : Expr) : RunM Unit := do
  let (root, path) ← evalPlace env target
  let current ← readPlace env root path
  let written ← evalAssigned env current op value
  let s ← get
  note (.assign s.scopes root)
  writePlace root path written

def execReturn (returnType : ReturnType) (value : Option Expr) : RunM Flow := do
  match value with
  | none => pure (.returned none)
  | some e =>
    let result ← required (← eval env e returnType.valueType)
    pure (.returned (some result))

mutual

/-- `fuel` bounds the turns of every loop. -/
def exec (fuel : ℕ) (returnType : ReturnType) : Stmt → RunM Flow
  | .letVar name ty init _ => do
    let value ← required (← eval env init (some ty))
    declareLocal name ty value
    pure .next
  | .assign target op value _ => do
    execAssign env target op value
    pure .next
  | .expr e _ => do
    let _ ← eval env e none
    pure .next
  | .ifElse condition thenBlock elseBlock _ => do
    if ← evalBool env condition then inScope ∅ ∅ (execBlock fuel returnType thenBlock)
    else execElse fuel returnType elseBlock
  | .whileLoop condition body _ =>
    whileTurns (evalBool env condition) (inScope ∅ ∅ (execBlock fuel returnType body)) fuel
  | .forLoop name _ lower upper body _ => do
    let lower ← evalI32 env lower
    let upper ← evalI32 env upper
    forTurns (fun current => inScope (AList.singleton name ⟨.i32, .loopVariable⟩)
      (AList.singleton name (.i32 current)) (execBlock fuel returnType body)) upper fuel lower
  | .ret value _ => execReturn env returnType value

def execBlock (fuel : ℕ) (returnType : ReturnType) : List Stmt → RunM Flow
  | [] => pure .next
  | s :: ss => do
    match ← exec fuel returnType s with
    | .next => execBlock fuel returnType ss
    | .returned result => pure (.returned result)

def execElse (fuel : ℕ) (returnType : ReturnType) : Option (List Stmt) → RunM Flow
  | none => pure .next
  | some block => inScope ∅ ∅ (execBlock fuel returnType block)

end

/-! ## Functions -/

/-- Only a `void` function may reach its end. -/
def finish (returnType : ReturnType) : Flow → RunM (Option ConstantValue)
  | .returned result => pure result
  | .next => if returnType = .void then pure none else stuck

/-- Run in a frame of its own. -/
def inFrame {α : Type} (scopes : Scopes) (locals : List (HashMap ConstantValue)) (m : RunM α) :
    RunM α := do
  let caller ← get
  set { caller with scopes, locals }
  let a ← m
  modify fun s => { s with scopes := caller.scopes, locals := caller.locals }
  pure a

def runFunction (fuel : ℕ) (function : Function) (args : List ConstantValue) :
    RunM (Option ConstantValue) := do
  let locals := HashMap.ofList ((function.params.map (·.name)).zip args)
  let flow ← inFrame [paramScope function.params] [locals]
    (execBlock env fuel function.returnType function.body)
  let result ← finish function.returnType flow
  note (.return function.returnType result)
  pure result

end Expressions

end Source

section Program

variable [F32Primitives]

/-- The values of the constants, with the predefined ones. -/
def Program.constantValues (program : Program) : HashMap ConstantValue :=
  (predefinedValues program.resolution).extend
    (program.constants.filterMap fun constant => constant.value.map (constant.name, ·))

namespace Source

/-- Call a function by its name : one of the program, or a builtin that the host answers. -/
def call (program : Program) (host : Host) : ℕ → String → List ConstantValue →
    RunM (Option ConstantValue)
  | 0, _, _ => throw .exhausted
  | fuel + 1, name, args => do
    match program.namedFunctions.find? (·.name == name) with
    | some function =>
      runFunction ⟨structTable program.structs, program.constantValues, program.signatures,
        call program host fuel⟩ fuel function args
    | none =>
      match Builtins.functions.find? (·.name == name) with
      | some builtin =>
        let s ← get
        pure (host.answer s.events builtin.returnType)
      | none => stuck

def env (program : Program) (host : Host) (fuel : ℕ) : Env :=
  ⟨structTable program.structs, program.constantValues, program.signatures, call program host fuel⟩

/-- Run a function of the program from a store of globals. -/
def run (program : Program) (host : Host) (fuel : ℕ) (function : Function)
    (args : List ConstantValue) (globals : HashMap ConstantValue) :
    Except Stop (Option ConstantValue) × RunState :=
  (runFunction (env program host fuel) fuel function args).run.run ⟨globals, [], [], []⟩

end Source

end Program

end Speck
