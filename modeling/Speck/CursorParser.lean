import Speck.ParserProgram

/-!
# The parser on its token vector

`src/parser.rs` and `src/parser/expression.rs` as they run : a cursor into the token vector, a
counter of the nesting, and a run that may end in a fault as well as in a diagnostic. `ParseM` is
the reading of the same functions where the tokens are consumed from a list and the levels of
nesting that are left are an argument; `CursorRules` compares the two.

A fault is a panic of the source (an index past the vector, a missing scope, the assertion of
`Span::merge`), or what its panics do not catch : a counter above its limit, a loop or a recursion
that outlives its bound here. A strict run, which the source does not have, also stops at a merge of
spans out of order.
-/

namespace Speck

inductive Fault where
  | pastEnd
  | noScope
  | mergedFiles
  | mergedOutOfOrder
  | overNested
  | endless
  deriving DecidableEq, Repr

inductive Stop where
  | diagnostic (diagnostic : Diagnostic)
  | fault (fault : Fault)
  deriving DecidableEq, Repr

structure Cursor where
  strict : Bool
  tokens : List Token
  cursor : ℕ
  nesting : ℕ
  structNames : List String
  valueScopes : List (List String)

abbrev CursorM := StateT Cursor (Except Stop)

open Speck.Parser (maxNesting limitMessage checkPending assignOp isRootOnly maxDimension
  factorOperators termOperators comparisonOperators equalityOperators logicalAndOperators
  logicalOrOperators)

namespace Cursor

/-! ## Tokens -/

def fail {α : Type} (message : String) (span : Span) : CursorM α := fun _ =>
  .error (.diagnostic ⟨message, span⟩)

def stopWith {α : Type} (fault : Fault) : CursorM α := fun _ => .error (.fault fault)

def current : CursorM Token := fun c =>
  match c.tokens[c.cursor]? with
  | some token => .ok (token, c)
  | none => .error (.fault .pastEnd)

def errorHere {α : Type} (message : String) : CursorM α := do
  let token ← current
  fail message token.span

def isAt (kind : TokenKind) : CursorM Bool := do
  let token ← current
  pure (token.kind == kind)

def advance : CursorM Token := fun c =>
  match c.tokens[c.cursor]? with
  | some token => .ok (token, if token.kind = .eof then c else { c with cursor := c.cursor + 1 })
  | none => .error (.fault .pastEnd)

def take (kind : TokenKind) : CursorM Bool := do
  if ← isAt kind then
    let _ ← advance
    pure true
  else pure false

def expect (kind : TokenKind) (message : String) : CursorM Token := do
  if ← isAt kind then advance else errorHere message

def identifier (message : String) : CursorM (String × Span) := do
  let token ← advance
  match token.kind with
  | .identifier name => pure (name, token.span)
  | _ => fail message token.span

def optionalSemicolon : CursorM (Option Span) := do
  if ← isAt .semicolon then
    let token ← advance
    pure (some token.span)
  else pure none

/-- `Span::merge` with its assertion. -/
def merge (a b : Span) : CursorM Span := fun c =>
  if a.source ≠ b.source then .error (.fault .mergedFiles)
  else if c.strict ∧ (b.start < a.start ∨ b.stop < a.stop) then
    .error (.fault .mergedOutOfOrder)
  else .ok (a.merge b, c)

def remaining : CursorM ℕ := fun c => .ok (c.tokens.length - c.cursor, c)

def untilClose {α : Type} (close : TokenKind) (item : CursorM α) : ℕ → CursorM (List α)
  | 0 => stopWith .endless
  | fuel + 1 => do
    if ← isAt close then pure []
    else if ← isAt .eof then pure []
    else
      let a ← item
      let as ← untilClose close item fuel
      pure (a :: as)

def commaList {α : Type} (item : CursorM α) (stop : CursorM Bool) : ℕ → CursorM (List α)
  | 0 => stopWith .endless
  | fuel + 1 => do
    let a ← item
    if ← take .comma then
      if ← stop then pure [a]
      else
        let as ← commaList item stop fuel
        pure (a :: as)
    else pure [a]

/-! ## Nesting -/

def exceeded {α : Type} : CursorM α := errorHere limitMessage

def enter : CursorM Unit := fun c =>
  if maxNesting ≤ c.nesting then .error (.fault .overNested)
  else .ok ((), { c with nesting := c.nesting + 1 })

def leave : CursorM Unit := modify fun c => { c with nesting := c.nesting - 1 }

def nested {α : Type} (parse : CursorM α) : CursorM α := do
  if (← get).nesting = maxNesting then exceeded
  else
    enter
    let result ← parse
    leave
    pure result

def checked (e : Expr) : CursorM Expr := fun c =>
  match checkPending [(e, c.nesting)] with
  | .ok _ => .ok (e, c)
  | .error diagnostic => .error (.diagnostic diagnostic)

/-- The levels of the recursion here, more than `nested` lets it use. -/
def maxLevels : ℕ := maxNesting + 1

/-! ## Names and primaries -/

def isValueBinding (c : Cursor) (name : String) : Bool :=
  c.valueScopes.any fun scope => name ∈ scope

def qualifiedName (name : String) (start : Span) : CursorM (String × Span) := do
  if ← take .colonColon then
    let (member, stop) ← identifier "expected a declaration name after `::`"
    if ← isAt .colonColon then
      errorHere
        "qualified names use one import alias and one declaration; imports are not reexported"
    else
      let span ← merge start stop
      pure (name ++ "::" ++ member, span)
  else pure (name, start)

/-- The kind of a token after the cursor, `tokens.get`. -/
def peek (c : Cursor) (offset : ℕ) : Option TokenKind :=
  c.tokens[c.cursor + offset]?.map (·.kind)

/-- A name and a colon, as in the first field of a struct literal. -/
def startsField : Option TokenKind → Option TokenKind → Bool
  | some (.identifier _), some .colon => true
  | _, _ => false

def looksLikeStructLiteral (name : String) : CursorM Bool := do
  let token ← current
  let c ← get
  pure <| if token.kind ≠ .leftBrace || c.isValueBinding name then false
    else name ∈ c.structNames || startsField (c.peek 1) (c.peek 2)

def arguments (expression : CursorM Expr) : CursorM (List Expr × Span) := do
  let args ← do
    if ← isAt .rightParen then pure []
    else commaList expression (pure false) ((← remaining) + 1)
  let stop ← expect .rightParen "expected `)` after arguments"
  pure (args, stop.span)

def arrayLiteral (expression : CursorM Expr) (start : Span) : CursorM Expr := do
  let elements ← do
    if ← isAt .rightBracket then pure []
    else commaList expression (isAt .rightBracket) ((← remaining) + 1)
  let stop ← expect .rightBracket "expected `]` after array literal"
  let span ← merge start stop.span
  checked (.arrayLiteral elements span)

def conversion (expression : CursorM Expr) (target : NumericType) (start : Span) :
    CursorM Expr := do
  let _ ← expect .leftParen "expected `(` after numeric conversion type"
  let (args, stop) ← arguments expression
  let span ← merge start stop
  checked (.conversion target args span)

def fieldInitializer (expression : CursorM Expr) : CursorM (FieldInitializer Expr) := do
  let (name, start) ← identifier "expected a field initializer name"
  let _ ← expect .colon "expected `:` after field initializer name"
  let value ← expression
  let span ← merge start value.span
  let _ ← take .comma
  pure ⟨name, value, span⟩

def structLiteral (expression : CursorM Expr) (name : String) (start : Span) : CursorM Expr := do
  let _ ← expect .leftBrace "expected `\x7b` after struct type name"
  let fields ← untilClose .rightBrace (fieldInitializer expression) ((← remaining) + 1)
  let stop ← expect .rightBrace "expected `\x7d` after struct literal"
  let span ← merge start stop.span
  checked (.structLiteral name fields span)

def namedExpression (expression : CursorM Expr) (name : String) (start : Span) :
    CursorM Expr := do
  let (name, nameSpan) ← qualifiedName name start
  if ← looksLikeStructLiteral name then structLiteral expression name nameSpan
  else if ← take .leftParen then
    let (args, stop) ← arguments expression
    let span ← merge start stop
    checked (.call name args span)
  else checked (.var name nameSpan)

def primary (expression : CursorM Expr) : CursorM Expr := do
  let token ← advance
  match token.kind with
  | .integer value => checked (.i32 value token.span)
  | .float value => checked (.f32 value token.span)
  | .true => checked (.bool true token.span)
  | .false => checked (.bool false token.span)
  | .leftBracket => arrayLiteral expression token.span
  | .identifier name => namedExpression expression name token.span
  | .i32 => conversion expression ⟨.i32, isNumeric_i32⟩ token.span
  | .f32 => conversion expression ⟨.f32, isNumeric_f32⟩ token.span
  | .leftParen =>
    let e ← expression
    let stop ← expect .rightParen "expected `)` after expression"
    let span ← merge token.span stop.span
    pure (e.withSpan span)
  | _ => fail "expected an expression" token.span

/-! ## Operators -/

def postfixLoop (expression : CursorM Expr) : ℕ → Expr → CursorM Expr
  | 0, _ => stopWith .endless
  | fuel + 1, e => do
    if ← take .leftBracket then
      let subscript ← expression
      let stop ← expect .rightBracket "expected `]` after array index"
      let span ← merge e.span stop.span
      let e ← checked (.index e subscript span)
      postfixLoop expression fuel e
    else if ← take .dot then
      let (name, nameSpan) ← identifier "expected a field name after `.`"
      let span ← merge e.span nameSpan
      let e ← checked (.field e name nameSpan span)
      postfixLoop expression fuel e
    else pure e

def postfixOperators (expression : CursorM Expr) : CursorM Expr := do
  let e ← primary expression
  postfixLoop expression (← remaining) e

def unaryOperator : CursorM (Option UnaryOp) := do
  if ← take .minus then pure (some .negate)
  else if ← take .bang then pure (some .not)
  else pure none

def unaryWith (expression nestedUnary : CursorM Expr) : CursorM Expr := do
  let token ← current
  match ← unaryOperator with
  | some op =>
    let operand ← nestedUnary
    let span ← merge token.span operand.span
    checked (.unary op operand span)
  | none => postfixOperators expression

def takeOperator : List (TokenKind × BinaryOp) → CursorM (Option BinaryOp)
  | [] => pure none
  | (kind, op) :: operators => do
    if ← take kind then pure (some op) else takeOperator operators

def binaryLoop (operators : List (TokenKind × BinaryOp)) (operand : CursorM Expr) :
    ℕ → Expr → CursorM Expr
  | 0, _ => stopWith .endless
  | fuel + 1, left => do
    match ← takeOperator operators with
    | some op =>
      let right ← operand
      let span ← merge left.span right.span
      let e ← checked (.binary left op right span)
      binaryLoop operators operand fuel e
    | none => pure left

def binaryLevel (operators : List (TokenKind × BinaryOp)) (operand : CursorM Expr) :
    CursorM Expr := do
  let left ← operand
  binaryLoop operators operand (← remaining) left

def factor (unary : CursorM Expr) : CursorM Expr := binaryLevel factorOperators unary

def term (unary : CursorM Expr) : CursorM Expr := binaryLevel termOperators (factor unary)

def comparison (unary : CursorM Expr) : CursorM Expr :=
  binaryLevel comparisonOperators (term unary)

def equality (unary : CursorM Expr) : CursorM Expr :=
  binaryLevel equalityOperators (comparison unary)

def logicalAnd (unary : CursorM Expr) : CursorM Expr :=
  binaryLevel logicalAndOperators (equality unary)

def logicalOr (unary : CursorM Expr) : CursorM Expr :=
  binaryLevel logicalOrOperators (logicalAnd unary)

def unary : ℕ → CursorM Expr
  | 0 => stopWith .endless
  | levels + 1 => unaryWith (nested (logicalOr (unary levels))) (nested (unary levels))

def expression : CursorM Expr := nested (logicalOr (unary maxLevels))

/-! ## Types -/

def arrayLength : CursorM ArrayLength := do
  if ← take .minus then
    let token ← advance
    match token.kind with
    | .integer value => pure (.literal (-value) token.span)
    | _ => fail "expected an integer literal after `-` in array length" token.span
  else
    let token ← advance
    match token.kind with
    | .integer value => pure (.literal value token.span)
    | .identifier name =>
      let (name, span) ← qualifiedName name token.span
      pure (.constant name span)
    | _ =>
      fail "array length must be a positive integer literal or an `i32` constant" token.span

def valueType (element : CursorM ValueType) : CursorM ValueType := do
  let token ← advance
  match token.kind with
  | .i32 => pure .i32
  | .f32 => pure .f32
  | .bool => pure .bool
  | .identifier name =>
    let (name, _) ← qualifiedName name token.span
    pure (.struct name)
  | .leftBracket =>
    let element ← element
    let _ ← expect .semicolon "expected `;` between the array element type and length"
    let length ← arrayLength
    let _ ← expect .rightBracket "expected `]` after array type"
    pure (.array element length)
  | .void => fail "`void` is only valid as a function return type" token.span
  | _ => fail "expected a scalar, struct, or fixed array type" token.span

def valueTypeIn : ℕ → CursorM ValueType
  | 0 => stopWith .endless
  | levels + 1 => nested (valueType (valueTypeIn levels))

def parseValueType : CursorM ValueType := valueTypeIn maxLevels

def parseReturnType : CursorM ReturnType := do
  if ← take .void then pure .void
  else
    let ty ← parseValueType
    pure (.value ty)

/-! ## Statements -/

def pushScope (names : List String) : CursorM Unit :=
  modify fun c => { c with valueScopes := names :: c.valueScopes }

def popScope : CursorM Unit := modify fun c => { c with valueScopes := c.valueScopes.tail }

def bindValue (name : String) : CursorM Unit := fun c =>
  match c.valueScopes with
  | scope :: scopes => .ok ((), { c with valueScopes := (name :: scope) :: scopes })
  | [] => .error (.fault .noScope)

def blockWithBindings (bindings : List String) (block : CursorM (Block × Span)) :
    CursorM (Block × Span) := do
  pushScope bindings
  let result ← block
  popScope
  pure result

def blockContents (statement : CursorM Stmt) : CursorM (Block × Span) := do
  let _ ← expect .leftBrace "expected `\x7b` to begin block"
  pushScope []
  let statements ← untilClose .rightBrace statement ((← remaining) + 1)
  let stop ← expect .rightBrace "expected `\x7d` to close block"
  popScope
  pure (statements, stop.span)

def simpleSpan (start stop : Span) : CursorM Span := do
  let semicolon ← optionalSemicolon
  merge start (semicolon.getD stop)

def typedInitializer (nameMessage colonMessage equalMessage : String) :
    CursorM (String × ValueType × Expr) := do
  let (name, _) ← identifier nameMessage
  let _ ← expect .colon colonMessage
  let ty ← parseValueType
  let _ ← expect .equal equalMessage
  let init ← expression
  pure (name, ty, init)

def letStatement : CursorM Stmt := do
  let start ← expect .let "expected `let`"
  let (name, ty, init) ← typedInitializer "expected a local variable name"
    "expected `:` after variable name" "expected `=` before initializer"
  let span ← simpleSpan start.span init.span
  bindValue name
  pure (.letVar name ty init span)

def assignmentStatement (target : Expr) : CursorM Stmt := do
  let token ← advance
  match assignOp token.kind with
  | some op =>
    let value ← expression
    let span ← simpleSpan target.span value.span
    pure (.assign target op value span)
  | none => fail "expected an assignment operator" token.span

def ifStatement (block : CursorM (Block × Span)) : CursorM Stmt := do
  let start ← expect .if "expected `if`"
  let condition ← expression
  let (thenBlock, thenEnd) ← block
  if ← take .else then
    let (elseBlock, stop) ← block
    let span ← merge start.span stop
    pure (.ifElse condition thenBlock (some elseBlock) span)
  else
    let span ← merge start.span thenEnd
    pure (.ifElse condition thenBlock none span)

def whileStatement (block : CursorM (Block × Span)) : CursorM Stmt := do
  let start ← expect .while "expected `while`"
  let condition ← expression
  let (body, stop) ← block
  let span ← merge start.span stop
  pure (.whileLoop condition body span)

def forStatement (block : CursorM (Block × Span)) : CursorM Stmt := do
  let start ← expect .for "expected `for`"
  let (name, nameSpan) ← identifier "expected a loop variable after `for`"
  let _ ← expect .in "expected `in` after loop variable"
  let lower ← expression
  let _ ← expect .dotDot "expected `..` between range bounds"
  let upper ← expression
  let (body, stop) ← blockWithBindings [name] block
  let span ← merge start.span stop
  pure (.forLoop name nameSpan lower upper body span)

def returnStatement : CursorM Stmt := do
  let start ← expect .return "expected `return`"
  let token ← current
  if token.kind = .rightBrace || token.kind = .semicolon then
    let span ← optionalSemicolon
    let span ← merge start.span (span.getD start.span)
    pure (.ret none span)
  else
    let value ← expression
    let span ← simpleSpan start.span value.span
    pure (.ret (some value) span)

def expressionStatement : CursorM Stmt := do
  let e ← expression
  let token ← current
  if (assignOp token.kind).isSome then assignmentStatement e
  else
    let span ← simpleSpan e.span e.span
    pure (.expr e span)

def statementWith (block : CursorM (Block × Span)) : CursorM Stmt := do
  let token ← current
  match token.kind with
  | .let => letStatement
  | .if => ifStatement block
  | .while => whileStatement block
  | .for => forStatement block
  | .return => returnStatement
  | _ => expressionStatement

def statement : ℕ → CursorM Stmt
  | 0 => stopWith .endless
  | levels + 1 => statementWith (nested (blockContents (statement levels)))

def block : CursorM (Block × Span) := nested (blockContents (statement maxLevels))

/-! ## Declarations -/

def structField : CursorM StructField := do
  let (name, span) ← identifier "expected a field name"
  let _ ← expect .colon "expected `:` after field name"
  let ty ← parseValueType
  let _ ← take .comma
  pure ⟨name, ty, span⟩

def parseStruct : CursorM StructDecl := do
  let start ← expect .struct "expected `struct`"
  let (name, _) ← identifier "expected a struct name"
  let _ ← expect .leftBrace "expected `\x7b` after the struct name"
  let fields ← untilClose .rightBrace structField ((← remaining) + 1)
  let stop ← expect .rightBrace "expected `\x7d` after struct fields"
  let span ← merge start.span stop.span
  pure ⟨name, fields, span⟩

def parseSound : CursorM SoundAsset := do
  let start ← advance
  let (name, _) ← identifier "expected a sound name"
  let _ ← expect .equal "expected `=` before sound asset path"
  let token ← advance
  match token.kind with
  | .string path =>
    let span ← simpleSpan start.span token.span
    pure ⟨name, path, 0, [], span⟩
  | _ => fail "expected a quoted WAV file path after `=`" token.span

def parseConstant : CursorM Constant := do
  let start ← expect .const "expected `const`"
  let (name, ty, init) ← typedInitializer "expected a constant name"
    "expected `:` after constant name" "expected `=` before constant initializer"
  let span ← simpleSpan start.span init.span
  pure ⟨name, ty, init, none, span⟩

def parseGlobal : CursorM Global := do
  let start ← expect .let "expected `let`"
  let (name, ty, init) ← typedInitializer "expected a global variable name"
    "expected `:` after variable name" "expected `=` before global initializer"
  let span ← simpleSpan start.span init.span
  pure ⟨name, ty, init, none, span⟩

def parseStart : CursorM Function := do
  let start ← expect .start "expected `start`"
  let (body, stop) ← blockWithBindings [] block
  let span ← merge start.span stop
  pure ⟨"start", .start, [], .void, body, span⟩

def parseUpdate : CursorM Function := do
  let start ← expect .update "expected `update`"
  let _ ← expect .leftParen "expected `(` after `update`"
  let (name, nameSpan) ← identifier "expected the frame-delta parameter name"
  let _ ← expect .colon "expected `:` after the frame-delta parameter name"
  let ty ← parseValueType
  let _ ← expect .rightParen "expected `)` after the frame-delta parameter"
  let (body, stop) ← blockWithBindings [name] block
  let span ← merge start.span stop
  pure ⟨"update", .update, [⟨name, ty, nameSpan⟩], .void, body, span⟩

def parseDraw : CursorM Function := do
  let start ← expect .draw "expected `draw`"
  let (body, stop) ← blockWithBindings [] block
  let span ← merge start.span stop
  pure ⟨"draw", .draw, [], .void, body, span⟩

def parameter : CursorM Param := do
  let (name, span) ← identifier "expected a parameter name"
  let _ ← expect .colon "expected `:` after parameter name"
  let ty ← parseValueType
  pure ⟨name, ty, span⟩

def parseNamedFunction : CursorM Function := do
  let start ← expect .fn "expected `fn`"
  let (name, _) ← identifier "expected a function name"
  let _ ← expect .leftParen "expected `(` after function name"
  let params ← do
    if ← isAt .rightParen then pure []
    else commaList parameter (pure false) ((← remaining) + 1)
  let _ ← expect .rightParen "expected `)` after parameters"
  let _ ← expect .arrow "expected `->` and a return type after parameters"
  let returnType ← parseReturnType
  let (body, stop) ← blockWithBindings (params.map (·.name)) block
  let span ← merge start.span stop
  pure ⟨name, .named, params, returnType, body, span⟩

def parseImport : CursorM Import := do
  let start ← expect .import "expected `import`"
  let token ← advance
  match token.kind with
  | .string path =>
    let _ ← expect .as "expected `as` after import path"
    let (name, stop) ← identifier "expected an import alias after `as`"
    let _ ← take .semicolon
    let span ← merge start.span stop
    pure ⟨name, path, span⟩
  | _ => fail "expected a quoted file path after `import`" token.span

/-! ## Files -/

def resolutionDimension (name : String) : CursorM {value : ℕ // 1 ≤ value ∧ value ≤ 4096} := do
  let token ← advance
  match token.kind with
  | .integer value =>
    if h : 1 ≤ value.toNat ∧ value.toNat ≤ 4096 then pure ⟨value.toNat, h⟩
    else
      fail s!"resolution {name} must be between 1 and {maxDimension}, found {value}" token.span
  | _ =>
    fail s!"resolution {name} must be a positive integer literal between 1 and {maxDimension}"
      token.span

def parseResolution : CursorM Resolution := do
  let _ ← advance
  let _ ← expect .leftParen "expected `(` after `resolution`"
  let width ← resolutionDimension "width"
  let _ ← expect .comma "expected `,` between resolution dimensions"
  let height ← resolutionDimension "height"
  let _ ← expect .rightParen "expected `)` after resolution dimensions"
  pure ⟨width, height, Resolution.dimension_mem width, Resolution.dimension_mem height⟩

def atResolution : CursorM Bool := do
  let token ← current
  pure (token.kind = .identifier "resolution")

/-- A program with the imports that the loop of `run` consumed. The source drops them there. -/
abbrev Parsed := Program × List Import

def declarationAt (parsed : Parsed) : TokenKind → CursorM Parsed
  | .import => do
    let header ← parseImport
    pure (parsed.1, parsed.2 ++ [header])
  | .struct => do
    let decl ← parseStruct
    pure ({ parsed.1 with structs := parsed.1.structs ++ [decl] }, parsed.2)
  | .identifier "sound" => do
    let sound ← parseSound
    pure ({ parsed.1 with sounds := parsed.1.sounds ++ [sound] }, parsed.2)
  | .const => do
    let constant ← parseConstant
    pure ({ parsed.1 with constants := parsed.1.constants ++ [constant] }, parsed.2)
  | .let => do
    let global ← parseGlobal
    pure ({ parsed.1 with globals := parsed.1.globals ++ [global] }, parsed.2)
  | .start => do
    let function ← parseStart
    pure ({ parsed.1 with functions := parsed.1.functions ++ [function] }, parsed.2)
  | .update => do
    let function ← parseUpdate
    pure ({ parsed.1 with functions := parsed.1.functions ++ [function] }, parsed.2)
  | .draw => do
    let function ← parseDraw
    pure ({ parsed.1 with functions := parsed.1.functions ++ [function] }, parsed.2)
  | .fn => do
    let function ← parseNamedFunction
    pure ({ parsed.1 with functions := parsed.1.functions ++ [function] }, parsed.2)
  | _ =>
    errorHere "expected a top-level `struct`, `sound`, `const`, `let`, `fn`, `start`, `update`, or `draw` declaration"

/-- One turn of the loop of `run`. -/
def declaration (root : Bool) (parsed : Parsed) : CursorM Parsed := do
  if ← atResolution then
    errorHere (if root then
      "resolution may be declared only once, immediately after the game title"
    else "imported files cannot declare resolution; set it in the game header")
  else
    let token ← current
    if !root && isRootOnly token.kind then
      errorHere "imported files cannot declare `game`, `start`, `update`, or `draw`"
    else declarationAt parsed token.kind

def declarations (root : Bool) : ℕ → Parsed → CursorM Parsed
  | 0, _ => stopWith .endless
  | fuel + 1, parsed => do
    if ← isAt .eof then pure parsed
    else
      let parsed ← declaration root parsed
      declarations root fuel parsed

/-- The title, its span and the resolution. -/
def header : CursorM (String × Span × Resolution) := do
  let _ ← expect .game "expected `game` at the start of the file"
  let token ← advance
  match token.kind with
  | .string title =>
    let resolution ← do
      if ← atResolution then parseResolution else pure .default
    let _ ← take .semicolon
    pure (title, token.span, resolution)
  | _ => fail "expected a quoted game title after `game`" token.span

def run (root : Bool) : CursorM Parsed := do
  let (title, titleSpan, resolution) ←
    if root then header else do
      let token ← current
      pure ("", token.span, .default)
  declarations root ((← remaining) + 1)
    (⟨resolution, title, titleSpan, [], [], [], [], []⟩, [])

def new (strict : Bool) (tokens : List Token) : Cursor :=
  ⟨strict, tokens, 0, 0, declaredStructNames tokens, []⟩

/-- `parse_file`, with the imports that it consumed. -/
def parseFile (strict : Bool) (tokens : List Token) (root : Bool) (importedStructs : List String) :
    Except Stop Parsed :=
  ((run root).run { new strict tokens with
    structNames := declaredStructNames tokens ++ importedStructs }).map (·.1)

/-! ## Import headers -/

/-- The scan of `import_headers` : the imports so far, the counter of open braces, and whether a
closing brace came at zero. -/
structure Headers where
  imports : List Import
  depth : ℕ
  saturated : Bool

/-- The counter after a token that is skipped. -/
def Headers.skip (headers : Headers) : TokenKind → Headers
  | .leftBrace => { headers with depth := headers.depth + 1 }
  | .rightBrace =>
    { headers with
      depth := headers.depth - 1
      saturated := headers.saturated || headers.depth == 0 }
  | _ => headers

def scanHeaders : ℕ → Headers → CursorM Headers
  | 0, _ => stopWith .endless
  | fuel + 1, headers => do
    if ← isAt .eof then pure headers
    else if headers.depth = 0 && (← isAt .import) then
      let header ← parseImport
      scanHeaders fuel { headers with imports := headers.imports ++ [header] }
    else
      let token ← advance
      scanHeaders fuel (headers.skip token.kind)

/-- `import_headers`, with the end of its counter. -/
def importHeaders (strict : Bool) (tokens : List Token) : Except Stop Headers :=
  ((scanHeaders (tokens.length + 1) ⟨[], 0, false⟩).run (new strict tokens)).map (·.1)

end Cursor

end Speck
