import Speck.ParserState

/-!
# Parsing expressions

`src/parser/expression.rs` : six levels of binary operators, each over the next, prefix operators,
postfix chains and primaries. `depth` is the number of levels of nesting that are left; the
parsers of a level take those of the level below as arguments, and `unary` ties the knot.
-/

namespace Speck

def Expr.withSpan (span : Span) : Expr → Expr
  | .i32 value _ => .i32 value span
  | .f32 value _ => .f32 value span
  | .bool value _ => .bool value span
  | .arrayLiteral elements _ => .arrayLiteral elements span
  | .structLiteral name fields _ => .structLiteral name fields span
  | .var name _ => .var name span
  | .index base subscript _ => .index base subscript span
  | .field base name nameSpan _ => .field base name nameSpan span
  | .unary op operand _ => .unary op operand span
  | .binary left op right _ => .binary left op right span
  | .call name args _ => .call name args span
  | .conversion target args _ => .conversion target args span

namespace Parser

/-! ## Names and primaries -/

def qualifiedName (name : String) (start : Span) : ParseM (String × Span) := do
  if ← take .colonColon then
    let (member, stop) ← identifier "expected a declaration name after `::`"
    if ← isAt .colonColon then
      errorHere
        "qualified names use one import alias and one declaration; imports are not reexported"
    else pure (name ++ "::" ++ member, start.merge stop)
  else pure (name, start)

def looksLikeStructLiteral (p : Parser) (name : String) : Bool :=
  if p.current.kind ≠ .leftBrace || p.isValueBinding name then false
  else name ∈ p.structNames || (p.peek 1).isIdentifier && p.peek 2 = .colon

/-- The arguments and the span of `)`. -/
def arguments (expression : ParseM Expr) : ParseM (List Expr × Span) := do
  let args ← do
    if ← isAt .rightParen then pure []
    else commaList expression (pure false) ((← remaining) + 1)
  let stop ← expect .rightParen "expected `)` after arguments"
  pure (args, stop.span)

def arrayLiteral (depth : ℕ) (expression : ParseM Expr) (start : Span) : ParseM Expr := do
  let elements ← do
    if ← isAt .rightBracket then pure []
    else commaList expression (isAt .rightBracket) ((← remaining) + 1)
  let stop ← expect .rightBracket "expected `]` after array literal"
  checked depth (.arrayLiteral elements (start.merge stop.span))

def conversion (depth : ℕ) (expression : ParseM Expr) (target : NumericType) (start : Span) :
    ParseM Expr := do
  let _ ← expect .leftParen "expected `(` after numeric conversion type"
  let (args, stop) ← arguments expression
  checked depth (.conversion target args (start.merge stop))

def fieldInitializer (expression : ParseM Expr) : ParseM (FieldInitializer Expr) := do
  let (name, start) ← identifier "expected a field initializer name"
  let _ ← expect .colon "expected `:` after field initializer name"
  let value ← expression
  let _ ← take .comma
  pure ⟨name, value, start.merge value.span⟩

def structLiteral (depth : ℕ) (expression : ParseM Expr) (name : String) (start : Span) :
    ParseM Expr := do
  let _ ← expect .leftBrace "expected `\x7b` after struct type name"
  let fields ← untilClose .rightBrace (fieldInitializer expression) ((← remaining) + 1)
  let stop ← expect .rightBrace "expected `\x7d` after struct literal"
  checked depth (.structLiteral name fields (start.merge stop.span))

def namedExpression (depth : ℕ) (expression : ParseM Expr) (name : String) (start : Span) :
    ParseM Expr := do
  let (name, nameSpan) ← qualifiedName name start
  if (← get).looksLikeStructLiteral name then structLiteral depth expression name nameSpan
  else if ← take .leftParen then
    let (args, stop) ← arguments expression
    checked depth (.call name args (start.merge stop))
  else checked depth (.var name nameSpan)

def primary (depth : ℕ) (expression : ParseM Expr) : ParseM Expr := do
  let token ← advance
  match token.kind with
  | .integer value => checked depth (.i32 value token.span)
  | .float value => checked depth (.f32 value token.span)
  | .true => checked depth (.bool true token.span)
  | .false => checked depth (.bool false token.span)
  | .leftBracket => arrayLiteral depth expression token.span
  | .identifier name => namedExpression depth expression name token.span
  | .i32 => conversion depth expression ⟨.i32, rfl⟩ token.span
  | .f32 => conversion depth expression ⟨.f32, rfl⟩ token.span
  | .leftParen =>
    let e ← expression
    let stop ← expect .rightParen "expected `)` after expression"
    pure (e.withSpan (token.span.merge stop.span))
  | _ => fail "expected an expression" token.span

/-! ## Postfix and prefix operators -/

/-- The loop of `postfix`. Every turn takes a token. -/
def postfixLoop (depth : ℕ) (expression : ParseM Expr) : ℕ → Expr → ParseM Expr
  | 0, e => pure e
  | fuel + 1, e => do
    if ← take .leftBracket then
      let subscript ← expression
      let stop ← expect .rightBracket "expected `]` after array index"
      let e ← checked depth (.index e subscript (e.span.merge stop.span))
      postfixLoop depth expression fuel e
    else if ← take .dot then
      let (name, nameSpan) ← identifier "expected a field name after `.`"
      let e ← checked depth (.field e name nameSpan (e.span.merge nameSpan))
      postfixLoop depth expression fuel e
    else pure e

def postfixOperators (depth : ℕ) (expression : ParseM Expr) : ParseM Expr := do
  let e ← primary depth expression
  postfixLoop depth expression (← remaining) e

def unaryOperator : ParseM (Option UnaryOp) := do
  if ← take .minus then pure (some .negate)
  else if ← take .bang then pure (some .not)
  else pure none

/-- `unary`, with the parsers of the levels that are left. -/
def unaryWith (depth : ℕ) (expression nestedUnary : ParseM Expr) : ParseM Expr := do
  let token := (← get).current
  match ← unaryOperator with
  | some op =>
    let operand ← nestedUnary
    checked depth (.unary op operand (token.span.merge operand.span))
  | none => postfixOperators depth expression

/-! ## Binary operators -/

def takeOperator : List (TokenKind × BinaryOp) → ParseM (Option BinaryOp)
  | [] => pure none
  | (kind, op) :: operators => do
    if ← take kind then pure (some op) else takeOperator operators

/-- The loop of a level of left-associative operators. Every turn takes a token. -/
def binaryLoop (operators : List (TokenKind × BinaryOp)) (depth : ℕ) (operand : ParseM Expr) :
    ℕ → Expr → ParseM Expr
  | 0, left => pure left
  | fuel + 1, left => do
    match ← takeOperator operators with
    | some op =>
      let right ← operand
      let e ← checked depth (.binary left op right (left.span.merge right.span))
      binaryLoop operators depth operand fuel e
    | none => pure left

/-- A level of left-associative operators. -/
def binaryLevel (operators : List (TokenKind × BinaryOp)) (depth : ℕ) (operand : ParseM Expr) :
    ParseM Expr := do
  let left ← operand
  binaryLoop operators depth operand (← remaining) left

def factorOperators : List (TokenKind × BinaryOp) :=
  [(.star, .multiply), (.slash, .divide), (.percent, .remainder)]

def termOperators : List (TokenKind × BinaryOp) := [(.plus, .add), (.minus, .subtract)]

def comparisonOperators : List (TokenKind × BinaryOp) :=
  [(.less, .less), (.lessEqual, .lessEqual), (.greater, .greater), (.greaterEqual, .greaterEqual)]

def equalityOperators : List (TokenKind × BinaryOp) :=
  [(.equalEqual, .equal), (.bangEqual, .notEqual)]

def logicalAndOperators : List (TokenKind × BinaryOp) := [(.andAnd, .logicalAnd)]

def logicalOrOperators : List (TokenKind × BinaryOp) := [(.orOr, .logicalOr)]

def factor (depth : ℕ) (unary : ParseM Expr) : ParseM Expr :=
  binaryLevel factorOperators depth unary

def term (depth : ℕ) (unary : ParseM Expr) : ParseM Expr :=
  binaryLevel termOperators depth (factor depth unary)

def comparison (depth : ℕ) (unary : ParseM Expr) : ParseM Expr :=
  binaryLevel comparisonOperators depth (term depth unary)

def equality (depth : ℕ) (unary : ParseM Expr) : ParseM Expr :=
  binaryLevel equalityOperators depth (comparison depth unary)

def logicalAnd (depth : ℕ) (unary : ParseM Expr) : ParseM Expr :=
  binaryLevel logicalAndOperators depth (equality depth unary)

def logicalOr (depth : ℕ) (unary : ParseM Expr) : ParseM Expr :=
  binaryLevel logicalOrOperators depth (logicalAnd depth unary)

/-- `unary`, and through it every expression, with `depth` levels left. -/
def unary : ℕ → ParseM Expr
  | 0 => unaryWith 0 exceeded exceeded
  | depth + 1 => unaryWith (depth + 1) (logicalOr depth (unary depth)) (unary depth)

def expression : ℕ → ParseM Expr
  | 0 => exceeded
  | depth + 1 => logicalOr depth (unary depth)

end Parser

end Speck
