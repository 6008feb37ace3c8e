import Speck.ParserExpression
import Speck.Loader

/-!
# Parsing programs

`src/parser.rs` : types, statements, blocks and declarations, over the expressions. A statement
takes the parser of the blocks that it may contain, as an expression does those of the levels
that are left.
-/

namespace Speck

namespace Parser

/-! ## Types -/

def arrayLength : ParseM ArrayLength := do
  if ← take .minus then
    let token ← advance
    match token.kind with
    | .integer value => pure (.literal (-value) token.span)
    | _ => fail "expected an integer literal after `-` in array length" token.span
  else
    let token ← advance
    match token.kind with
    | .integer value => pure (.literal value token.span)
    | .identifier name =>
      let (name, span) ← qualifiedName name token.span
      pure (.constant name span)
    | _ =>
      fail "array length must be a positive integer literal or an `i32` constant" token.span

def valueType (element : ParseM ValueType) : ParseM ValueType := do
  let token ← advance
  match token.kind with
  | .i32 => pure .i32
  | .f32 => pure .f32
  | .bool => pure .bool
  | .identifier name =>
    let (name, _) ← qualifiedName name token.span
    pure (.struct name)
  | .leftBracket =>
    let element ← element
    let _ ← expect .semicolon "expected `;` between the array element type and length"
    let length ← arrayLength
    let _ ← expect .rightBracket "expected `]` after array type"
    pure (.array element length)
  | .void => fail "`void` is only valid as a function return type" token.span
  | _ => fail "expected a scalar, struct, or fixed array type" token.span

def parseValueType : ℕ → ParseM ValueType
  | 0 => exceeded
  | depth + 1 => valueType (parseValueType depth)

def parseReturnType (depth : ℕ) : ParseM ReturnType := do
  if ← take .void then pure .void
  else
    let ty ← parseValueType depth
    pure (.value ty)

/-! ## Statements -/

def pushScope (names : List String) : ParseM Unit :=
  modify fun p => { p with valueScopes := names :: p.valueScopes }

def popScope : ParseM Unit := modify fun p => { p with valueScopes := p.valueScopes.tail }

/-- Insert into the last scope. Local declarations are parsed inside a block. -/
def bindValue (name : String) : ParseM Unit := modify fun p =>
  match p.valueScopes with
  | scope :: scopes => { p with valueScopes := (name :: scope) :: scopes }
  | [] => p

def blockWithBindings (bindings : List String) (block : ParseM (Block × Span)) :
    ParseM (Block × Span) := do
  pushScope bindings
  let result ← block
  popScope
  pure result

def blockContents (statement : ParseM Stmt) : ParseM (Block × Span) := do
  let _ ← expect .leftBrace "expected `\x7b` to begin block"
  pushScope []
  let statements ← untilClose .rightBrace statement ((← remaining) + 1)
  let stop ← expect .rightBrace "expected `\x7d` to close block"
  popScope
  pure (statements, stop.span)

/-- The span of a simple statement, with its semicolon. -/
def simpleSpan (start stop : Span) : ParseM Span := do
  let semicolon ← optionalSemicolon
  pure (start.merge (semicolon.getD stop))

/-- A typed declaration with an initializer, after its keyword. -/
def typedInitializer (depth : ℕ) (nameMessage colonMessage equalMessage : String) :
    ParseM (String × ValueType × Expr) := do
  let (name, _) ← identifier nameMessage
  let _ ← expect .colon colonMessage
  let ty ← parseValueType depth
  let _ ← expect .equal equalMessage
  let init ← expression depth
  pure (name, ty, init)

def letStatement (depth : ℕ) : ParseM Stmt := do
  let start ← expect .let "expected `let`"
  let (name, ty, init) ← typedInitializer depth "expected a local variable name"
    "expected `:` after variable name" "expected `=` before initializer"
  let span ← simpleSpan start.span init.span
  bindValue name
  pure (.letVar name ty init span)

def assignOp : TokenKind → Option AssignOp
  | .equal => some .set
  | .plusEqual => some .add
  | .minusEqual => some .subtract
  | .starEqual => some .multiply
  | .slashEqual => some .divide
  | .percentEqual => some .remainder
  | _ => none

def assignmentStatement (depth : ℕ) (target : Expr) : ParseM Stmt := do
  let token ← advance
  match assignOp token.kind with
  | some op =>
    let value ← expression depth
    let span ← simpleSpan target.span value.span
    pure (.assign target op value span)
  | none => fail "expected an assignment operator" token.span

def ifStatement (depth : ℕ) (block : ParseM (Block × Span)) : ParseM Stmt := do
  let start ← expect .if "expected `if`"
  let condition ← expression depth
  let (thenBlock, thenEnd) ← block
  if ← take .else then
    let (elseBlock, stop) ← block
    pure (.ifElse condition thenBlock (some elseBlock) (start.span.merge stop))
  else pure (.ifElse condition thenBlock none (start.span.merge thenEnd))

def whileStatement (depth : ℕ) (block : ParseM (Block × Span)) : ParseM Stmt := do
  let start ← expect .while "expected `while`"
  let condition ← expression depth
  let (body, stop) ← block
  pure (.whileLoop condition body (start.span.merge stop))

def forStatement (depth : ℕ) (block : ParseM (Block × Span)) : ParseM Stmt := do
  let start ← expect .for "expected `for`"
  let (name, nameSpan) ← identifier "expected a loop variable after `for`"
  let _ ← expect .in "expected `in` after loop variable"
  let lower ← expression depth
  let _ ← expect .dotDot "expected `..` between range bounds"
  let upper ← expression depth
  let (body, stop) ← blockWithBindings [name] block
  pure (.forLoop name nameSpan lower upper body (start.span.merge stop))

def returnStatement (depth : ℕ) : ParseM Stmt := do
  let start ← expect .return "expected `return`"
  let p ← get
  if p.current.kind = .rightBrace || p.current.kind = .semicolon then
    let span ← optionalSemicolon
    pure (.ret none (start.span.merge (span.getD start.span)))
  else
    let value ← expression depth
    let span ← simpleSpan start.span value.span
    pure (.ret (some value) span)

def expressionStatement (depth : ℕ) : ParseM Stmt := do
  let e ← expression depth
  if (assignOp (← get).current.kind).isSome then assignmentStatement depth e
  else
    let span ← simpleSpan e.span e.span
    pure (.expr e span)

/-- `statement`, with the parser of the blocks. -/
def statementWith (depth : ℕ) (block : ParseM (Block × Span)) : ParseM Stmt := do
  match (← get).current.kind with
  | .let => letStatement depth
  | .if => ifStatement depth block
  | .while => whileStatement depth block
  | .for => forStatement depth block
  | .return => returnStatement depth
  | _ => expressionStatement depth

def statement : ℕ → ParseM Stmt
  | 0 => statementWith 0 exceeded
  | depth + 1 => statementWith (depth + 1) (blockContents (statement depth))

def block : ℕ → ParseM (Block × Span)
  | 0 => exceeded
  | depth + 1 => blockContents (statement depth)

/-! ## Declarations -/

def structField (depth : ℕ) : ParseM StructField := do
  let (name, span) ← identifier "expected a field name"
  let _ ← expect .colon "expected `:` after field name"
  let ty ← parseValueType depth
  let _ ← take .comma
  pure ⟨name, ty, span⟩

def parseStruct (depth : ℕ) : ParseM StructDecl := do
  let start ← expect .struct "expected `struct`"
  let (name, _) ← identifier "expected a struct name"
  let _ ← expect .leftBrace "expected `\x7b` after the struct name"
  let fields ← untilClose .rightBrace (structField depth) ((← remaining) + 1)
  let stop ← expect .rightBrace "expected `\x7d` after struct fields"
  pure ⟨name, fields, start.span.merge stop.span⟩

def parseSound : ParseM SoundAsset := do
  let start ← advance
  let (name, _) ← identifier "expected a sound name"
  let _ ← expect .equal "expected `=` before sound asset path"
  let token ← advance
  match token.kind with
  | .string path =>
    let span ← simpleSpan start.span token.span
    pure ⟨name, path, 0, [], span⟩
  | _ => fail "expected a quoted WAV file path after `=`" token.span

def parseConstant (depth : ℕ) : ParseM Constant := do
  let start ← expect .const "expected `const`"
  let (name, ty, init) ← typedInitializer depth "expected a constant name"
    "expected `:` after constant name" "expected `=` before constant initializer"
  let span ← simpleSpan start.span init.span
  pure ⟨name, ty, init, none, span⟩

def parseGlobal (depth : ℕ) : ParseM Global := do
  let start ← expect .let "expected `let`"
  let (name, ty, init) ← typedInitializer depth "expected a global variable name"
    "expected `:` after variable name" "expected `=` before global initializer"
  let span ← simpleSpan start.span init.span
  pure ⟨name, ty, init, none, span⟩

def parseStart (depth : ℕ) : ParseM Function := do
  let start ← expect .start "expected `start`"
  let (body, stop) ← blockWithBindings [] (block depth)
  pure ⟨"start", .start, [], .void, body, start.span.merge stop⟩

def parseUpdate (depth : ℕ) : ParseM Function := do
  let start ← expect .update "expected `update`"
  let _ ← expect .leftParen "expected `(` after `update`"
  let (name, nameSpan) ← identifier "expected the frame-delta parameter name"
  let _ ← expect .colon "expected `:` after the frame-delta parameter name"
  let ty ← parseValueType depth
  let _ ← expect .rightParen "expected `)` after the frame-delta parameter"
  let (body, stop) ← blockWithBindings [name] (block depth)
  pure ⟨"update", .update, [⟨name, ty, nameSpan⟩], .void, body, start.span.merge stop⟩

def parseDraw (depth : ℕ) : ParseM Function := do
  let start ← expect .draw "expected `draw`"
  let (body, stop) ← blockWithBindings [] (block depth)
  pure ⟨"draw", .draw, [], .void, body, start.span.merge stop⟩

def parameter (depth : ℕ) : ParseM Param := do
  let (name, span) ← identifier "expected a parameter name"
  let _ ← expect .colon "expected `:` after parameter name"
  let ty ← parseValueType depth
  pure ⟨name, ty, span⟩

def parseNamedFunction (depth : ℕ) : ParseM Function := do
  let start ← expect .fn "expected `fn`"
  let (name, _) ← identifier "expected a function name"
  let _ ← expect .leftParen "expected `(` after function name"
  let params ← do
    if ← isAt .rightParen then pure []
    else commaList (parameter depth) (pure false) ((← remaining) + 1)
  let _ ← expect .rightParen "expected `)` after parameters"
  let _ ← expect .arrow "expected `->` and a return type after parameters"
  let returnType ← parseReturnType depth
  let (body, stop) ← blockWithBindings (params.map (·.name)) (block depth)
  pure ⟨name, .named, params, returnType, body, start.span.merge stop⟩

def parseImport : ParseM Import := do
  let start ← expect .import "expected `import`"
  let token ← advance
  match token.kind with
  | .string path =>
    let _ ← expect .as "expected `as` after import path"
    let (name, stop) ← identifier "expected an import alias after `as`"
    let _ ← take .semicolon
    pure ⟨name, path, start.span.merge stop⟩
  | _ => fail "expected a quoted file path after `import`" token.span

/-! ## Files -/

def maxDimension : ℕ := 4096

def resolutionDimension (name : String) : ParseM {value : ℕ // 1 ≤ value ∧ value ≤ 4096} := do
  let token ← advance
  match token.kind with
  | .integer value =>
    if h : 1 ≤ value.toNat ∧ value.toNat ≤ 4096 then pure ⟨value.toNat, h⟩
    else
      fail s!"resolution {name} must be between 1 and {maxDimension}, found {value}" token.span
  | _ =>
    fail s!"resolution {name} must be a positive integer literal between 1 and {maxDimension}"
      token.span

def parseResolution : ParseM Resolution := do
  let _ ← advance
  let _ ← expect .leftParen "expected `(` after `resolution`"
  let width ← resolutionDimension "width"
  let _ ← expect .comma "expected `,` between resolution dimensions"
  let height ← resolutionDimension "height"
  let _ ← expect .rightParen "expected `)` after resolution dimensions"
  pure ⟨width, height, width.2, height.2⟩

def atResolution (p : Parser) : Bool := p.current.kind = .identifier "resolution"

/-- The declarations that only the root file has. -/
def isRootOnly : TokenKind → Bool
  | .game | .start | .update | .draw => true
  | _ => false

/-- The declaration that starts with a token. -/
def declarationAt (program : Program) : TokenKind → ParseM Program
  | .import => do
    let _ ← parseImport
    pure program
  | .struct => do
    let decl ← parseStruct maxNesting
    pure { program with structs := program.structs ++ [decl] }
  | .identifier "sound" => do
    let sound ← parseSound
    pure { program with sounds := program.sounds ++ [sound] }
  | .const => do
    let constant ← parseConstant maxNesting
    pure { program with constants := program.constants ++ [constant] }
  | .let => do
    let global ← parseGlobal maxNesting
    pure { program with globals := program.globals ++ [global] }
  | .start => do
    let function ← parseStart maxNesting
    pure { program with functions := program.functions ++ [function] }
  | .update => do
    let function ← parseUpdate maxNesting
    pure { program with functions := program.functions ++ [function] }
  | .draw => do
    let function ← parseDraw maxNesting
    pure { program with functions := program.functions ++ [function] }
  | .fn => do
    let function ← parseNamedFunction maxNesting
    pure { program with functions := program.functions ++ [function] }
  | _ =>
    errorHere "expected a top-level `struct`, `sound`, `const`, `let`, `fn`, `start`, `update`, or `draw` declaration"

/-- One turn of the loop of `run`. -/
def declaration (root : Bool) (program : Program) : ParseM Program := do
  let p ← get
  if p.atResolution then
    errorHere (if root then
      "resolution may be declared only once, immediately after the game title"
    else "imported files cannot declare resolution; set it in the game header")
  else if !root && isRootOnly p.current.kind then
    errorHere "imported files cannot declare `game`, `start`, `update`, or `draw`"
  else declarationAt program p.current.kind

/-- The loop of `run`. Every turn takes a token. -/
def declarations (root : Bool) : ℕ → Program → ParseM Program
  | 0, program => pure program
  | fuel + 1, program => do
    if ← isAt .eof then pure program
    else
      let program ← declaration root program
      declarations root fuel program

/-- The title, its span and the resolution. -/
def header : ParseM (String × Span × Resolution) := do
  let _ ← expect .game "expected `game` at the start of the file"
  let token ← advance
  match token.kind with
  | .string title =>
    let resolution ← do
      if (← get).atResolution then parseResolution else pure .default
    let _ ← take .semicolon
    pure (title, token.span, resolution)
  | _ => fail "expected a quoted game title after `game`" token.span

def run (root : Bool) : ParseM Program := do
  let (title, titleSpan, resolution) ←
    if root then header else pure ("", (← get).current.span, .default)
  declarations root ((← remaining) + 1) ⟨resolution, title, titleSpan, [], [], [], [], []⟩

end Parser

def declaredStructNames : List Token → List String
  | first :: second :: tokens =>
    match first.kind, second.kind with
    | .struct, .identifier name => name :: declaredStructNames (second :: tokens)
    | _, _ => declaredStructNames (second :: tokens)
  | _ => []

def parseFile (tokens : List Token) (root : Bool) (importedStructs : List String) :
    Except (List Diagnostic) Program :=
  ((Parser.run root).run ⟨tokens, declaredStructNames tokens ++ importedStructs, []⟩).map (·.1)
    |>.mapError ([·])

end Speck
