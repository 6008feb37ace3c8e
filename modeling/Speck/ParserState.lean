import Speck.Ast

/-!
# The parser's state

The tokens of a file and the state that the parser threads through them : the tokens from its
cursor on, the names of the structs, and the scopes of the values bound where it stands. Its
`nesting` is not kept here : the functions that nest take the number of levels that are left, as
`depth`, and recurse on it.
-/

namespace Speck

/-! ## Tokens -/

inductive TokenKind where
  | identifier (name : String)
  | string (value : String)
  | integer (value : ℤ)
  | float (value : F32)
  | game
  | import
  | as
  | let
  | const
  | start
  | update
  | draw
  | fn
  | struct
  | return
  | if
  | else
  | while
  | for
  | in
  | true
  | false
  | i32
  | f32
  | bool
  | void
  | leftParen
  | rightParen
  | leftBrace
  | rightBrace
  | leftBracket
  | rightBracket
  | dot
  | dotDot
  | colon
  | colonColon
  | comma
  | semicolon
  | plus
  | plusEqual
  | minus
  | minusEqual
  | star
  | starEqual
  | slash
  | slashEqual
  | percent
  | percentEqual
  | bang
  | equal
  | equalEqual
  | bangEqual
  | less
  | lessEqual
  | greater
  | greaterEqual
  | andAnd
  | orOr
  | arrow
  | eof
  deriving DecidableEq, Repr

structure Token where
  kind : TokenKind
  span : Span

def TokenKind.isIdentifier : TokenKind → Bool
  | .identifier _ => Bool.true
  | _ => Bool.false

/-- The spans of one file. -/
def Span.merge (a b : Span) : Span := ⟨a.source, a.start, b.stop⟩

/-! ## The state -/

structure Parser where
  tokens : List Token
  structNames : List String
  valueScopes : List (List String)

abbrev ParseM := StateT Parser (Except Diagnostic)

namespace Parser

/-- The tokens end with `Eof`. -/
def current (p : Parser) : Token := p.tokens.headD ⟨.eof, default⟩

/-- The kind of a token after the cursor. -/
def peek (p : Parser) (offset : ℕ) : TokenKind := (p.tokens[offset]?.map (·.kind)).getD .eof

def isValueBinding (p : Parser) (name : String) : Bool :=
  p.valueScopes.any fun scope => name ∈ scope

def fail {α : Type} (message : String) (span : Span) : ParseM α := fun _ => .error ⟨message, span⟩

def errorHere {α : Type} (message : String) : ParseM α := fun p =>
  .error ⟨message, p.current.span⟩

/-- `at`, for a kind without a value. -/
def isAt (kind : TokenKind) : ParseM Bool := fun p => .ok (p.current.kind == kind, p)

def advance : ParseM Token := fun p =>
  .ok (p.current, if p.current.kind = .eof then p else { p with tokens := p.tokens.tail })

def take (kind : TokenKind) : ParseM Bool := do
  if ← isAt kind then
    let _ ← advance
    pure Bool.true
  else pure Bool.false

def expect (kind : TokenKind) (message : String) : ParseM Token := do
  if ← isAt kind then advance else errorHere message

def identifier (message : String) : ParseM (String × Span) := do
  let token ← advance
  match token.kind with
  | .identifier name => pure (name, token.span)
  | _ => fail message token.span

def optionalSemicolon : ParseM (Option Span) := do
  if ← isAt .semicolon then
    let token ← advance
    pure (some token.span)
  else pure none

/-- `while !self.at(close) && !self.at(Eof)`. Every item takes a token. -/
def untilClose {α : Type} (close : TokenKind) (item : ParseM α) : ℕ → ParseM (List α)
  | 0 => pure []
  | fuel + 1 => do
    if ← isAt close then pure []
    else if ← isAt .eof then pure []
    else
      let a ← item
      let as ← untilClose close item fuel
      pure (a :: as)

/-- Items between commas, where `stop` ends the list after a comma. -/
def commaList {α : Type} (item : ParseM α) (stop : ParseM Bool) : ℕ → ParseM (List α)
  | 0 => pure []
  | fuel + 1 => do
    let a ← item
    if ← take .comma then
      if ← stop then pure [a]
      else
        let as ← commaList item stop fuel
        pure (a :: as)
    else pure [a]

/-- The number of tokens left, which bounds every loop. -/
def remaining : ParseM ℕ := fun p => .ok (p.tokens.length, p)

/-! ## Limits -/

def maxNesting : ℕ := 80

def limitMessage : String := s!"source nesting exceeds limit of {maxNesting}"

/-- No level is left. -/
def exceeded {α : Type} : ParseM α := errorHere limitMessage

end Parser

/-- The parts of an expression, in the order in which the check of its nesting pushes them. -/
def Expr.parts : Expr → List Expr
  | .i32 _ _ | .f32 _ _ | .bool _ _ | .var _ _ => []
  | .unary _ operand _ => [operand]
  | .field base _ _ _ => [base]
  | .binary left _ right _ => [left, right]
  | .index base subscript _ => [base, subscript]
  | .arrayLiteral elements _ | .call _ elements _ | .conversion _ elements _ => elements
  | .structLiteral _ fields _ => fields.map (·.value)

theorem sum_sizeOf_le {α : Type} [SizeOf α] (as : List α) : (as.map sizeOf).sum ≤ sizeOf as := by
  induction as with
  | nil => simp
  | cons a as ih =>
    simp only [List.map_cons, List.sum_cons, List.cons.sizeOf_spec]
    omega

theorem sum_values_le (fields : List (FieldInitializer Expr)) :
    ((fields.map (·.value)).map sizeOf).sum ≤ sizeOf fields := by
  induction fields with
  | nil => simp
  | cons field fields ih =>
    cases field
    simp only [List.map_cons, List.sum_cons, List.cons.sizeOf_spec,
      FieldInitializer.mk.sizeOf_spec]
    omega

theorem Expr.sum_parts_lt (e : Expr) : (e.parts.map sizeOf).sum < sizeOf e := by
  cases e with
  | arrayLiteral elements span | call name elements span | conversion target elements span =>
    have h := sum_sizeOf_le elements
    simp [parts]
    omega
  | structLiteral name fields span =>
    have h := sum_values_le fields
    simp only [parts, structLiteral.sizeOf_spec]
    omega
  | index base subscript span | field base name nameSpan span | unary op operand span
  | binary left op right span =>
    simp [parts]
    omega
  | i32 value span | f32 value span | bool value span | var name span => simp [parts]

namespace Parser

/-- The worklist of `check_expression`. -/
def checkPending (pending : List (Expr × ℕ)) : Except Diagnostic Unit :=
  match pending with
  | [] => .ok ()
  | (e, depth) :: pending =>
    if maxNesting < depth then .error ⟨limitMessage, e.span⟩
    else checkPending ((e.parts.map (·, depth + 1)).reverse ++ pending)
termination_by (pending.map (sizeOf ·.1)).sum
decreasing_by
  have hlt := e.sum_parts_lt
  have hmap : (e.parts.map fun c => (c, depth + 1)).reverse.map (sizeOf ·.1) =
      (e.parts.map sizeOf).reverse := by
    simp [List.map_reverse, Function.comp_def]
  simp only [List.map_append, hmap, List.sum_append, List.sum_reverse, List.map_cons,
    List.sum_cons]
  omega

/-- `check_expression`, where `depth` levels are left. -/
def checked (depth : ℕ) (e : Expr) : ParseM Expr := fun p =>
  (checkPending [(e, maxNesting - depth)]).map fun _ => (e, p)

end Parser

end Speck
