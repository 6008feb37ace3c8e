import Speck.ParserState
import Speck.SoftFloat
import Speck.Text

/-!
# The lexer

`src/lexer.rs`. The lexer steps through the bytes of its source and cuts texts out of it. Where it
would panic, at a byte that is not there or a cut inside a character, a step is `none`, as is a run
that has not come to the end after as many steps as there are bytes.
-/

namespace Speck

/-! ## Tables -/

/-- What begins with a character. A symbol may go on with a character of `longer`, which then gives
its kind, or a line comment. -/
inductive Lead where
  | space
  | symbol (longer : List (Char × Option TokenKind)) (plain : Option TokenKind)
  | string
  | number
  | identifier
  | other

/-- The arms of `Lexer::run`. -/
def lead (c : Char) : Lead :=
  match c with
  | ' ' | '\t' | '\r' | '\n' => .space
  | '(' => .symbol [] (some .leftParen)
  | ')' => .symbol [] (some .rightParen)
  | '{' => .symbol [] (some .leftBrace)
  | '}' => .symbol [] (some .rightBrace)
  | '[' => .symbol [] (some .leftBracket)
  | ']' => .symbol [] (some .rightBracket)
  | '.' => .symbol [('.', some .dotDot)] (some .dot)
  | ':' => .symbol [(':', some .colonColon)] (some .colon)
  | ',' => .symbol [] (some .comma)
  | ';' => .symbol [] (some .semicolon)
  | '+' => .symbol [('=', some .plusEqual)] (some .plus)
  | '*' => .symbol [('=', some .starEqual)] (some .star)
  | '-' => .symbol [('>', some .arrow), ('=', some .minusEqual)] (some .minus)
  | '/' => .symbol [('/', none), ('=', some .slashEqual)] (some .slash)
  | '%' => .symbol [('=', some .percentEqual)] (some .percent)
  | '!' => .symbol [('=', some .bangEqual)] (some .bang)
  | '=' => .symbol [('=', some .equalEqual)] (some .equal)
  | '<' => .symbol [('=', some .lessEqual)] (some .less)
  | '>' => .symbol [('=', some .greaterEqual)] (some .greater)
  | '&' => .symbol [('&', some .andAnd)] none
  | '|' => .symbol [('|', some .orOr)] none
  | '"' => .string
  | c =>
    if isAsciiDigit c then .number
    else if isAsciiUppercase c || ('a' ≤ c && c ≤ 'z') || c == '_' then .identifier
    else .other

def wordKind (text : Text) : TokenKind :=
  match String.ofList text with
  | "game" => .game
  | "import" => .import
  | "as" => .as
  | "let" => .let
  | "const" => .const
  | "start" => .start
  | "update" => .update
  | "draw" => .draw
  | "fn" => .fn
  | "struct" => .struct
  | "return" => .return
  | "if" => .if
  | "else" => .else
  | "while" => .while
  | "for" => .for
  | "in" => .in
  | "true" => .true
  | "false" => .false
  | "i32" => .i32
  | "f32" => .f32
  | "bool" => .bool
  | "void" => .void
  | name => .identifier name

/-- `parse::<i64>` on digits. -/
def parseInteger (text : Text) : Option ℤ :=
  if decimalValue text < 2 ^ 63 then some (decimalValue text) else none

/-- `parse::<f32>` on digits with a point among them : the nearest value. -/
def parseFloat (text : Text) : F32 :=
  let whole := text.takeWhile (· != '.')
  let fraction := text.drop (whole.length + 1)
  SoftFloat.round false (decimalValue (whole ++ fraction) * 2 ^ 149) (10 ^ fraction.length)

def isWordCharacter (c : Char) : Bool := isAsciiAlphanumeric c || c == '_'

/-- The characters of a line comment. -/
def inLine (c : Char) : Bool := c != '\n'

/-- The characters of a string. -/
def inString (c : Char) : Bool := c != '"' && c != '\n'

/-! ## Steps -/

structure Lexer where
  source : Text
  cursor : ℕ
  tokens : List Token
  diagnostics : List Diagnostic

namespace Lexer

def new (source : Text) : Lexer := ⟨source, 0, [], []⟩

def bytes (l : Lexer) : List UInt8 := l.source.utf8

/-- The byte at an offset, as a character. -/
def byteAt (l : Lexer) (offset : ℕ) : Option Char := l.bytes[offset]?.map Text.byteChar

/-- Add the token that begins at `start`. -/
def push (l : Lexer) (kind : TokenKind) (start : ℕ) : Lexer :=
  { l with tokens := l.tokens ++ [⟨kind, ⟨default, start, l.cursor⟩⟩] }

def report (l : Lexer) (message : String) (start : ℕ) : Lexer :=
  { l with diagnostics := l.diagnostics ++ [⟨message, ⟨default, start, l.cursor⟩⟩] }

/-- The first of the expected characters that is next. -/
def take (l : Lexer) : List (Char × Option TokenKind) → Option (Option TokenKind × Lexer)
  | [] => none
  | (expected, kind) :: longer =>
    if l.byteAt l.cursor = some expected then some (kind, { l with cursor := l.cursor + 1 })
    else l.take longer

/-- A loop that advances while the next byte meets a condition. -/
def skipWhile (l : Lexer) (p : Char → Bool) : Lexer :=
  { l with
    cursor := l.cursor +
      ((l.bytes.drop l.cursor).takeWhile fun byte => p (Text.byteChar byte)).length }

def lineComment (l : Lexer) : Lexer := l.skipWhile inLine

def string (l : Lexer) (start : ℕ) : Option Lexer :=
  let valueStart := l.cursor
  let l := l.skipWhile inString
  if l.byteAt l.cursor = some '"' then
    (l.source.slice valueStart l.cursor).map fun value =>
      { l with cursor := l.cursor + 1 }.push (.string (String.ofList value)) start
  else some (l.report "unterminated string literal" start)

def number (l : Lexer) (start : ℕ) : Option Lexer :=
  let l := l.skipWhile isAsciiDigit
  if l.byteAt l.cursor = some '.' ∧ (l.byteAt (l.cursor + 1)).any isAsciiDigit then
    let l := { l with cursor := l.cursor + 1 }.skipWhile isAsciiDigit
    (l.source.slice start l.cursor).map fun text => l.push (.float (parseFloat text)) start
  else
    (l.source.slice start l.cursor).map fun text =>
      match parseInteger text with
      | some value => l.push (.integer value) start
      | none => l.report "numeric literal is out of range" start

def identifier (l : Lexer) (start : ℕ) : Option Lexer :=
  let l := l.skipWhile isWordCharacter
  (l.source.slice start l.cursor).map fun text => l.push (wordKind text) start

/-- The last arm of `run`. -/
def unexpected (l : Lexer) (start : ℕ) : Option Lexer := do
  let rest ← l.source.sliceFrom start
  let character ← rest.head?
  some ({ l with cursor := start + character.utf8Size }.report
    s!"unexpected character `{character}`" start)

/-- One turn of the loop of `run`. -/
def step (l : Lexer) : Option Lexer := do
  let start := l.cursor
  let byte ← l.byteAt start
  let l := { l with cursor := start + 1 }
  match lead byte with
  | .space => some l
  | .symbol longer plain =>
    match l.take longer, plain with
    | some (some kind, l), _ => some (l.push kind start)
    | some (none, l), _ => some l.lineComment
    | none, some kind => some (l.push kind start)
    | none, none => l.unexpected start
  | .string => l.string start
  | .number => l.number start
  | .identifier => l.identifier start
  | .other => l.unexpected start

def run : ℕ → Lexer → Option Lexer
  | 0, l => if l.cursor < l.bytes.length then none else some l
  | fuel + 1, l => if l.cursor < l.bytes.length then l.step.bind (run fuel) else some l

def finish (l : Lexer) : Except (List Diagnostic) (List Token) :=
  if l.diagnostics.isEmpty then .ok (l.tokens ++ [⟨.eof, ⟨default, l.cursor, l.cursor⟩⟩])
  else .error l.diagnostics

end Lexer

def lex (source : Text) : Option (Except (List Diagnostic) (List Token)) :=
  (Lexer.run source.utf8Len (.new source)).map Lexer.finish

def Span.withSource (span : Span) (id : SourceId) : Span := { span with source := id }

/-- `lex_in`. -/
def lexIn (source : Text) (id : SourceId) : Option (Except (List Diagnostic) (List Token)) :=
  (lex source).map fun result =>
    match result with
    | .ok tokens => .ok (tokens.map fun token => { token with span := token.span.withSource id })
    | .error diagnostics => .error (diagnostics.map fun diagnostic =>
        { diagnostic with span := diagnostic.span.withSource id })

end Speck
