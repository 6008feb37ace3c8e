import Speck.CursorParser
import Speck.Lexer
import Speck.Resolve

/-!
# Analysis

The analysis of a source text (`analyze`) and of the files below an entry file (`analyzeFiles`), with
the lexer, the parser, the resolver and the checker in their places. What is left open is what the
standard library says about paths, and the WAV decoder (`PathTools`).
-/

namespace Speck

/-! ## A source text -/

/-- `lexer::lex`, which has a result on every text. -/
def lexText (source : Text) : Except (List Diagnostic) (List Token) := (lex source).getD (.error [])

/-- `lexer::lex_in`. -/
def lexTextIn (source : Text) (id : SourceId) : Except (List Diagnostic) (List Token) :=
  (lexIn source id).getD (.error [])

/-- `parser::import_headers`, which meets no fault on the tokens of a file. -/
def headersOf (tokens : List Token) : Except (List Diagnostic) (List Import) :=
  match Cursor.importHeaders false tokens with
  | .ok headers => .ok headers.imports
  | .error (.diagnostic d) => .error [d]
  | .error (.fault _) => .error []

/-- `parser::parse`. -/
def parse (tokens : List Token) : Except (List Diagnostic) Program := do
  let headers ← headersOf tokens
  match headers with
  | header :: _ =>
    .error [⟨"imports require a file path; use file-based analysis", header.span⟩]
  | [] => parseFile tokens true []

section

variable [F32Primitives]

/-- `analyze`. -/
def analyze (source : Text) : Except (List Diagnostic) Program := do
  let tokens ← lexText source
  let program ← parse tokens
  if program.sounds ≠ [] then
    .error (program.sounds.map fun sound =>
      ⟨"sound assets require file-based analysis so their paths can be resolved", sound.span⟩)
  else check program

end

/-! ## Files -/

/-- Functions of `std::path` on the paths of a file system, and the WAV decoder. -/
structure PathTools (Path : Type) where
  extension : Path → Option String
  isAbsolute : String → Bool
  parent : Path → Option Path
  join : Path → String → Path
  qualifier : Path → Path → Option String
  display : Path → String
  validate : List UInt8 → Except String (List UInt8)

/-- The pure functions of the loader. -/
def PathTools.tools {Path : Type} (paths : PathTools Path) : Tools Path Token where
  extension := paths.extension
  isAbsolute := paths.isAbsolute
  parent := paths.parent
  join := paths.join
  qualifier := paths.qualifier
  display := paths.display
  lexIn source id := lexTextIn source.toList id
  importHeaders := headersOf
  declaredStructNames := declaredStructNames
  parseFile := parseFile
  resolve := resolve
  validate := paths.validate

/-- `analyze_path`, with the sources that it keeps. -/
def analyzeFiles [F32Primitives] {Path : Type} [DecidableEq Path] (paths : PathTools Path)
    (files : Files Path) (path : Path) : Outcome Program × SourceMap Path :=
  Loader.analyzePath paths.tools files path

end Speck
