import Speck.ParserProgram

/-!
# Printing programs

The tokens of a program, with the parentheses that precedence and left associativity require and a
semicolon after each simple statement. A binary operator is printed with its left operand at its
own level and its right operand at the next.

`Printable` says which programs have tokens : no array length is resolved yet, no constant has a
value, a struct literal names a struct that is not bound as a local there, and a variable that has
the name of a struct is.
-/

namespace Speck

/-! ## Expressions -/

/-- The names of an alias and a declaration, at the first `::`. -/
def splitQualified : List Char → Option (List Char × List Char)
  | ':' :: ':' :: member => some ([], member)
  | c :: cs => (splitQualified cs).map fun (name, member) => (c :: name, member)
  | [] => none

def nameTokens (name : String) : List TokenKind :=
  match splitQualified name.toList with
  | some (qualifier, member) =>
    [.identifier (.ofList qualifier), .colonColon, .identifier (.ofList member)]
  | none => [.identifier name]

def UnaryOp.kind : UnaryOp → TokenKind
  | negate => .minus
  | not => .bang

def BinaryOp.kind : BinaryOp → TokenKind
  | add => .plus
  | subtract => .minus
  | multiply => .star
  | divide => .slash
  | remainder => .percent
  | equal => .equalEqual
  | notEqual => .bangEqual
  | less => .less
  | lessEqual => .lessEqual
  | greater => .greater
  | greaterEqual => .greaterEqual
  | logicalAnd => .andAnd
  | logicalOr => .orOr

/-- The level of an operator, from 1 for the loosest. -/
def BinaryOp.level : BinaryOp → ℕ
  | logicalOr => 1
  | logicalAnd => 2
  | equal | notEqual => 3
  | less | lessEqual | greater | greaterEqual => 4
  | add | subtract => 5
  | multiply | divide | remainder => 6

/-- Prefix operators are of level 7, postfix chains of level 8 and primaries of level 9. -/
def Expr.level : Expr → ℕ
  | .binary _ op _ _ => op.level
  | .unary _ _ _ => 7
  | .index _ _ _ | .field _ _ _ _ => 8
  | _ => 9

/-- The tokens of an expression of a level, where one of at least `least` is expected. -/
def enclose (least level : ℕ) (tokens : List TokenKind) : List TokenKind :=
  if level < least then .leftParen :: (tokens ++ [.rightParen]) else tokens

def NumericType.kind (target : NumericType) : TokenKind :=
  match target.1 with
  | .i32 => .i32
  | _ => .f32

mutual

/-- The tokens of an expression, outside of parentheses. -/
def Expr.tokens : Expr → List TokenKind
  | .i32 value _ => [.integer value]
  | .f32 value _ => [.float value]
  | .bool value _ => [if value then .true else .false]
  | .arrayLiteral elements _ => .leftBracket :: (listTokens elements ++ [.rightBracket])
  | .structLiteral name fields _ =>
    nameTokens name ++ .leftBrace :: (fieldTokens fields ++ [.rightBrace])
  | .var name _ => nameTokens name
  | .index base subscript _ =>
    enclose 8 base.level base.tokens ++ .leftBracket :: (subscript.tokens ++ [.rightBracket])
  | .field base name _ _ => enclose 8 base.level base.tokens ++ [.dot, .identifier name]
  | .unary op operand _ => op.kind :: enclose 7 operand.level operand.tokens
  | .binary left op right _ =>
    enclose op.level left.level left.tokens ++
      op.kind :: enclose (op.level + 1) right.level right.tokens
  | .call name args _ => nameTokens name ++ .leftParen :: (listTokens args ++ [.rightParen])
  | .conversion target args _ =>
    target.kind :: .leftParen :: (listTokens args ++ [.rightParen])

def listTokens : List Expr → List TokenKind
  | [] => []
  | [e] => e.tokens
  | e :: es => e.tokens ++ .comma :: listTokens es

def fieldTokens : List (FieldInitializer Expr) → List TokenKind
  | [] => []
  | [⟨name, value, _⟩] => .identifier name :: .colon :: value.tokens
  | ⟨name, value, _⟩ :: fields =>
    .identifier name :: .colon :: (value.tokens ++ .comma :: fieldTokens fields)

end

/-! ## Types and statements -/

def ArrayLength.tokens : ArrayLength → List TokenKind
  | .literal value _ => if value < 0 then [.minus, .integer (-value)] else [.integer value]
  | .constant name _ => nameTokens name
  | .resolved _ | .invalid => []

def ValueType.tokens : ValueType → List TokenKind
  | .i32 => [.i32]
  | .f32 => [.f32]
  | .bool => [.bool]
  | .struct name => nameTokens name
  | .array element length =>
    .leftBracket :: (element.tokens ++ .semicolon :: (length.tokens ++ [.rightBracket]))

def ReturnType.tokens : ReturnType → List TokenKind
  | .value ty => ty.tokens
  | .void => [.void]

/-- `name: type = init`. -/
def initializerTokens (name : String) (ty : ValueType) (init : Expr) : List TokenKind :=
  .identifier name :: .colon :: (ty.tokens ++ .equal :: (init.tokens ++ [.semicolon]))

def AssignOp.kind : AssignOp → TokenKind
  | set => .equal
  | add => .plusEqual
  | subtract => .minusEqual
  | multiply => .starEqual
  | divide => .slashEqual
  | remainder => .percentEqual

mutual

def Stmt.tokens : Stmt → List TokenKind
  | .letVar name ty init _ => .let :: initializerTokens name ty init
  | .assign target op value _ => target.tokens ++ op.kind :: (value.tokens ++ [.semicolon])
  | .expr e _ => e.tokens ++ [.semicolon]
  | .ifElse condition thenBlock elseBlock _ =>
    .if :: (condition.tokens ++
      .leftBrace :: (stmtTokens thenBlock ++ .rightBrace :: elseTokens elseBlock))
  | .whileLoop condition body _ =>
    .while :: (condition.tokens ++ .leftBrace :: (stmtTokens body ++ [.rightBrace]))
  | .forLoop name _ lower upper body _ =>
    .for :: .identifier name :: .in :: (lower.tokens ++ .dotDot :: (upper.tokens ++
      .leftBrace :: (stmtTokens body ++ [.rightBrace])))
  | .ret none _ => [.return, .semicolon]
  | .ret (some value) _ => .return :: (value.tokens ++ [.semicolon])

def stmtTokens : List Stmt → List TokenKind
  | [] => []
  | s :: ss => s.tokens ++ stmtTokens ss

def elseTokens : Option (List Stmt) → List TokenKind
  | none => []
  | some block => .else :: .leftBrace :: (stmtTokens block ++ [.rightBrace])

end

def blockTokens (block : Block) : List TokenKind :=
  .leftBrace :: (stmtTokens block ++ [.rightBrace])

/-! ## Declarations -/

def StructField.tokens (field : StructField) : List TokenKind :=
  .identifier field.name :: .colon :: (field.ty.tokens ++ [.comma])

def StructDecl.tokens (decl : StructDecl) : List TokenKind :=
  .struct :: .identifier decl.name :: .leftBrace ::
    (decl.fields.flatMap StructField.tokens ++ [.rightBrace])

def SoundAsset.tokens (sound : SoundAsset) : List TokenKind :=
  [.identifier "sound", .identifier sound.name, .equal, .string sound.path, .semicolon]

def Constant.tokens (constant : Constant) : List TokenKind :=
  .const :: initializerTokens constant.name constant.ty constant.init

def Global.tokens (global : Global) : List TokenKind :=
  .let :: initializerTokens global.name global.ty global.init

def Param.tokens (param : Param) : List TokenKind :=
  .identifier param.name :: .colon :: param.ty.tokens

def paramTokens : List Param → List TokenKind
  | [] => []
  | [param] => param.tokens
  | param :: params => param.tokens ++ .comma :: paramTokens params

def Function.tokens (function : Function) : List TokenKind :=
  match function.kind with
  | .named =>
    .fn :: .identifier function.name :: .leftParen :: (paramTokens function.params ++
      .rightParen :: .arrow :: (function.returnType.tokens ++ blockTokens function.body))
  | .start => .start :: blockTokens function.body
  | .update =>
    .update :: .leftParen :: (paramTokens function.params ++
      .rightParen :: blockTokens function.body)
  | .draw => .draw :: blockTokens function.body

def headerTokens (title : String) (resolution : Resolution) : List TokenKind :=
  [.game, .string title, .identifier "resolution", .leftParen, .integer resolution.width, .comma,
    .integer resolution.height, .rightParen, .semicolon]

def Program.declarationTokens (program : Program) : List TokenKind :=
  program.structs.flatMap StructDecl.tokens ++ program.sounds.flatMap SoundAsset.tokens ++
    program.constants.flatMap Constant.tokens ++ program.globals.flatMap Global.tokens ++
    program.functions.flatMap Function.tokens

/-- The tokens of a file. Only the root has a header. -/
def Program.tokens (program : Program) (root : Bool) : List TokenKind :=
  (if root then headerTokens program.title program.resolution else []) ++
    program.declarationTokens ++ [.eof]

/-! ## Printable programs -/

/-- A struct literal names a struct that is not bound as a local, and a variable that has the name
of a struct is. -/
def Expr.Named (structs bound : List String) : Expr → Prop
  | .structLiteral name _ _ => name ∈ structs ∧ name ∉ bound
  | .var name _ => name ∈ structs → name ∈ bound
  | _ => True

/-- Every part of the expression is named. -/
inductive Expr.Printable (structs bound : List String) : Expr → Prop where
  | intro {e : Expr} (named : e.Named structs bound)
      (parts : ∀ part ∈ e.parts, Printable structs bound part) : Printable structs bound e

def ArrayLength.Printable : ArrayLength → Prop
  | .literal _ _ | .constant _ _ => True
  | .resolved _ | .invalid => False

def ValueType.Printable : ValueType → Prop
  | .array element length => element.Printable ∧ length.Printable
  | _ => True

def ReturnType.Printable : ReturnType → Prop
  | .value ty => ty.Printable
  | .void => True

/-- The locals that a statement binds for the rest of its block. -/
def Stmt.binds : Stmt → List String
  | .letVar name _ _ _ => [name]
  | _ => []

mutual

def Stmt.Printable (structs : List String) : List String → Stmt → Prop
  | bound, .letVar _ ty init _ => ty.Printable ∧ init.Printable structs bound
  | bound, .assign target _ value _ =>
    target.Printable structs bound ∧ value.Printable structs bound
  | bound, .expr e _ => e.Printable structs bound
  | bound, .ifElse condition thenBlock elseBlock _ =>
    condition.Printable structs bound ∧ stmtsPrintable structs bound thenBlock ∧
      elsePrintable structs bound elseBlock
  | bound, .whileLoop condition body _ =>
    condition.Printable structs bound ∧ stmtsPrintable structs bound body
  | bound, .forLoop name _ lower upper body _ =>
    lower.Printable structs bound ∧ upper.Printable structs bound ∧
      stmtsPrintable structs (name :: bound) body
  | _, .ret none _ => True
  | bound, .ret (some value) _ => value.Printable structs bound

def stmtsPrintable (structs : List String) : List String → List Stmt → Prop
  | _, [] => True
  | bound, s :: ss => s.Printable structs bound ∧ stmtsPrintable structs (s.binds ++ bound) ss

def elsePrintable (structs : List String) : List String → Option (List Stmt) → Prop
  | _, none => True
  | bound, some block => stmtsPrintable structs bound block

end

/-- A function has the name, the parameters and the type of its kind. -/
def Function.HasShape (function : Function) : Prop :=
  match function.kind with
  | .named => True
  | .start => function.name = "start" ∧ function.params = [] ∧ function.returnType = .void
  | .update =>
    function.name = "update" ∧ (∃ param, function.params = [param]) ∧ function.returnType = .void
  | .draw => function.name = "draw" ∧ function.params = [] ∧ function.returnType = .void

structure Function.Printable (structs : List String) (function : Function) : Prop where
  shape : function.HasShape
  params : ∀ param ∈ function.params, param.ty.Printable
  returnType : function.returnType.Printable
  body : stmtsPrintable structs (function.params.map (·.name)) function.body

/-- A program as the parser makes it, with the structs that its imports add. A file that is not the
root has no header and only named functions. -/
structure Program.Printable (root : Bool) (imported : List String) (program : Program) : Prop where
  header : root = false → program.title = "" ∧ program.resolution = .default ∧
    ∀ function ∈ program.functions, function.kind = .named
  structs : ∀ decl ∈ program.structs, ∀ field ∈ decl.fields, field.ty.Printable
  sounds : ∀ sound ∈ program.sounds, sound.handle = 0 ∧ sound.pcm = []
  constants : ∀ constant ∈ program.constants, constant.value = none ∧ constant.ty.Printable ∧
    constant.init.Printable (program.structs.map (·.name) ++ imported) []
  globals : ∀ global ∈ program.globals, global.value = none ∧ global.ty.Printable ∧
    global.init.Printable (program.structs.map (·.name) ++ imported) []
  functions : ∀ function ∈ program.functions,
    function.Printable (program.structs.map (·.name) ++ imported)

/-! ## Spans -/

mutual

/-- The expression without its spans. -/
def Expr.strip : Expr → Expr
  | .i32 value _ => .i32 value default
  | .f32 value _ => .f32 value default
  | .bool value _ => .bool value default
  | .arrayLiteral elements _ => .arrayLiteral (stripList elements) default
  | .structLiteral name fields _ => .structLiteral name (stripFields fields) default
  | .var name _ => .var name default
  | .index base subscript _ => .index base.strip subscript.strip default
  | .field base name _ _ => .field base.strip name default default
  | .unary op operand _ => .unary op operand.strip default
  | .binary left op right _ => .binary left.strip op right.strip default
  | .call name args _ => .call name (stripList args) default
  | .conversion target args _ => .conversion target (stripList args) default

def stripList : List Expr → List Expr
  | [] => []
  | e :: es => e.strip :: stripList es

def stripFields : List (FieldInitializer Expr) → List (FieldInitializer Expr)
  | [] => []
  | ⟨name, value, _⟩ :: fields => ⟨name, value.strip, default⟩ :: stripFields fields

end

def ArrayLength.strip : ArrayLength → ArrayLength
  | .literal value _ => .literal value default
  | .constant name _ => .constant name default
  | length => length

def ValueType.strip : ValueType → ValueType
  | .array element length => .array element.strip length.strip
  | ty => ty

def ReturnType.strip : ReturnType → ReturnType
  | .value ty => .value ty.strip
  | .void => .void

mutual

def Stmt.strip : Stmt → Stmt
  | .letVar name ty init _ => .letVar name ty.strip init.strip default
  | .assign target op value _ => .assign target.strip op value.strip default
  | .expr e _ => .expr e.strip default
  | .ifElse condition thenBlock elseBlock _ =>
    .ifElse condition.strip (stripBlock thenBlock) (stripElse elseBlock) default
  | .whileLoop condition body _ => .whileLoop condition.strip (stripBlock body) default
  | .forLoop name _ lower upper body _ =>
    .forLoop name default lower.strip upper.strip (stripBlock body) default
  | .ret value _ => .ret (value.map Expr.strip) default

def stripBlock : List Stmt → List Stmt
  | [] => []
  | s :: ss => s.strip :: stripBlock ss

def stripElse : Option (List Stmt) → Option (List Stmt)
  | none => none
  | some block => some (stripBlock block)

end

def StructField.strip (field : StructField) : StructField := ⟨field.name, field.ty.strip, default⟩

def StructDecl.strip (decl : StructDecl) : StructDecl :=
  ⟨decl.name, decl.fields.map StructField.strip, default⟩

def SoundAsset.strip (sound : SoundAsset) : SoundAsset := { sound with span := default }

def Constant.strip (constant : Constant) : Constant :=
  { constant with ty := constant.ty.strip, init := constant.init.strip, span := default }

def Global.strip (global : Global) : Global :=
  { global with ty := global.ty.strip, init := global.init.strip, span := default }

def Param.strip (param : Param) : Param := ⟨param.name, param.ty.strip, default⟩

def Function.strip (function : Function) : Function :=
  { function with
    params := function.params.map Param.strip
    returnType := function.returnType.strip
    body := stripBlock function.body
    span := default }

def Program.strip (program : Program) : Program :=
  { program with
    titleSpan := default
    structs := program.structs.map StructDecl.strip
    sounds := program.sounds.map SoundAsset.strip
    constants := program.constants.map Constant.strip
    globals := program.globals.map Global.strip
    functions := program.functions.map Function.strip }

end Speck
