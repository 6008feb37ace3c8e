import Speck.Loader
import Speck.Text

/-!
# Name resolution

`modules/resolve.rs` : the declarations of an imported file get the file's path before their names,
and every name that a file uses is replaced by the full name of what it means. A name is a local, or
a declaration of its own file, or `alias::member` for a declaration of an imported file, or a
predefined name.

A diagnostic does not stop the resolution, so its computations are `Logged`. The locals of a
function are a list of scopes, the innermost first.
-/

namespace Speck

/-! ## Namespaces -/

/-- The full names of a file's declarations, and the modules behind its import aliases. -/
structure Namespace where
  declarations : HashMap String
  aliases : HashMap ℕ

def qualify (module name : String) : String :=
  if module.isEmpty then name else s!"{module}::{name}"

def isBuiltin (name : String) : Bool :=
  Builtins.functions.any (·.name == name) || Builtins.isPredefinedConstant name

/-- The names of the declarations of a file. Entry points have none. -/
def Program.declared (program : Program) : List (String × Span) :=
  program.structs.map (fun item => (item.name, item.span)) ++
    program.sounds.map (fun item => (item.name, item.span)) ++
    program.constants.map (fun item => (item.name, item.span)) ++
    program.globals.map (fun item => (item.name, item.span)) ++
    (program.functions.filter (·.kind = .named)).map fun item => (item.name, item.span)

def declareNames (qualifier : String) (declarations : HashMap String) :
    List (String × Span) → Logged (HashMap String)
  | [] => return declarations
  | (name, span) :: rest => do
    .errorIf (decide (name ∈ declarations)) s!"declaration `{name}` is declared more than once" span
    .errorIf (isBuiltin name) s!"declaration `{name}` conflicts with a predefined name" span
    declareNames qualifier (declarations.insert name (qualify qualifier name)) rest

def declareAliases (declarations : HashMap String) (aliases : HashMap ℕ) :
    List (Import × ℕ) → Logged (HashMap ℕ)
  | [] => return aliases
  | (header, target) :: rest => do
    .errorIf (decide (header.alias ∈ declarations) || isBuiltin header.alias)
      s!"import alias `{header.alias}` conflicts with an existing declaration" header.span
    declareAliases declarations (aliases.insert header.alias target) rest

/-- `collect()` of what `f` makes of the items. -/
def mapEach {α β : Type} (f : α → Logged β) : List α → Logged (List β)
  | [] => return []
  | a :: rest => do
    let b ← f a
    let bs ← mapEach f rest
    return b :: bs

section Modules

variable {Path : Type}

def Module.namespace (module : Module Path) : Logged Namespace := do
  let declarations ← declareNames module.qualifier ∅ module.program.declared
  let aliases ← declareAliases declarations ∅ module.imports
  return ⟨declarations, aliases⟩

end Modules

/-! ## Names -/

/-- `split_once("::")`. -/
def splitOnce : Text → Option (Text × Text)
  | ':' :: ':' :: rest => some ([], rest)
  | c :: rest => (splitOnce rest).map fun (front, back) => (c :: front, back)
  | [] => none

structure Resolver where
  namespaces : List Namespace
  module : ℕ

namespace Resolver

variable (r : Resolver)

/-- The imports of a loaded module lead to loaded modules. -/
def namespaceOf (module : ℕ) : Namespace := (r.namespaces[module]?).getD ⟨∅, ∅⟩

def own : Namespace := r.namespaceOf r.module

/-- `Resolver::name`. A local of the name comes first, where locals are looked for. -/
def name (scopes : List HashSet) (name : String) (span : Span) (description : String)
    (isLocal : Bool) : Logged String :=
  if isLocal && scopes.any (fun scope => decide (name ∈ scope)) then return name
  else
    match splitOnce name.toList with
    | some (front, back) =>
      match r.own.aliases.lookup (String.ofList front) with
      | none => do
        .error s!"unknown import alias `{String.ofList front}`" span
        return name
      | some target =>
        match (r.namespaceOf target).declarations.lookup (String.ofList back) with
        | some resolved => return resolved
        | none => do
          .error s!"module `{String.ofList front}` has no declaration `{String.ofList back}`" span
          return name
    | none =>
      match r.own.declarations.lookup name with
      | some resolved => return resolved
      | none => do
        .errorIf (!isBuiltin name) s!"unknown {description} `{name}`" span
        return name

def length : ArrayLength → Logged ArrayLength
  | .constant name span => do
    let name ← r.name [] name span "constant" false
    return .constant name span
  | length => return length

def ty (span : Span) : ValueType → Logged ValueType
  | .struct name => do
    let name ← r.name [] name span "struct type" false
    return .struct name
  | .array element length => do
    let element ← ty span element
    let length ← r.length length
    return .array element length
  | ty => return ty

/-! ## Expressions -/

mutual

/-- The target of a conversion has no name. -/
def expression (scopes : List HashSet) : Expr → Logged Expr
  | .var name span => do
    let name ← r.name scopes name span "variable" true
    return .var name span
  | .call name args span => do
    let name ← r.name [] name span "function" false
    let args ← expressions scopes args
    return .call name args span
  | .structLiteral name fields span => do
    let name ← r.name [] name span "struct type" false
    let fields ← initializers scopes fields
    return .structLiteral name fields span
  | .arrayLiteral elements span => do
    let elements ← expressions scopes elements
    return .arrayLiteral elements span
  | .index base index span => do
    let base ← expression scopes base
    let index ← expression scopes index
    return .index base index span
  | .field base name nameSpan span => do
    let base ← expression scopes base
    return .field base name nameSpan span
  | .unary op operand span => do
    let operand ← expression scopes operand
    return .unary op operand span
  | .binary left op right span => do
    let left ← expression scopes left
    let right ← expression scopes right
    return .binary left op right span
  | .conversion target args span => do
    let args ← expressions scopes args
    return .conversion target args span
  | .i32 value span => return .i32 value span
  | .f32 value span => return .f32 value span
  | .bool value span => return .bool value span

def expressions (scopes : List HashSet) : List Expr → Logged (List Expr)
  | [] => return []
  | e :: rest => do
    let e ← expression scopes e
    let rest ← expressions scopes rest
    return e :: rest

def initializers (scopes : List HashSet) :
    List (FieldInitializer Expr) → Logged (List (FieldInitializer Expr))
  | [] => return []
  | ⟨name, value, span⟩ :: rest => do
    let value ← expression scopes value
    let rest ← initializers scopes rest
    return ⟨name, value, span⟩ :: rest

end

/-! ## Statements -/

/-- The scopes after a statement. -/
def declare (scopes : List HashSet) : Stmt → List HashSet
  | .letVar name _ _ _ =>
    match scopes with
    | [] => []
    | scope :: scopes => (name :: scope) :: scopes
  | _ => scopes

mutual

def statement (scopes : List HashSet) : Stmt → Logged Stmt
  | .letVar name ty init span => do
    let ty ← r.ty span ty
    let init ← r.expression scopes init
    return .letVar name ty init span
  | .assign target op value span => do
    let target ← r.expression scopes target
    let value ← r.expression scopes value
    return .assign target op value span
  | .expr e span => do
    let e ← r.expression scopes e
    return .expr e span
  | .ifElse condition thenBlock elseBlock span => do
    let condition ← r.expression scopes condition
    let thenBlock ← statements ([] :: scopes) thenBlock
    match elseBlock with
    | some elseBlock => do
      let elseBlock ← statements ([] :: scopes) elseBlock
      return .ifElse condition thenBlock (some elseBlock) span
    | none => return .ifElse condition thenBlock none span
  | .whileLoop condition body span => do
    let condition ← r.expression scopes condition
    let body ← statements ([] :: scopes) body
    return .whileLoop condition body span
  | .forLoop name nameSpan lower upper body span => do
    let lower ← r.expression scopes lower
    let upper ← r.expression scopes upper
    let body ← statements ([name] :: scopes) body
    return .forLoop name nameSpan lower upper body span
  | .ret (some value) span => do
    let value ← r.expression scopes value
    return .ret (some value) span
  | .ret none span => return .ret none span

def statements (scopes : List HashSet) : List Stmt → Logged (List Stmt)
  | [] => return []
  | s :: rest => do
    let s' ← statement scopes s
    let rest ← statements (declare scopes s) rest
    return s' :: rest

end

/-! ## Declarations -/

/-- The full name of a declaration of the module. -/
def declaredName (name : String) : String := (r.own.declarations.lookup name).getD name

def struct (declaration : StructDecl) : Logged StructDecl := do
  let fields ← mapEach (fun field : StructField => do
    let ty ← r.ty field.span field.ty
    return { field with ty }) declaration.fields
  return { declaration with name := r.declaredName declaration.name, fields }

def sound (sound : SoundAsset) : SoundAsset := { sound with name := r.declaredName sound.name }

def constant (constant : Constant) : Logged Constant := do
  let ty ← r.ty constant.span constant.ty
  let init ← r.expression [] constant.init
  return { constant with name := r.declaredName constant.name, ty, init }

def global (global : Global) : Logged Global := do
  let ty ← r.ty global.span global.ty
  let init ← r.expression [] global.init
  return { global with name := r.declaredName global.name, ty, init }

def returnType (span : Span) : ReturnType → Logged ReturnType
  | .value ty => do
    let ty ← r.ty span ty
    return .value ty
  | .void => return .void

/-- The parameters and the locals at the top of the body share a scope. -/
def function (function : Function) : Logged Function := do
  let params ← mapEach (fun param : Param => do
    let ty ← r.ty param.span param.ty
    return { param with ty }) function.params
  let returnType ← r.returnType function.span function.returnType
  let body ← r.statements [function.params.map (·.name)] function.body
  return { function with
    name := if function.kind = .named then r.declaredName function.name else function.name
    params, returnType, body }

def program (program : Program) : Logged Program := do
  let structs ← mapEach r.struct program.structs
  let constants ← mapEach r.constant program.constants
  let globals ← mapEach r.global program.globals
  let functions ← mapEach r.function program.functions
  return { program with
    structs, sounds := program.sounds.map r.sound, constants, globals, functions }

end Resolver

/-! ## Modules -/

section Modules

variable {Path : Type}

/-- A single file without imports keeps its names. -/
def isSingle (modules : List (Module Path)) : Bool :=
  modules.length == 1 && modules.all (·.imports.isEmpty)

def resolveModule (namespaces : List Namespace) (module : Module Path × ℕ) :
    Logged (Module Path) := do
  let program ← (Resolver.mk namespaces module.2).program module.1.program
  return { module.1 with program }

/-- `resolve::resolve`. -/
def resolve (modules : List (Module Path)) : Except (List Diagnostic) (List (Module Path)) :=
  if isSingle modules then .ok modules
  else
    let namespaces := mapEach Module.namespace modules
    if namespaces.diagnostics ≠ [] then .error namespaces.diagnostics
    else
      let resolved := mapEach (resolveModule namespaces.value) modules.zipIdx
      if resolved.diagnostics ≠ [] then .error resolved.diagnostics else .ok resolved.value

end Modules

end Speck
