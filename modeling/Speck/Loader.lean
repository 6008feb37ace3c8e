import Speck.Sema
import Speck.Walks

/-!
# Loading modules

`modules::load` and `analyze_path` : the loader follows the imports of a file depth first,
parses every file it has read, resolves their names and reads their sound assets. It records
every path before it looks at it.

The file system (`Files`) and the functions that neither touch it nor the loader's state
(`Tools` : paths, lexer, parser, name resolution and the WAV decoder) are parameters. A failed
computation keeps the sources that it has read, so a computation (`LoadM`) returns its state
with either outcome.
-/

namespace Speck

/-! ## Computations -/

/-- A result, diagnostics, or a panic of the loader itself. -/
inductive Outcome (α : Type) where
  | ok (a : α)
  | error (diagnostics : List Diagnostic)
  | panicked

def LoadM (State α : Type) : Type := State → Outcome α × State

namespace LoadM

variable {State α β : Type}

def andThen (m : LoadM State α) (k : α → LoadM State β) : LoadM State β := fun s =>
  match m s with
  | (.ok a, s) => k a s
  | (.error diagnostics, s) => (.error diagnostics, s)
  | (.panicked, s) => (.panicked, s)

instance : Monad (LoadM State) where
  pure a := fun s => (.ok a, s)
  bind := andThen

def fail (diagnostics : List Diagnostic) : LoadM State α := fun s => (.error diagnostics, s)

/-- An `unwrap` of nothing. -/
def panicked : LoadM State α := fun s => (.panicked, s)

def get : LoadM State State := fun s => (.ok s, s)

def modify (f : State → State) : LoadM State Unit := fun s => (.ok (), f s)

def ofExcept : Except (List Diagnostic) α → LoadM State α
  | .ok a => pure a
  | .error diagnostics => fail diagnostics

def unwrap : Option α → LoadM State α
  | some a => pure a
  | none => panicked

/-- Run over a list in order, `collect()`. -/
def forList (f : α → LoadM State β) : List α → LoadM State (List β)
  | [] => pure []
  | a :: as => do
    let b ← f a
    let bs ← forList f as
    pure (b :: bs)

end LoadM

/-! ## Parameters -/

structure Import where
  «alias» : String
  path : String
  span : Span

structure Module (Path : Type) where
  program : Program
  imports : List (Import × ℕ)
  qualifier : String
  directory : Path

structure Metadata where
  isFile : Bool
  length : ℕ

/-- What the file system answers about a path, or the text of its error. An opened file has its
own metadata and contents. -/
structure Files (Path : Type) where
  canonicalize : Path → Except String Path
  readToString : Path → Except String String
  metadata : Path → Except String Metadata
  openFile : Path → Except String (Except String Metadata × Except String (List UInt8))

/-- Pure functions of `std::path`, the lexer, the parser, the resolver and the WAV decoder. -/
structure Tools (Path Token : Type) where
  extension : Path → Option String
  isAbsolute : String → Bool
  parent : Path → Option Path
  join : Path → String → Path
  /-- The path below the root's directory, or the whole path, if it is UTF-8. -/
  qualifier : Path → Path → Option String
  display : Path → String
  lexIn : String → SourceId → Except (List Diagnostic) (List Token)
  importHeaders : List Token → Except (List Diagnostic) (List Import)
  declaredStructNames : List Token → List String
  parseFile : List Token → Bool → List String → Except (List Diagnostic) Program
  resolve : List (Module Path) → Except (List Diagnostic) (List (Module Path))
  validate : List UInt8 → Except String (List UInt8)

/-! ## The loader -/

structure SourceMap (Path : Type) where
  files : List (Path × String)
  dependencies : List Path

structure LoadedModule (Path Token : Type) where
  tokens : List Token
  height : ℕ
  imports : List (Import × ℕ)
  qualifier : String
  directory : Path

structure Loader (Path Token : Type) where
  sources : SourceMap Path
  identities : List (Path × ℕ)
  active : List Path
  modules : List (Option (LoadedModule Path Token))
  rootDir : Option Path

/-- `MAX_IMPORT_DEPTH`. -/
def maxImportDepth : ℕ := 128

variable {Path Token : Type} [DecidableEq Path]

def SourceMap.recordDependency (sources : SourceMap Path) (path : Path) : SourceMap Path :=
  if path ∈ sources.dependencies then sources
  else { sources with dependencies := sources.dependencies ++ [path] }

namespace Loader

def start : Loader Path Token := ⟨⟨[], []⟩, [], [], [], none⟩

def recordDependency (path : Path) : LoadM (Loader Path Token) Unit :=
  LoadM.modify fun s => { s with sources := s.sources.recordDependency path }

/-- The height of a finished module. -/
def height (index : ℕ) : LoadM (Loader Path Token) ℕ := do
  let s ← LoadM.get
  let module ← LoadM.unwrap (s.modules[index]?.join)
  pure module.height

/-- The files of an import cycle. -/
def cycleMessage (tools : Tools Path Token) (cycle : List Path) : String :=
  "import cycle: " ++ " -> ".intercalate (cycle.map tools.display)

def depthMessage : String := s!"import nesting exceeds the limit of {maxImportDepth} files"

variable (tools : Tools Path Token)

/-- The imports of a file. `visit` loads a target. -/
def visitImports (visit : Path → Option Span → LoadM (Loader Path Token) ℕ) (canonical : Path)
    (aliases : List String) : List Import → LoadM (Loader Path Token) (List (Import × ℕ))
  | [] => pure []
  | header :: headers =>
    if header.alias ∈ aliases then
      LoadM.fail [⟨s!"import alias `{header.alias}` is declared more than once", header.span⟩]
    else if tools.isAbsolute header.path then
      LoadM.fail [⟨"import paths must be relative to the importing file", header.span⟩]
    else do
      let directory ← LoadM.unwrap (tools.parent canonical)
      let target ← visit (tools.join directory header.path) (some header.span)
      let imports ← visitImports visit canonical (header.alias :: aliases) headers
      pure ((header, target) :: imports)

/-- The first file gives the root directory. -/
def setRootDir (canonical : Path) : LoadM (Loader Path Token) Unit := do
  let s ← LoadM.get
  if s.modules.length = 0 then do
    let directory ← LoadM.unwrap (tools.parent canonical)
    LoadM.modify fun s => { s with rootDir := some directory }
  else pure ()

def moduleQualifier (canonical : Path) (span : Span) : LoadM (Loader Path Token) String := do
  let s ← LoadM.get
  if s.modules.length = 0 then pure ""
  else do
    let root ← LoadM.unwrap s.rootDir
    match tools.qualifier root canonical with
    | some qualifier => pure qualifier
    | none => LoadM.fail [⟨"module file paths must be valid UTF-8", span⟩]

/-- `SourceMap::add`, with the entry path as it was given and any other path in full. -/
def addSource (path canonical : Path) (source : String) : LoadM (Loader Path Token) SourceId := do
  let s ← LoadM.get
  LoadM.modify fun s =>
    { s with
      sources := { s.sources with
        files := s.sources.files ++ [(if s.modules.length = 0 then path else canonical, source)] } }
  pure ⟨s.sources.files.length⟩

/-- A file that is being loaded has no module yet. -/
def enter (canonical : Path) : LoadM (Loader Path Token) ℕ := do
  let s ← LoadM.get
  LoadM.modify fun s =>
    { s with
      identities := (canonical, s.modules.length) :: s.identities
      modules := s.modules ++ [none]
      active := s.active ++ [canonical] }
  pure s.modules.length

def leave (index : ℕ) (module : LoadedModule Path Token) : LoadM (Loader Path Token) Unit :=
  LoadM.modify fun s =>
    { s with modules := s.modules.set index (some module), active := s.active.dropLast }

variable (files : Files Path)

def readSource (path canonical : Path) (span : Span) : LoadM (Loader Path Token) String :=
  LoadM.ofExcept ((files.readToString canonical).mapError fun failure =>
    [⟨s!"could not read `{tools.display path}`: {failure}", span⟩])

/-- The rest of `visit`, for a file that has not been loaded. -/
def visitNew (visit : Path → Option Span → LoadM (Loader Path Token) ℕ) (path canonical : Path)
    (span : Span) : LoadM (Loader Path Token) ℕ := do
  let source ← readSource tools files path canonical span
  setRootDir tools canonical
  let qualifier ← moduleQualifier tools canonical span
  let id ← addSource path canonical source
  let tokens ← LoadM.ofExcept (tools.lexIn source id)
  let headers ← LoadM.ofExcept (tools.importHeaders tokens)
  let index ← enter canonical
  let imports ← visitImports tools visit canonical [] headers
  let heights ← LoadM.forList (fun i : Import × ℕ => height i.2) imports
  let directory ← LoadM.unwrap (tools.parent canonical)
  leave index ⟨tokens, 1 + maxHeight heights, imports, qualifier, directory⟩
  pure index

def canonicalizeSource (path : Path) (span : Span) : LoadM (Loader Path Token) Path :=
  LoadM.ofExcept ((files.canonicalize path).mapError fun failure =>
    [⟨s!"could not read `{tools.display path}`: {failure}", span⟩])

/-- `Loader::visit`. The depth limit bounds the recursion, so `fuel` does not run out. -/
def visit : ℕ → Path → Option Span → LoadM (Loader Path Token) ℕ
  | 0, _, _ => LoadM.panicked
  | fuel + 1, path, importSpan => do
    recordDependency path
    let span := importSpan.getD default
    if tools.extension path ≠ some "spk" then
      LoadM.fail [⟨"Speck source files must use the `.spk` extension", span⟩]
    else do
      let canonical ← canonicalizeSource tools files path span
      recordDependency canonical
      let s ← LoadM.get
      if canonical ∈ s.active then
        let cycle := s.active.drop (s.active.idxOf canonical) ++ [canonical]
        LoadM.fail [⟨cycleMessage tools cycle, span⟩]
      else
        match s.identities.lookup canonical with
        | some index => do
          let height ← height index
          if maxImportDepth < s.active.length + height then LoadM.fail [⟨depthMessage, span⟩]
          else pure index
        | none =>
          if maxImportDepth < s.active.length + 1 then LoadM.fail [⟨depthMessage, span⟩]
          else visitNew tools files (visit fuel) path canonical span

/-! ## Sound assets -/

def maxWavBytes : ℕ := 32 * 1024 * 1024

/-- The checks of `audio_assets::load` after it has found the file. The read is bounded too. -/
def readAsset (path canonical : Path) : Except String (List UInt8) := do
  let unreadable := fun error => s!"could not read sound asset `{tools.display path}`: {error}"
  let irregular := s!"sound asset `{tools.display path}` is not a regular file"
  let long := s!"sound asset `{tools.display path}` exceeds the 32 MiB encoded size limit"
  let metadata ← (files.metadata canonical).mapError unreadable
  if !metadata.isFile then .error irregular
  else if maxWavBytes < metadata.length then .error long
  else
    let (metadata, contents) ← (files.openFile canonical).mapError unreadable
    let metadata ← metadata.mapError unreadable
    if !metadata.isFile then .error irregular
    else
      let contents ← contents.mapError unreadable
      let bytes := contents.take (maxWavBytes + 1)
      if maxWavBytes < bytes.length then .error long
      else
        (tools.validate bytes).mapError fun message =>
          s!"invalid sound asset `{tools.display path}`: {message}"

def loadCanonicalAsset (path : Path) :
    Except String Path → LoadM (Loader Path Token) (Except String (List UInt8))
  | .error error => pure (.error s!"could not read sound asset `{tools.display path}`: {error}")
  | .ok canonical => do
    recordDependency canonical
    pure (readAsset tools files path canonical)

/-- `audio_assets::load`. -/
def loadAsset (path : Path) : LoadM (Loader Path Token) (Except String (List UInt8)) := do
  recordDependency path
  loadCanonicalAsset tools files path (files.canonicalize path)

/-- One sound of a module, with its diagnostic. -/
def loadSound (handles : HashMap ℕ) (directory : Path) (sound : SoundAsset) :
    LoadM (Loader Path Token) (SoundAsset × List Diagnostic) := do
  let handle ← LoadM.unwrap (handles.lookup sound.name)
  let sound := { sound with handle := BitVec.ofNat 32 handle }
  if tools.isAbsolute sound.path then
    pure (sound, [⟨"sound asset paths must be relative to the declaring file", sound.span⟩])
  else do
    let pcm ← loadAsset tools files (tools.join directory sound.path)
    match pcm with
    | .ok pcm => pure ({ sound with pcm }, [])
    | .error message => pure (sound, [⟨message, sound.span⟩])

def loadSounds (handles : HashMap ℕ) (module : Module Path) :
    LoadM (Loader Path Token) (Program × List Diagnostic) := do
  let sounds ← LoadM.forList (loadSound tools files handles module.directory) module.program.sounds
  pure ({ module.program with sounds := sounds.map (·.1) }, sounds.flatMap (·.2))

/-! ## The program -/

/-- The constant that stands for a sound's handle. -/
def soundConstant (sound : SoundAsset) : Constant :=
  ⟨sound.name, .i32, .i32 sound.handle.toNat sound.span, none, sound.span⟩

def withSoundConstants (program : Program) : Program :=
  { program with constants := program.constants ++ program.sounds.map soundConstant }

/-- Append the declarations of the other modules to the root's. -/
def joinModules (root : Program) (modules : List Program) : Program :=
  modules.foldl (fun root program =>
    { root with
      structs := root.structs ++ program.structs
      sounds := root.sounds ++ program.sounds
      constants := root.constants ++ program.constants
      globals := root.globals ++ program.globals
      functions := root.functions ++ program.functions }) root

/-- Parse one file, with the structs of its imports. -/
def parseModule (structNames : List (List String)) (file : LoadedModule Path Token × ℕ) :
    LoadM (Loader Path Token) (Module Path) := do
  let imported ← LoadM.forList (fun i : Import × ℕ => do
    let names ← LoadM.unwrap structNames[i.2]?
    pure (names.map fun name => i.1.alias ++ "::" ++ name)) file.1.imports
  let program ← LoadM.ofExcept (tools.parseFile file.1.tokens (file.2 == 0) imported.flatten)
  pure ⟨program, file.1.imports, file.1.qualifier, file.1.directory⟩

/-- The handles of the sounds, in the order of their qualified names. Every handle is an `i32`. -/
def soundHandles (modules : List (Module Path)) : Option (HashMap ℕ) :=
  let names := modules.flatMap fun module => module.program.sounds.map (·.name)
  if names.length < 2 ^ 31 then
    some (HashMap.ofList ((names.mergeSort (· ≤ ·)).zipIdx.map fun (name, index) => (name, index + 1)))
  else none

/-- `modules::load`. -/
def load (path : Path) : LoadM (Loader Path Token) Program := do
  let _ ← visit tools files (maxImportDepth + 1) path none
  let s ← LoadM.get
  LoadM.modify fun s => { s with modules := [] }
  let loaded ← LoadM.forList LoadM.unwrap s.modules
  let structNames := loaded.map fun file => tools.declaredStructNames file.tokens
  let modules ← LoadM.forList (parseModule tools structNames) loaded.zipIdx
  let modules ← LoadM.ofExcept (tools.resolve modules)
  let handles ← LoadM.unwrap (soundHandles modules)
  let modules ← LoadM.forList (loadSounds tools files handles) modules
  let diagnostics := modules.flatMap (·.2)
  if diagnostics ≠ [] then LoadM.fail diagnostics
  else
    match modules.map fun module => withSoundConstants module.1 with
    | [] => LoadM.panicked
    | root :: programs => pure (joinModules root programs)

/-- `analyze_path`, with the sources that it keeps. -/
def analyzePath [F32Primitives] (path : Path) : Outcome Program × SourceMap Path :=
  let (result, s) := (do
    let program ← load tools files path
    LoadM.ofExcept (check program) : LoadM (Loader Path Token) Program) start
  (result, s.sources)

end Loader

end Speck
