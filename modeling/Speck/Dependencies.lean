import Speck.Loader

/-!
# Recorded dependencies

The recorded dependencies determine the analysis : two file systems that agree on every path
that the analysis of one records give the same outcome, whether it succeeds or fails, and the
same sources. `Determined` says this of one computation, and follows for a sequence of
computations from the parts, because a path is recorded before it is looked at and a record is
never taken back.
-/

namespace Speck

variable {Path Token : Type}

/-- The same canonical target, readability, kind, size and contents. -/
structure Files.Agrees (files files' : Files Path) (path : Path) : Prop where
  canonicalize : files'.canonicalize path = files.canonicalize path
  readToString : files'.readToString path = files.readToString path
  metadata : files'.metadata path = files.metadata path
  openFile : files'.openFile path = files.openFile path

/-- The paths that a computation records determine what it does, where the `known` paths are
recorded already. -/
def Determined {α : Type} (known : List Path) (m : Files Path → LoadM (Loader Path Token) α) :
    Prop :=
  ∀ files files' s, (∀ path ∈ known, path ∈ s.sources.dependencies) →
    s.sources.dependencies ⊆ (m files s).2.sources.dependencies ∧
    ((∀ path ∈ (m files s).2.sources.dependencies, files.Agrees files' path) →
      m files' s = m files s)

namespace Determined

variable {α β : Type} {known : List Path}

/-- A computation that does not look at the files. -/
theorem constant {m : LoadM (Loader Path Token) α}
    (h : ∀ s, s.sources.dependencies ⊆ (m s).2.sources.dependencies) :
    Determined known fun _ => m := fun _ _ s _ => ⟨h s, fun _ => rfl⟩

theorem pure (a : α) :
    Determined known fun _ => (Pure.pure a : LoadM (Loader Path Token) α) :=
  constant fun _ => List.Subset.refl _

theorem fail (diagnostics : List Diagnostic) :
    Determined known fun _ => (LoadM.fail diagnostics : LoadM (Loader Path Token) α) :=
  constant fun _ => List.Subset.refl _

theorem panicked : Determined known fun _ => (LoadM.panicked : LoadM (Loader Path Token) α) :=
  constant fun _ => List.Subset.refl _

theorem get : Determined known fun _ => (LoadM.get : LoadM (Loader Path Token) _) :=
  constant fun _ => List.Subset.refl _

theorem modify {f : Loader Path Token → Loader Path Token}
    (h : ∀ s, (f s).sources.dependencies = s.sources.dependencies) :
    Determined known fun _ => LoadM.modify f :=
  constant fun s => (h s).symm ▸ List.Subset.refl _

theorem ofExcept (result : Except (List Diagnostic) α) :
    Determined known fun _ => (LoadM.ofExcept result : LoadM (Loader Path Token) α) := by
  cases result with
  | ok a => exact pure a
  | error diagnostics => exact fail diagnostics

theorem unwrap (a : Option α) :
    Determined known fun _ => (LoadM.unwrap a : LoadM (Loader Path Token) α) := by
  cases a with
  | some a => exact pure a
  | none => exact panicked

/-- The records of the first computation are still there after the second. -/
theorem bind {m : Files Path → LoadM (Loader Path Token) α}
    {k : Files Path → α → LoadM (Loader Path Token) β} (h : Determined known m)
    (hk : ∀ a, Determined known fun files => k files a) :
    Determined known fun files => m files >>= k files := by
  intro files files' s hknown
  obtain ⟨hsub, hsame⟩ := h files files' s hknown
  change s.sources.dependencies ⊆ (LoadM.andThen (m files) (k files) s).2.sources.dependencies ∧
    ((∀ path ∈ (LoadM.andThen (m files) (k files) s).2.sources.dependencies,
      files.Agrees files' path) →
      LoadM.andThen (m files') (k files') s = LoadM.andThen (m files) (k files) s)
  unfold LoadM.andThen
  cases hm : m files s with
  | mk result s' =>
    rw [hm] at hsub hsame
    cases result with
    | ok a =>
      obtain ⟨hsub', hsame'⟩ := hk a files files' s' fun path hpath => hsub (hknown path hpath)
      refine ⟨List.Subset.trans hsub hsub', fun hagree => ?_⟩
      rw [hsame fun path hpath => hagree path (hsub' hpath)]
      exact hsame' hagree
    | error diagnostics => exact ⟨hsub, fun hagree => by rw [hsame hagree]⟩
    | panicked => exact ⟨hsub, fun hagree => by rw [hsame hagree]⟩

theorem mono {m : Files Path → LoadM (Loader Path Token) α} {known' : List Path}
    (h : Determined known m) (hsub : known ⊆ known') : Determined known' m :=
  fun files files' s hknown => h files files' s fun path hpath => hknown path (hsub hpath)

/-- A path that has been recorded is known. -/
theorem record [DecidableEq Path] {k : Files Path → LoadM (Loader Path Token) α} {path : Path}
    (h : Determined (path :: known) k) :
    Determined known fun files => Loader.recordDependency path >>= fun _ => k files := by
  intro files files' s hknown
  have hsub : s.sources.dependencies ⊆ (s.sources.recordDependency path).dependencies := by
    unfold SourceMap.recordDependency
    split
    · exact List.Subset.refl _
    · exact List.subset_append_left _ _
  have hpath : path ∈ (s.sources.recordDependency path).dependencies := by
    unfold SourceMap.recordDependency
    split
    · assumption
    · simp
  obtain ⟨hsub', hsame⟩ := h files files' { s with sources := s.sources.recordDependency path }
    (List.forall_mem_cons.mpr ⟨hpath, fun other hother => hsub (hknown other hother)⟩)
  exact ⟨List.Subset.trans hsub hsub', hsame⟩

/-- Looking at a known path. -/
theorem consult {f : Files Path → β} {k : β → Files Path → LoadM (Loader Path Token) α}
    {path : Path} (hpath : path ∈ known)
    (hf : ∀ files files' : Files Path, files.Agrees files' path → f files' = f files)
    (h : ∀ b, Determined known (k b)) : Determined known fun files => k (f files) files := by
  intro files files' s hknown
  obtain ⟨hsub, hsame⟩ := h (f files) files files' s hknown
  refine ⟨hsub, fun hagree => ?_⟩
  have heq := hf files files' (hagree path (hsub (hknown path hpath)))
  have hk : k (f files') files' s = k (f files) files s := by
    rw [heq]
    exact hsame hagree
  exact hk

theorem ite {c : Prop} [Decidable c] {m m' : Files Path → LoadM (Loader Path Token) α}
    (h : Determined known m) (h' : Determined known m') :
    Determined known fun files => if c then m files else m' files := by
  split
  · exact h
  · exact h'

theorem forList {f : Files Path → α → LoadM (Loader Path Token) β}
    (h : ∀ a, Determined known fun files => f files a) (as : List α) :
    Determined known fun files => LoadM.forList (f files) as := by
  induction as with
  | nil => exact pure []
  | cons a as ih => exact (h a).bind fun b => ih.bind fun bs => pure (b :: bs)

end Determined

namespace Loader

variable (tools : Tools Path Token) {known : List Path}

theorem determined_height (index : ℕ) :
    Determined known fun _ => (height index : LoadM (Loader Path Token) ℕ) :=
  Determined.get.bind fun _ => (Determined.unwrap _).bind fun _ => Determined.pure _

theorem determined_visitImports
    {visit : Files Path → Path → Option Span → LoadM (Loader Path Token) ℕ}
    (h : ∀ path span, Determined known fun files => visit files path span) (canonical : Path)
    (aliases : List String) (headers : List Import) :
    Determined known fun files => visitImports tools (visit files) canonical aliases headers := by
  induction headers generalizing aliases with
  | nil => exact Determined.pure []
  | cons header headers ih =>
    unfold visitImports
    refine Determined.ite (Determined.fail _) (Determined.ite (Determined.fail _) ?_)
    exact (Determined.unwrap _).bind fun directory => (h _ _).bind fun target =>
      (ih _).bind fun imports => Determined.pure _

theorem determined_setRootDir (canonical : Path) :
    Determined known fun _ => (setRootDir tools canonical : LoadM (Loader Path Token) Unit) := by
  refine Determined.get.bind fun s => Determined.ite ?_ (Determined.pure _)
  exact (Determined.unwrap _).bind fun directory => Determined.modify fun _ => rfl

theorem determined_moduleQualifier (canonical : Path) (span : Span) :
    Determined known fun _ =>
      (moduleQualifier tools canonical span : LoadM (Loader Path Token) String) := by
  refine Determined.get.bind fun s => Determined.ite (Determined.pure _) ?_
  refine (Determined.unwrap _).bind fun root => ?_
  cases tools.qualifier root canonical with
  | some qualifier => exact Determined.pure _
  | none => exact Determined.fail _

theorem determined_addSource (path canonical : Path) (source : String) :
    Determined known fun _ =>
      (addSource path canonical source : LoadM (Loader Path Token) SourceId) := by
  refine Determined.get.bind fun s => (Determined.modify ?_).bind fun _ => Determined.pure _
  exact fun _ => rfl

theorem determined_enter (canonical : Path) :
    Determined known fun _ => (enter canonical : LoadM (Loader Path Token) ℕ) := by
  refine Determined.get.bind fun s => (Determined.modify ?_).bind fun _ => Determined.pure _
  exact fun _ => rfl

theorem determined_leave (index : ℕ) (module : LoadedModule Path Token) :
    Determined known fun _ => leave index module := Determined.modify fun _ => rfl

theorem determined_readSource {path canonical : Path} (hcanonical : canonical ∈ known)
    (span : Span) : Determined known fun files =>
      (readSource tools files path canonical span : LoadM (Loader Path Token) String) :=
  Determined.consult (f := fun files => files.readToString canonical) hcanonical
    (fun _ _ hagree => hagree.readToString) fun _ => Determined.ofExcept _

theorem determined_canonicalizeSource {path : Path} (hpath : path ∈ known) (span : Span) :
    Determined known fun files =>
      (canonicalizeSource tools files path span : LoadM (Loader Path Token) Path) :=
  Determined.consult (f := fun files => files.canonicalize path) hpath
    (fun _ _ hagree => hagree.canonicalize) fun _ => Determined.ofExcept _

theorem determined_visitNew
    {visit : Files Path → Path → Option Span → LoadM (Loader Path Token) ℕ}
    (h : ∀ path span, Determined known fun files => visit files path span) {path canonical : Path}
    (hcanonical : canonical ∈ known) (span : Span) :
    Determined known fun files => visitNew tools files (visit files) path canonical span := by
  unfold visitNew
  refine Determined.bind (determined_readSource tools hcanonical span) fun source => ?_
  refine Determined.bind (determined_setRootDir tools canonical) fun _ => ?_
  refine Determined.bind (determined_moduleQualifier tools canonical span) fun qualifier => ?_
  refine Determined.bind (determined_addSource path canonical source) fun id => ?_
  refine Determined.bind (Determined.ofExcept _) fun tokens => ?_
  refine Determined.bind (Determined.ofExcept _) fun headers => ?_
  refine Determined.bind (determined_enter canonical) fun index => ?_
  refine Determined.bind (determined_visitImports tools h canonical [] headers) fun imports => ?_
  refine Determined.bind (Determined.forList (fun i => determined_height i.2) imports)
    fun heights => ?_
  refine Determined.bind (Determined.unwrap _) fun directory => ?_
  exact Determined.bind (determined_leave _ _) fun _ => Determined.pure _

/-- The checks of a sound asset look at its canonical path only. -/
theorem readAsset_agrees {files files' : Files Path} {canonical : Path}
    (h : files.Agrees files' canonical) (path : Path) :
    readAsset tools files' path canonical = readAsset tools files path canonical := by
  unfold readAsset
  rw [h.metadata, h.openFile]

theorem determined_parseModule (structNames : List (List String))
    (file : LoadedModule Path Token × ℕ) :
    Determined known fun _ => parseModule tools structNames file := by
  unfold parseModule
  refine Determined.bind (Determined.forList (fun i => ?_) _) fun imported => ?_
  · exact Determined.bind (Determined.unwrap _) fun _ => Determined.pure _
  · exact Determined.bind (Determined.ofExcept _) fun _ => Determined.pure _

variable [DecidableEq Path]

theorem determined_visit (fuel : ℕ) (path : Path) (importSpan : Option Span) :
    Determined known fun files => visit tools files fuel path importSpan := by
  induction fuel generalizing known path importSpan with
  | zero => exact Determined.panicked
  | succ fuel ih =>
    unfold visit
    refine Determined.record (Determined.ite (Determined.fail _) ?_)
    refine (determined_canonicalizeSource tools List.mem_cons_self _).bind fun canonical => ?_
    refine Determined.record (Determined.get.bind fun s => Determined.ite (Determined.fail _) ?_)
    cases s.identities.lookup canonical with
    | some index =>
      exact (determined_height index).bind fun height =>
        Determined.ite (Determined.fail _) (Determined.pure _)
    | none =>
      exact Determined.ite (Determined.fail _)
        (determined_visitNew tools (fun path span => ih path span) List.mem_cons_self _)

theorem determined_loadAsset (path : Path) : Determined known fun files =>
    (loadAsset tools files path : LoadM (Loader Path Token) (Except String (List UInt8))) := by
  unfold loadAsset
  refine Determined.record ?_
  refine Determined.consult (f := fun files => files.canonicalize path)
    (k := fun canonical files => loadCanonicalAsset tools files path canonical)
    List.mem_cons_self (fun _ _ hagree => hagree.canonicalize) fun canonical => ?_
  cases canonical with
  | error error => exact Determined.pure _
  | ok canonical =>
    refine Determined.record ?_
    exact Determined.consult (f := fun files => readAsset tools files path canonical)
      (k := fun contents _ => Pure.pure contents) List.mem_cons_self
      (fun _ _ hagree => readAsset_agrees tools hagree path) fun contents => Determined.pure contents

theorem determined_loadSound (handles : HashMap ℕ) (directory : Path) (sound : SoundAsset) :
    Determined known fun files => (loadSound tools files handles directory sound :
      LoadM (Loader Path Token) (SoundAsset × List Diagnostic)) := by
  unfold loadSound
  refine Determined.bind (Determined.unwrap _) fun handle => ?_
  refine Determined.ite (Determined.pure _) ?_
  refine Determined.bind (determined_loadAsset tools _) fun pcm => ?_
  cases pcm with
  | ok pcm => exact Determined.pure _
  | error message => exact Determined.pure _

theorem determined_loadSounds (handles : HashMap ℕ) (module : Module Path) :
    Determined known fun files => (loadSounds tools files handles module :
      LoadM (Loader Path Token) (Program × List Diagnostic)) := by
  unfold loadSounds
  exact Determined.bind (Determined.forList (determined_loadSound tools handles _) _)
    fun _ => Determined.pure _

theorem determined_load (path : Path) :
    Determined known fun files => (load tools files path : LoadM (Loader Path Token) Program) := by
  unfold load
  refine Determined.bind (determined_visit tools _ path none) fun _ => ?_
  refine Determined.bind Determined.get fun s => ?_
  refine Determined.bind (Determined.modify ?_) fun _ => ?_
  · exact fun _ => rfl
  refine Determined.bind (Determined.forList Determined.unwrap _) fun loaded => ?_
  refine Determined.bind (Determined.forList (determined_parseModule tools _) _) fun modules => ?_
  refine Determined.bind (Determined.ofExcept _) fun modules => ?_
  refine Determined.bind (Determined.unwrap _) fun handles => ?_
  refine Determined.bind (Determined.forList (determined_loadSounds tools _) _) fun modules => ?_
  refine Determined.ite (Determined.fail _) ?_
  cases modules.map fun module => withSoundConstants module.1 with
  | nil => exact Determined.panicked
  | cons root programs => exact Determined.pure _

/-- The recorded dependencies determine the analysis : where another file system agrees with the
first on every path that the analysis recorded, the program or the diagnostics are the same, and
so are the sources and the recorded dependencies. -/
theorem dependencies_determine [F32Primitives] (files files' : Files Path) (path : Path)
    (h : ∀ dependency ∈ (analyzePath tools files path).2.dependencies,
      files.Agrees files' dependency) :
    analyzePath tools files' path = analyzePath tools files path := by
  have hanalyze : Determined [] fun files =>
      (load tools files path >>= fun program => LoadM.ofExcept (check program) :
        LoadM (Loader Path Token) Program) :=
    Determined.bind (determined_load tools path) fun program => Determined.ofExcept _
  have hsame := (hanalyze files files' start (by simp)).2 h
  exact congrArg (fun result => (result.1, result.2.sources)) hsame

end Loader

namespace MissingImport

/-- The tokens of an import declaration. -/
inductive Word where
  | import
  | text (text : String)
  | as
  | name (name : String)

/-- `import "rooms.spk" as rooms`. -/
def importSpan : Span := ⟨⟨0⟩, 0, 27⟩

/-- Paths by their names, and files that hold that import only. -/
def tools : Tools (List String) Word where
  extension path := if path.getLast? ∈ [some "main.spk", some "rooms.spk"] then some "spk" else none
  isAbsolute path := path ∉ ["main.spk", "rooms.spk"]
  parent path := if path = [] then none else some path.dropLast
  join path name := path ++ [name]
  qualifier root path := some ("/".intercalate (path.drop root.length))
  display path := "/".intercalate path
  lexIn source _ :=
    if source = "import \"rooms.spk\" as rooms" then
      .ok [.import, .text "rooms.spk", .as, .name "rooms"]
    else .error [⟨"expected a declaration", default⟩]
  importHeaders tokens :=
    match tokens with
    | [.import, .text path, .as, .name «alias»] => .ok [⟨«alias», path, importSpan⟩]
    | _ => .ok []
  declaredStructNames _ := []
  parseFile _ _ _ := .error [⟨"expected a game declaration", default⟩]
  resolve modules := .ok modules
  validate _ := .error "not a WAV file"

def missing : String := "No such file or directory (os error 2)"

/-- A directory with one file of the game, which imports another, and some notes. -/
def files (notes : String) : Files (List String) where
  canonicalize path :=
    if path = ["main.spk"] then .ok ["game", "main.spk"]
    else if path ∈ [["game", "main.spk"], ["game", "notes.txt"]] then .ok path
    else .error missing
  readToString path :=
    if path ∈ [["main.spk"], ["game", "main.spk"]] then .ok "import \"rooms.spk\" as rooms"
    else if path = ["game", "notes.txt"] then .ok notes
    else .error missing
  metadata path :=
    if path ∈ [["main.spk"], ["game", "main.spk"]] then .ok ⟨true, 27⟩
    else if path = ["game", "notes.txt"] then .ok ⟨true, notes.length⟩
    else .error missing
  openFile path :=
    if path ∈ [["main.spk"], ["game", "main.spk"]] then .ok (.ok ⟨true, 27⟩, .ok [])
    else if path = ["game", "notes.txt"] then .ok (.ok ⟨true, notes.length⟩, .ok [])
    else .error missing

end MissingImport

open MissingImport in
/-- An edit of the notes does not change the analysis, which stops at the missing import. -/
theorem Loader.dependencies_determine_sample :
    (@Loader.analyzePath _ _ _ tools (files "todo") softFloat ["main.spk"]).2.dependencies =
      [["main.spk"], ["game", "main.spk"], ["game", "rooms.spk"]] ∧
    @Loader.analyzePath _ _ _ tools (files "done") softFloat ["main.spk"] =
      @Loader.analyzePath _ _ _ tools (files "todo") softFloat ["main.spk"] := by
  have hrecorded : (@Loader.analyzePath _ _ _ tools (files "todo") softFloat
      ["main.spk"]).2.dependencies =
      [["main.spk"], ["game", "main.spk"], ["game", "rooms.spk"]] := by
    decide
  refine ⟨hrecorded, ?_⟩
  refine @Loader.dependencies_determine _ _ tools _ softFloat (files "todo") (files "done") ["main.spk"] ?_
  rw [hrecorded]
  intro dependency hdependency
  simp only [List.mem_cons, List.not_mem_nil, or_false] at hdependency
  rcases hdependency with rfl | rfl | rfl <;> constructor <;> simp [files]

end Speck
