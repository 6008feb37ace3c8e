import Speck.Loader

/-!
# Source texts

The sources that an analysis keeps : the path of each was recorded as a dependency, and the text
of each is what its path holds. `Traced` says of one computation that it keeps this, whatever its
outcome, and that its result meets a condition.
-/

namespace Speck

variable {Path Token : Type}

/-- Every source was recorded, with the text at its path. -/
def SourceMap.Recorded (files : Files Path) (sources : SourceMap Path) : Prop :=
  ∀ file ∈ sources.files, file.1 ∈ sources.dependencies ∧
    files.readToString file.1 = .ok file.2

/-- The computation keeps the sources recorded, where the `known` paths are recorded already. -/
def Traced {α : Type} (files : Files Path) (known : List Path) (m : LoadM (Loader Path Token) α)
    (post : α → Prop) : Prop :=
  ∀ s, (∀ path ∈ known, path ∈ s.sources.dependencies) → s.sources.Recorded files →
    s.sources.dependencies ⊆ (m s).2.sources.dependencies ∧
    (m s).2.sources.Recorded files ∧ ∀ a, (m s).1 = .ok a → post a

namespace Traced

variable {α β : Type} {files : Files Path} {known : List Path}

/-- A computation that leaves the sources alone. -/
theorem silent {m : LoadM (Loader Path Token) α} (h : ∀ s, (m s).2.sources = s.sources) :
    Traced files known m fun _ => True := by
  intro s _ hrecorded
  rw [h s]
  exact ⟨List.Subset.refl _, hrecorded, fun _ _ => trivial⟩

theorem pure (a : α) : Traced files known (Pure.pure a : LoadM (Loader Path Token) α)
    fun _ => True := silent fun _ => rfl

theorem fail (diagnostics : List Diagnostic) {post : α → Prop} :
    Traced files known (LoadM.fail diagnostics : LoadM (Loader Path Token) α) post :=
  fun _ _ hrecorded => ⟨List.Subset.refl _, hrecorded, nofun⟩

theorem panicked {post : α → Prop} :
    Traced files known (LoadM.panicked : LoadM (Loader Path Token) α) post :=
  fun _ _ hrecorded => ⟨List.Subset.refl _, hrecorded, nofun⟩

theorem get : Traced files known (LoadM.get : LoadM (Loader Path Token) _) fun _ => True :=
  silent fun _ => rfl

theorem ofExcept (result : Except (List Diagnostic) α) :
    Traced files known (LoadM.ofExcept result : LoadM (Loader Path Token) α)
      fun a => result = .ok a := by
  intro s _ hrecorded
  cases result with
  | ok a =>
    refine ⟨List.Subset.refl _, hrecorded, fun b hb => ?_⟩
    cases hb
    rfl
  | error diagnostics => exact ⟨List.Subset.refl _, hrecorded, nofun⟩

theorem unwrap (a : Option α) : Traced files known
    (LoadM.unwrap a : LoadM (Loader Path Token) α) fun _ => True := by
  cases a with
  | some a => exact pure a
  | none => exact panicked

theorem bind {m : LoadM (Loader Path Token) α} {k : α → LoadM (Loader Path Token) β}
    {q : α → Prop} {post : β → Prop} (h : Traced files known m q)
    (hk : ∀ a, q a → Traced files known (k a) post) : Traced files known (m >>= k) post := by
  intro s hknown hrecorded
  obtain ⟨hsub, hrecorded', hmid⟩ := h s hknown hrecorded
  change s.sources.dependencies ⊆ (LoadM.andThen m k s).2.sources.dependencies ∧
    (LoadM.andThen m k s).2.sources.Recorded files ∧
    ∀ b, (LoadM.andThen m k s).1 = .ok b → post b
  unfold LoadM.andThen
  cases hm : m s with
  | mk result s' =>
    rw [hm] at hsub hrecorded' hmid
    cases result with
    | ok a =>
      obtain ⟨hsub', hrest⟩ := hk a (hmid a rfl) s' (fun path hpath => hsub (hknown path hpath))
        hrecorded'
      exact ⟨List.Subset.trans hsub hsub', hrest⟩
    | error diagnostics => exact ⟨hsub, hrecorded', nofun⟩
    | panicked => exact ⟨hsub, hrecorded', nofun⟩

theorem ite {c : Prop} [Decidable c] {m m' : LoadM (Loader Path Token) α} {post : α → Prop}
    (h : Traced files known m post) (h' : Traced files known m' post) :
    Traced files known (if c then m else m') post := by
  split
  · exact h
  · exact h'

theorem forList {f : α → LoadM (Loader Path Token) β}
    (h : ∀ a, Traced files known (f a) fun _ => True) (as : List α) :
    Traced files known (LoadM.forList f as) fun _ => True := by
  induction as with
  | nil => exact pure []
  | cons a as ih => exact bind (h a) fun b _ => bind ih fun bs _ => pure (b :: bs)

/-- A path that has been recorded is known. -/
theorem record [DecidableEq Path] {k : LoadM (Loader Path Token) α} {path : Path}
    {post : α → Prop} (h : Traced files (path :: known) k post) :
    Traced files known (Loader.recordDependency path >>= fun _ => k) post := by
  intro s hknown hrecorded
  have hsub : s.sources.dependencies ⊆ (s.sources.recordDependency path).dependencies ∧
      path ∈ (s.sources.recordDependency path).dependencies ∧
      (s.sources.recordDependency path).files = s.sources.files := by
    unfold SourceMap.recordDependency
    split
    · next hmem => exact ⟨List.Subset.refl _, hmem, rfl⟩
    · exact ⟨List.subset_append_left _ _, by simp, rfl⟩
  obtain ⟨hsub, hpath, hfiles⟩ := hsub
  obtain ⟨hsub', hrest⟩ := h { s with sources := s.sources.recordDependency path }
    (List.forall_mem_cons.mpr ⟨hpath, fun other hother => hsub (hknown other hother)⟩)
    (fun file hfile => by
      rw [hfiles] at hfile
      exact ⟨hsub (hrecorded file hfile).1, (hrecorded file hfile).2⟩)
  exact ⟨List.Subset.trans hsub hsub', hrest⟩

theorem weaken {m : LoadM (Loader Path Token) α} {post : α → Prop}
    (h : Traced files known m post) : Traced files known m fun _ => True :=
  fun s hknown hrecorded => ⟨(h s hknown hrecorded).1, (h s hknown hrecorded).2.1, fun _ _ => trivial⟩

end Traced

namespace Loader

variable (tools : Tools Path Token) {files : Files Path} {known : List Path}

theorem traced_height (index : ℕ) :
    Traced files known (height index : LoadM (Loader Path Token) ℕ) fun _ => True :=
  Traced.bind .get fun _ _ => Traced.bind (.unwrap _) fun _ _ => .pure _

theorem traced_visitImports {visit : Path → Option Span → LoadM (Loader Path Token) ℕ}
    (h : ∀ path span, Traced files known (visit path span) fun _ => True) (canonical : Path)
    (aliases : List String) (headers : List Import) :
    Traced files known (visitImports tools visit canonical aliases headers) fun _ => True := by
  induction headers generalizing aliases with
  | nil => exact Traced.pure []
  | cons header headers ih =>
    unfold visitImports
    refine Traced.ite (Traced.fail _) (Traced.ite (Traced.fail _) ?_)
    refine Traced.bind (Traced.unwrap _) fun directory _ => ?_
    refine Traced.bind (h _ _) fun target _ => ?_
    exact Traced.bind (ih _) fun imports _ => Traced.pure _

theorem traced_setRootDir (canonical : Path) :
    Traced files known (setRootDir tools canonical : LoadM (Loader Path Token) Unit)
      fun _ => True := by
  refine Traced.bind Traced.get fun s _ => Traced.ite ?_ (Traced.pure _)
  exact Traced.bind (Traced.unwrap _) fun directory _ => Traced.silent fun _ => rfl

theorem traced_moduleQualifier (canonical : Path) (span : Span) :
    Traced files known (moduleQualifier tools canonical span : LoadM (Loader Path Token) String)
      fun _ => True := by
  refine Traced.bind Traced.get fun s _ => Traced.ite (Traced.pure _) ?_
  refine Traced.bind (Traced.unwrap _) fun root _ => ?_
  cases tools.qualifier root canonical with
  | some qualifier => exact Traced.pure _
  | none => exact Traced.fail _

/-- The source is added under a recorded path that holds its text. -/
theorem traced_addSource {path canonical : Path} {source : String} (hpath : path ∈ known)
    (hcanonical : canonical ∈ known) (hread : files.readToString canonical = .ok source)
    (hlink : files.readToString path = files.readToString canonical) :
    Traced files known (addSource path canonical source : LoadM (Loader Path Token) SourceId)
      fun _ => True := by
  intro s hknown hrecorded
  refine ⟨List.Subset.refl _, fun file hfile => ?_, fun _ _ => trivial⟩
  rcases List.mem_append.mp hfile with hfile | hfile
  · exact hrecorded file hfile
  · rw [List.mem_singleton.mp hfile]
    dsimp only
    split
    · exact ⟨hknown path hpath, hlink.trans hread⟩
    · exact ⟨hknown canonical hcanonical, hread⟩

theorem traced_visitNew {visit : Path → Option Span → LoadM (Loader Path Token) ℕ}
    (h : ∀ path span, Traced files known (visit path span) fun _ => True) {path canonical : Path}
    (hpath : path ∈ known) (hcanonical : canonical ∈ known)
    (hlink : files.readToString path = files.readToString canonical) (span : Span) :
    Traced files known (visitNew tools files visit path canonical span) fun _ => True := by
  unfold visitNew
  refine Traced.bind (Traced.ofExcept _) fun source hsource => ?_
  have hread : files.readToString canonical = .ok source := by
    cases htext : files.readToString canonical with
    | error failure =>
      rw [htext] at hsource
      cases hsource
    | ok text =>
      rw [htext] at hsource
      cases hsource
      rfl
  refine Traced.bind (traced_setRootDir tools canonical) fun _ _ => ?_
  refine Traced.bind (traced_moduleQualifier tools canonical span) fun qualifier _ => ?_
  refine Traced.bind (traced_addSource hpath hcanonical hread hlink) fun id _ => ?_
  refine Traced.bind (Traced.ofExcept _) fun tokens _ => ?_
  refine Traced.bind (Traced.ofExcept _) fun headers _ => ?_
  refine Traced.bind (Traced.silent fun _ => rfl) fun index _ => ?_
  refine Traced.bind (traced_visitImports tools h canonical [] headers) fun imports _ => ?_
  refine Traced.bind (Traced.forList (fun i => traced_height i.2) imports) fun heights _ => ?_
  refine Traced.bind (Traced.unwrap _) fun directory _ => ?_
  exact Traced.bind (Traced.silent fun _ => rfl) fun _ _ => Traced.pure _

theorem traced_parseModule (structNames : List (List String))
    (file : LoadedModule Path Token × ℕ) :
    Traced files known (parseModule tools structNames file) fun _ => True := by
  unfold parseModule
  refine Traced.bind (Traced.forList (fun i => ?_) _) fun imported _ => ?_
  · exact Traced.bind (Traced.unwrap _) fun _ _ => Traced.pure _
  · exact Traced.bind (Traced.ofExcept _) fun _ _ => Traced.pure _

variable [DecidableEq Path]

theorem traced_visit (hlink : ∀ {path canonical}, files.canonicalize path = .ok canonical →
    files.readToString path = files.readToString canonical) (fuel : ℕ) (path : Path)
    (importSpan : Option Span) :
    Traced files known (visit tools files fuel path importSpan) fun _ => True := by
  induction fuel generalizing known path importSpan with
  | zero => exact Traced.panicked
  | succ fuel ih =>
    unfold visit
    refine Traced.record (Traced.ite (Traced.fail _) ?_)
    refine Traced.bind (Traced.ofExcept _) fun canonical hcanonical => ?_
    have hsame : files.readToString path = files.readToString canonical := by
      refine hlink ?_
      cases htarget : files.canonicalize path with
      | error failure =>
        rw [htarget] at hcanonical
        cases hcanonical
      | ok target =>
        rw [htarget] at hcanonical
        cases hcanonical
        rfl
    refine Traced.record (Traced.bind Traced.get fun s _ => Traced.ite (Traced.fail _) ?_)
    cases s.identities.lookup canonical with
    | some index =>
      exact Traced.bind (traced_height index) fun height _ =>
        Traced.ite (Traced.fail _) (Traced.pure _)
    | none =>
      exact Traced.ite (Traced.fail _) (traced_visitNew tools (fun path span => ih path span)
        (List.mem_cons_of_mem _ List.mem_cons_self) List.mem_cons_self hsame _)

theorem traced_loadSound (handles : HashMap ℕ) (directory : Path) (sound : SoundAsset) :
    Traced files known (loadSound tools files handles directory sound) fun _ => True := by
  unfold loadSound
  refine Traced.bind (Traced.unwrap _) fun handle _ => Traced.ite (Traced.pure _) ?_
  refine Traced.bind (q := fun _ => True) ?_ fun pcm _ => ?_
  · refine Traced.record ?_
    cases files.canonicalize (tools.join directory sound.path) with
    | error error => exact Traced.pure _
    | ok canonical => exact Traced.record (Traced.pure _)
  · cases pcm with
    | ok pcm => exact Traced.pure _
    | error message => exact Traced.pure _

/-- Every source of an analysis was recorded, with the text at its path. -/
theorem analyzePath_recorded [F32Primitives]
    (hlink : ∀ {path canonical}, files.canonicalize path = .ok canonical →
      files.readToString path = files.readToString canonical) (path : Path) :
    (analyzePath tools files path).2.Recorded files := by
  have hanalyze : Traced files [] (load tools files path >>= fun program =>
      LoadM.ofExcept (check program) : LoadM (Loader Path Token) Program) fun _ => True := by
    refine Traced.bind (q := fun _ => True) ?_ fun program _ => (Traced.ofExcept _).weaken
    unfold load
    refine Traced.bind (traced_visit tools hlink _ path none) fun _ _ => ?_
    refine Traced.bind Traced.get fun s _ => ?_
    refine Traced.bind (Traced.silent fun _ => rfl) fun _ _ => ?_
    refine Traced.bind (Traced.forList Traced.unwrap _) fun loaded _ => ?_
    refine Traced.bind (Traced.forList (traced_parseModule tools _) _) fun modules _ => ?_
    refine Traced.bind (Traced.ofExcept _) fun modules _ => ?_
    refine Traced.bind (Traced.unwrap _) fun handles _ => ?_
    refine Traced.bind (Traced.forList (fun module => ?_) _) fun modules _ => ?_
    · exact Traced.bind (Traced.forList (traced_loadSound tools _ _) _) fun _ _ => Traced.pure _
    · refine Traced.ite (Traced.fail _) ?_
      cases modules.map fun module => withSoundConstants module.1 with
      | nil => exact Traced.panicked
      | cons root programs => exact Traced.pure _
  exact (hanalyze start (by simp) (by simp [SourceMap.Recorded, start])).2.1

end Loader

end Speck
