import Mathlib.Data.List.Flatten
import Speck.DeclaredNames
import Speck.FastPath
import Speck.LoadedFiles

/-!
# Loaded programs

What the loader hands to the checker. The resolver leaves the types of a program written
(`Resolver.written_program`), and the program of a run of the loader is the modules that were resolved,
one after another, each with the handles and the samples of its sounds and a constant for each sound
(`Loader.LoadedFrom`). So the programs that the analysis of files checks are written
(`analyzeFiles_checks`).
-/

set_option linter.unusedSectionVars false

namespace Speck

/-! ## Written types -/

abbrev AllWritten (types : List ValueType) : Prop := ∀ ty ∈ types, ty.isWritten = true

namespace Resolver

variable (r : Resolver)

theorem isWritten_length (length : ArrayLength) :
    (r.length length).value.isWritten = length.isWritten := by
  cases length <;> rfl

theorem isWritten_ty (span : Span) (ty : ValueType) :
    (r.ty span ty).value.isWritten = ty.isWritten := by
  induction ty with
  | array element length ih =>
    change ((r.length length).value.isWritten && (r.ty span element).value.isWritten) = _
    rw [isWritten_length, ih]
    rfl
  | _ => rfl

mutual

theorem written_statement (scopes : List HashSet) : (statement : Stmt) →
    AllWritten statement.types → AllWritten (r.statement scopes statement).value.types
  | .letVar name ty init span, h => by
    have hty : ty.isWritten = true := h ty (by simp [Stmt.types])
    refine List.forall_mem_singleton.mpr ?_
    rw [isWritten_ty, hty]
  | .ifElse condition thenBlock none span, h => by
    simp only [Stmt.types, List.append_nil] at h
    refine List.forall_mem_append.mpr ⟨written_statements ([] :: scopes) thenBlock h, ?_⟩
    exact nofun
  | .ifElse condition thenBlock (some elseBlock) span, h => by
    simp only [Stmt.types, List.forall_mem_append] at h
    exact List.forall_mem_append.mpr ⟨written_statements ([] :: scopes) thenBlock h.1,
      written_statements ([] :: scopes) elseBlock h.2⟩
  | .whileLoop condition body span, h => written_statements ([] :: scopes) body h
  | .forLoop name nameSpan lower upper body span, h => written_statements ([name] :: scopes) body h
  | .assign .., _ | .expr .., _ | .ret (some _) _, _ | .ret none _, _ => nofun

theorem written_statements (scopes : List HashSet) : (block : List Stmt) →
    AllWritten (blockTypes block) → AllWritten (blockTypes (r.statements scopes block).value)
  | [], _ => nofun
  | statement :: rest, h => by
    simp only [blockTypes, List.forall_mem_append] at h
    exact List.forall_mem_append.mpr ⟨written_statement scopes statement h.1,
      written_statements (declare scopes statement) rest h.2⟩

end

theorem mem_mapEach {α β : Type} {f : α → Logged β} {as : List α} {b : β}
    (h : b ∈ (mapEach f as).value) : ∃ a ∈ as, (f a).value = b := by
  induction as with
  | nil => cases h
  | cons a as ih =>
    rcases List.mem_cons.mp h with rfl | h
    · exact ⟨a, List.mem_cons_self, rfl⟩
    · obtain ⟨a', ha', heq⟩ := ih h
      exact ⟨a', List.mem_cons_of_mem _ ha', heq⟩

theorem written_struct {declaration : StructDecl} (h : AllWritten declaration.types) :
    AllWritten (r.struct declaration).value.types := by
  intro ty hty
  obtain ⟨field', hfield', rfl⟩ := List.mem_map.mp hty
  obtain ⟨field, hfield, rfl⟩ := mem_mapEach hfield'
  exact (r.isWritten_ty field.span field.ty).trans (h _ (List.mem_map_of_mem hfield))

theorem written_function {function : Function} (h : AllWritten function.types) :
    AllWritten (r.function function).value.types := by
  simp only [Function.types, AllWritten, List.forall_mem_append] at h ⊢
  obtain ⟨⟨hparams, hreturn⟩, hbody⟩ := h
  refine ⟨⟨fun ty hty => ?_, ?_⟩, r.written_statements _ _ hbody⟩
  · obtain ⟨param', hparam', rfl⟩ := List.mem_map.mp hty
    obtain ⟨param, hparam, rfl⟩ := mem_mapEach hparam'
    exact (r.isWritten_ty param.span param.ty).trans (hparams _ (List.mem_map_of_mem hparam))
  · change ∀ ty ∈ (r.returnType function.span function.returnType).value.types, _
    cases hty : function.returnType with
    | void => exact fun ty hmem => absurd hmem List.not_mem_nil
    | value ty =>
      rw [hty] at hreturn
      refine List.forall_mem_singleton.mpr ?_
      exact (r.isWritten_ty function.span ty).trans (hreturn ty (List.mem_singleton_self ty))

/-- The resolver replaces names only, so a type stays as it was written. -/
theorem written_program {program : Program} (h : program.IsWritten) :
    (r.program program).value.IsWritten := by
  simp only [Program.IsWritten, Program.types, List.forall_mem_append, List.forall_mem_flatMap] at h ⊢
  obtain ⟨⟨⟨hstructs, hconstants⟩, hglobals⟩, hfunctions⟩ := h
  refine ⟨⟨⟨fun declaration' hmem => ?_, fun ty hty => ?_⟩, fun ty hty => ?_⟩,
    fun function' hmem => ?_⟩
  · obtain ⟨declaration, hdeclaration, rfl⟩ := mem_mapEach hmem
    exact r.written_struct (hstructs declaration hdeclaration)
  · obtain ⟨constant', hconstant', rfl⟩ := List.mem_map.mp hty
    obtain ⟨constant, hconstant, rfl⟩ := mem_mapEach hconstant'
    exact (r.isWritten_ty constant.span constant.ty).trans
      (hconstants _ (List.mem_map_of_mem hconstant))
  · obtain ⟨global', hglobal', rfl⟩ := List.mem_map.mp hty
    obtain ⟨global, hglobal, rfl⟩ := mem_mapEach hglobal'
    exact (r.isWritten_ty global.span global.ty).trans (hglobals _ (List.mem_map_of_mem hglobal))
  · obtain ⟨function, hfunction, rfl⟩ := mem_mapEach hmem
    exact r.written_function (hfunctions function hfunction)

end Resolver

/-- The modules that the resolver returns are as written as the ones it got. -/
theorem resolve_written {Path : Type} {modules resolved : List (Module Path)}
    (h : resolve modules = .ok resolved) (hwritten : ∀ module ∈ modules, module.program.IsWritten) :
    ∀ module ∈ resolved, module.program.IsWritten := by
  unfold resolve at h
  dsimp only at h
  split_ifs at h
  · obtain rfl := Except.ok.inj h
    exact hwritten
  · obtain rfl := Except.ok.inj h
    intro module hmodule
    obtain ⟨⟨module', index⟩, hmem, rfl⟩ := Resolver.mem_mapEach hmodule
    exact (Resolver.mk _ index).written_program (hwritten _ (List.fst_mem_of_mem_zipIdx hmem))

/-! ## The modules of a program -/

namespace Loader

open LoadM

variable {Path Token : Type} [DecidableEq Path]

theorem forList_eq_ok {State α β : Type} {f : α → LoadM State β} {as : List α} {bs : List β}
    {s t : State} (h : forList f as s = (.ok bs, t)) :
    List.Forall₂ (fun a b => ∃ s t, f a s = (.ok b, t)) as bs := by
  induction as generalizing bs s t with
  | nil =>
    obtain ⟨h, -⟩ := Prod.mk.inj h
    obtain rfl := Outcome.ok.inj h
    exact .nil
  | cons a as ih =>
    obtain ⟨b, s', hb, h⟩ := bind_eq_ok h
    obtain ⟨bs', s'', hbs, h⟩ := bind_eq_ok h
    obtain ⟨h, -⟩ := Prod.mk.inj h
    obtain rfl := Outcome.ok.inj h
    exact .cons ⟨s, s', hb⟩ (ih hbs)

/-- What a loop makes is made of something. -/
theorem exists_of_mem_right {α β : Type} {R : α → β → Prop} {as : List α} {bs : List β}
    (h : List.Forall₂ R as bs) {b : β} (hb : b ∈ bs) : ∃ a ∈ as, R a b := by
  induction h with
  | nil => cases hb
  | cons hab _ ih =>
    rcases List.mem_cons.mp hb with rfl | hb
    · exact ⟨_, List.mem_cons_self, hab⟩
    · obtain ⟨a, ha, hR⟩ := ih hb
      exact ⟨a, List.mem_cons_of_mem _ ha, hR⟩

theorem unwrap_eq_ok {State α : Type} {value : Option α} {a : α} {s t : State}
    (h : unwrap value s = (.ok a, t)) : value = some a := by
  cases value with
  | none => cases h
  | some b =>
    obtain ⟨h, -⟩ := Prod.mk.inj h
    rw [Outcome.ok.inj h]

theorem ofExcept_eq_ok {State α : Type} {result : Except (List Diagnostic) α} {a : α} {s t : State}
    (h : ofExcept result s = (.ok a, t)) : result = .ok a := by
  cases result with
  | error => cases h
  | ok b =>
    obtain ⟨h, -⟩ := Prod.mk.inj h
    rw [Outcome.ok.inj h]

/-- A sound that was loaded : the declared one with its handle, and perhaps its samples. -/
structure SoundFrom (handles : HashMap ℕ) (sound sound' : SoundAsset) : Prop where
  name : sound'.name = sound.name
  handle : ∃ handle, handles.lookup sound.name = some handle ∧ sound'.handle = BitVec.ofNat 32 handle

/-- A module behind the loading of its sounds. -/
def SoundsFrom (handles : HashMap ℕ) (module : Module Path) (program : Program) : Prop :=
  ∃ sounds, program = { module.program with sounds := sounds } ∧
    List.Forall₂ (SoundFrom handles) module.program.sounds sounds

/-- The program of a run : the resolved modules, with the handles of their sounds. -/
structure LoadedFrom (resolve : List (Module Path) → Except (List Diagnostic) (List (Module Path)))
    (parsed : List (Module Path)) (program : Program) : Prop where
  modules : ∃ resolved handles programs root rest, resolve parsed = .ok resolved ∧
    soundHandles resolved = some handles ∧
    List.Forall₂ (SoundsFrom handles) resolved programs ∧
    programs.map withSoundConstants = root :: rest ∧ program = joinModules root rest

variable {tools : Tools Path Token} {files : Files Path}

theorem loadSound_eq_ok {handles : HashMap ℕ} {directory : Path} {sound : SoundAsset}
    {result : SoundAsset × List Diagnostic} {s t : Loader Path Token}
    (h : loadSound tools files handles directory sound s = (.ok result, t)) :
    SoundFrom handles sound result.1 := by
  obtain ⟨handle, s', hhandle, h⟩ := bind_eq_ok h
  have hlookup := unwrap_eq_ok hhandle
  dsimp only at h
  split at h
  · obtain ⟨h, -⟩ := Prod.mk.inj h
    obtain rfl := Outcome.ok.inj h
    exact ⟨rfl, handle, hlookup, rfl⟩
  · obtain ⟨pcm, s'', -, h⟩ := bind_eq_ok h
    split at h
    · obtain ⟨h, -⟩ := Prod.mk.inj h
      obtain rfl := Outcome.ok.inj h
      exact ⟨rfl, handle, hlookup, rfl⟩
    · obtain ⟨h, -⟩ := Prod.mk.inj h
      obtain rfl := Outcome.ok.inj h
      exact ⟨rfl, handle, hlookup, rfl⟩

theorem loadSounds_eq_ok {handles : HashMap ℕ} {module : Module Path}
    {result : Program × List Diagnostic} {s t : Loader Path Token}
    (h : loadSounds tools files handles module s = (.ok result, t)) :
    SoundsFrom handles module result.1 := by
  obtain ⟨sounds, s', hsounds, h⟩ := bind_eq_ok h
  obtain ⟨h, -⟩ := Prod.mk.inj h
  obtain rfl := Outcome.ok.inj h
  refine ⟨sounds.map (·.1), rfl, List.forall₂_map_right_iff.mpr ?_⟩
  refine (forList_eq_ok hsounds).imp fun sound result hresult => ?_
  obtain ⟨s, t, hresult⟩ := hresult
  exact loadSound_eq_ok hresult

/-- The parsed modules of a run, each from the tokens of a file that the loader has finished. -/
theorem load_eq_ok {path : Path} {program : Program} {s t : Loader Path Token}
    (h : load tools files path s = (.ok program, t)) :
    ∃ (index : ℕ) (s' : Loader Path Token) (parsed : List (Module Path)),
      visit tools files (maxImportDepth + 1) path none s = (.ok index, s') ∧
      (∀ module ∈ parsed, ∃ file, some file ∈ s'.modules ∧ ∃ isRoot imported,
        tools.parseFile file.tokens isRoot imported = .ok module.program) ∧
      LoadedFrom tools.resolve parsed program := by
  obtain ⟨index, s₁, hvisit, h⟩ := bind_eq_ok h
  obtain ⟨s', s₂, hget, h⟩ := bind_eq_ok h
  obtain ⟨hs', hs₂⟩ := Prod.mk.inj hget
  obtain rfl := Outcome.ok.inj hs'
  subst hs₂
  obtain ⟨_, s₃, -, h⟩ := bind_eq_ok h
  obtain ⟨loaded, s₄, hloaded, h⟩ := bind_eq_ok h
  obtain ⟨parsed, s₅, hparsed, h⟩ := bind_eq_ok h
  obtain ⟨resolved, s₆, hresolved, h⟩ := bind_eq_ok h
  obtain ⟨handles, s₇, hhandles, h⟩ := bind_eq_ok h
  obtain ⟨results, s₈, hresults, h⟩ := bind_eq_ok h
  dsimp only at h
  split_ifs at h
  · cases h
  cases hprograms : results.map fun result => withSoundConstants result.1 with
  | nil =>
    rw [hprograms] at h
    cases h
  | cons root rest =>
  rw [hprograms] at h
  obtain ⟨h, -⟩ := Prod.mk.inj h
  obtain rfl := Outcome.ok.inj h
  refine ⟨index, s₁, parsed, hvisit, fun module hmodule => ?_, ⟨resolved, handles,
    results.map (·.1), root, rest, ofExcept_eq_ok hresolved, unwrap_eq_ok hhandles, ?_, ?_, rfl⟩⟩
  · obtain ⟨⟨file, position⟩, hfile, s, t, hrun⟩ := exists_of_mem_right (forList_eq_ok hparsed) hmodule
    obtain ⟨file', hfile', s', t', hunwrap⟩ := exists_of_mem_right (forList_eq_ok hloaded)
      (List.fst_mem_of_mem_zipIdx hfile)
    obtain rfl := unwrap_eq_ok hunwrap
    obtain ⟨imported, s'', -, hrun⟩ := bind_eq_ok hrun
    obtain ⟨program, s₉, hprogram, hrun⟩ := bind_eq_ok hrun
    obtain ⟨hrun, -⟩ := Prod.mk.inj hrun
    obtain rfl := Outcome.ok.inj hrun
    exact ⟨file, hfile', _, _, ofExcept_eq_ok hprogram⟩
  · refine List.forall₂_map_right_iff.mpr ((forList_eq_ok hresults).imp fun module result hresult => ?_)
    obtain ⟨s, t, hresult⟩ := hresult
    exact loadSounds_eq_ok hresult
  · rw [List.map_map]
    exact hprograms

/-! ## Joined modules -/

/-- What the declarations of two modules have together, the joined ones have. -/
def Joins {α : Type} (f : Program → List α) : Prop := ∀ root program : Program,
  f { root with
    structs := root.structs ++ program.structs
    sounds := root.sounds ++ program.sounds
    constants := root.constants ++ program.constants
    globals := root.globals ++ program.globals
    functions := root.functions ++ program.functions } = f root ++ f program

/-- What is joined of the modules comes in their order. -/
theorem Joins.joinModules_eq {α : Type} {f : Program → List α} (hf : Joins f) (root : Program)
    (programs : List Program) : f (joinModules root programs) = (root :: programs).flatMap f := by
  unfold joinModules
  induction programs generalizing root with
  | nil => exact (List.append_nil _).symm
  | cons program programs ih =>
    rw [List.foldl_cons, ih, List.flatMap_cons, hf, List.flatMap_cons, List.flatMap_cons,
      List.append_assoc]

theorem joinModules_written {root : Program} {programs : List Program}
    (h : ∀ program ∈ root :: programs, program.IsWritten) : (joinModules root programs).IsWritten := by
  have hjoin {f : Program → List ValueType} (hf : Joins f)
      (hprograms : ∀ program ∈ root :: programs, AllWritten (f program)) :
      AllWritten (f (joinModules root programs)) := by
    rw [hf.joinModules_eq]
    exact List.forall_mem_flatMap.mpr hprograms
  simp only [Program.IsWritten, Program.types, List.forall_mem_append] at h ⊢
  refine ⟨⟨⟨?_, ?_⟩, ?_⟩, ?_⟩
  · exact hjoin (f := fun program => program.structs.flatMap (·.types)) (fun _ _ => by simp)
      fun program hmem => (h program hmem).1.1.1
  · exact hjoin (f := fun program => program.constants.map (·.ty)) (fun _ _ => by simp)
      fun program hmem => (h program hmem).1.1.2
  · exact hjoin (f := fun program => program.globals.map (·.ty)) (fun _ _ => by simp)
      fun program hmem => (h program hmem).1.2
  · exact hjoin (f := fun program => program.functions.flatMap (·.types)) (fun _ _ => by simp)
      fun program hmem => (h program hmem).2

theorem withSoundConstants_written {program : Program} (h : program.IsWritten) :
    (withSoundConstants program).IsWritten := by
  simp only [Program.IsWritten, Program.types, withSoundConstants, List.map_append,
    List.forall_mem_append] at h ⊢
  obtain ⟨⟨⟨hstructs, hconstants⟩, hglobals⟩, hfunctions⟩ := h
  refine ⟨⟨⟨hstructs, hconstants, fun ty hty => ?_⟩, hglobals⟩, hfunctions⟩
  rw [List.map_map] at hty
  obtain ⟨sound, -, rfl⟩ := List.mem_map.mp hty
  rfl

/-- The loading of sounds keeps their names. -/
theorem SoundsFrom.names_eq {handles : HashMap ℕ} {modules : List (Module Path)}
    {programs : List Program} (h : List.Forall₂ (SoundsFrom handles) modules programs) :
    modules.flatMap (fun module => module.program.sounds.map (·.name)) =
      programs.flatMap (fun program => (withSoundConstants program).sounds.map (·.name)) := by
  induction h with
  | nil => rfl
  | cons hmodule _ ih =>
    obtain ⟨sounds, rfl, hsounds⟩ := hmodule
    rw [List.flatMap_cons, List.flatMap_cons, ih]
    refine congrArg (· ++ _) ?_
    refine List.forall₂_eq_eq_eq ▸ List.forall₂_map_left_iff.mpr (List.forall₂_map_right_iff.mpr ?_)
    exact hsounds.imp fun _ _ h => h.name.symm

namespace LoadedFrom

variable {resolve : List (Module Path) → Except (List Diagnostic) (List (Module Path))}
  {parsed : List (Module Path)} {program : Program}

theorem written (h : LoadedFrom resolve parsed program)
    (hresolve : ∀ resolved, resolve parsed = .ok resolved →
      ∀ module ∈ resolved, module.program.IsWritten) : program.IsWritten := by
  obtain ⟨resolved, handles, programs, root, rest, hresolved, -, hprograms, hmap, rfl⟩ := h.modules
  refine joinModules_written fun program hmem => ?_
  rw [← hmap] at hmem
  obtain ⟨loaded, hloaded, rfl⟩ := List.mem_map.mp hmem
  obtain ⟨module, hmodule, sounds, rfl, -⟩ := exists_of_mem_right hprograms hloaded
  have hmodule' := hresolve resolved hresolved module hmodule
  exact withSoundConstants_written hmodule'

/-- The sounds of the program have the handles of their names, and stand for constants. -/
theorem sounds (h : LoadedFrom resolve parsed program) :
    ∃ resolved handles, resolve parsed = .ok resolved ∧ soundHandles resolved = some handles ∧
      program.sounds.map (·.name) =
        resolved.flatMap (fun module => module.program.sounds.map (·.name)) ∧
      (program.sounds.map soundConstant).Sublist program.constants ∧
      ∀ sound ∈ program.sounds, ∃ handle, handles.lookup sound.name = some handle ∧
        sound.handle = BitVec.ofNat 32 handle := by
  obtain ⟨resolved, handles, programs, root, rest, hresolved, hhandles, hprograms, hmap, rfl⟩ :=
    h.modules
  have hsounds := Joins.joinModules_eq (f := (·.sounds)) (fun _ _ => rfl) root rest
  have hconstants := Joins.joinModules_eq (f := (·.constants)) (fun _ _ => rfl) root rest
  rw [← hmap, List.flatMap_map] at hsounds hconstants
  refine ⟨resolved, handles, hresolved, hhandles, ?_, ?_, fun sound hsound => ?_⟩
  · rw [hsounds, List.map_flatMap]
    exact (SoundsFrom.names_eq hprograms).symm
  · rw [hsounds, hconstants, List.map_flatMap]
    exact List.Sublist.flatMap_right _ fun loaded _ => List.sublist_append_right _ _
  · rw [hsounds] at hsound
    obtain ⟨loaded, hloaded, hsound⟩ := List.mem_flatMap.mp hsound
    obtain ⟨module, -, sounds, rfl, hfrom⟩ := exists_of_mem_right hprograms hloaded
    obtain ⟨declared, -, hname, handle, hlookup, hhandle⟩ := exists_of_mem_right hfrom hsound
    exact ⟨handle, hname ▸ hlookup, hhandle⟩

end LoadedFrom

end Loader

/-! ## The analysis of files -/

/-- What `analyze_path` accepts is a checked program of loaded modules, whose types are written. -/
theorem analyzeFiles_checks [F32Primitives] {Path : Type} [DecidableEq Path] {paths : PathTools Path}
    {files : Files Path} {path : Path} {program' : Program} {sources : SourceMap Path}
    (h : analyzeFiles paths files path = (.ok program', sources)) :
    ∃ (parsed : List (Module Path)) (program : Program), check program = .ok program' ∧ program.IsWritten ∧
      Loader.LoadedFrom resolve parsed program := by
  obtain ⟨h, -⟩ := Prod.mk.inj h
  have hrun : ∃ s, (Loader.load paths.tools files path >>= fun program =>
      LoadM.ofExcept (check program)) Loader.start = (.ok program', s) := ⟨_, Prod.ext h rfl⟩
  obtain ⟨s, hrun⟩ := hrun
  obtain ⟨program, s', hload, hcheck⟩ := LoadM.bind_eq_ok hrun
  obtain ⟨index, s'', parsed, hvisit, hparsed, hloaded⟩ := Loader.load_eq_ok hload
  refine ⟨parsed, program, Loader.ofExcept_eq_ok hcheck, hloaded.written fun resolved hresolved =>
    resolve_written hresolved fun module hmodule => ?_, hloaded⟩
  obtain ⟨file, hfile, isRoot, imported, hparse⟩ := hparsed module hmodule
  have hkept := (Loader.visit_ends (maxImportDepth + 1) path none Loader.start nofun
    (.inr ⟨rfl, rfl⟩)).of_run hvisit
  obtain ⟨⟨id, text, htext, htokens⟩, -, -⟩ := hkept.1 file hfile
  exact parseFile_written htokens.oneFile htokens.ends hparse

end Speck
