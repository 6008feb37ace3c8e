import Speck.LoadedPrograms
import Speck.EarlyPhase
import Speck.Source
import Speck.WavAsset

/-!
# Sound handles

Every sound of a program has a number, by which a game plays it. The loader sorts the names of the
sounds of all modules and counts from 1, so a handle is the rank of a name among the others
(`lookup_soundHandles`), whatever the order of the files and of their declarations. The checker keeps
the constants that stand for the handles (`CheckedProgram.value_of_literal`).
-/

namespace Speck

/-! ## Ranks -/

/-- The names before a name. -/
def rank (names : List String) (name : String) : ℕ := (names.filter (· < name)).length

theorem rank_perm {names names' : List String} (h : names.Perm names') (name : String) :
    rank names name = rank names' name := (h.filter _).length_eq

/-- `sort`. -/
theorem sorted_mergeSort (names : List String) :
    (names.mergeSort fun a b => decide (a ≤ b)).Pairwise (· ≤ ·) := by
  have htotal : ∀ a b : String, (decide (a ≤ b) || decide (b ≤ a)) = true := by
    intro a b
    rw [Bool.or_eq_true, decide_eq_true_eq, decide_eq_true_eq]
    exact String.le_total a b
  have htrans : ∀ a b c : String, decide (a ≤ b) = true → decide (b ≤ c) = true →
      decide (a ≤ c) = true :=
    fun a b c hab hbc => decide_eq_true
      (String.le_trans (of_decide_eq_true hab) (of_decide_eq_true hbc))
  have hpairwise := List.pairwise_mergeSort htrans htotal names
  exact hpairwise.imp fun h => of_decide_eq_true h

/-- In a sorted list without duplicates, the rank of a name is its position. -/
theorem rank_getElem {names : List String} (hsorted : names.Pairwise (· ≤ ·)) (hnodup : names.Nodup)
    {index : ℕ} {name : String} (h : names[index]? = some name) : rank names name = index := by
  induction names generalizing index with
  | nil => cases h
  | cons first rest ih =>
    obtain ⟨hfirst, hrest⟩ := List.pairwise_cons.mp hsorted
    obtain ⟨hnot, hnodup⟩ := List.nodup_cons.mp hnodup
    cases index with
    | zero =>
      obtain rfl := Option.some.inj h
      rw [rank, List.length_eq_zero_iff, List.filter_eq_nil_iff]
      intro other hother
      rw [decide_eq_true_eq]
      rcases List.mem_cons.mp hother with rfl | hother
      · exact String.lt_irrefl _
      · exact hfirst other hother
    | succ index =>
      have hmem : name ∈ rest := List.mem_of_getElem? h
      have hlt : first < name := by
        by_contra hnot'
        obtain rfl := String.le_antisymm (hfirst name hmem) hnot'
        exact hnot hmem
      rw [rank, List.filter_cons_of_pos (p := fun other => decide (other < name))
        (decide_eq_true hlt), List.length_cons, ← rank, ih hrest hnodup h]

/-- The ranks of different names are the positions. -/
theorem ranks_perm {names : List String} (hnodup : names.Nodup) :
    (names.map (rank names)).Perm (List.range names.length) := by
  have hperm := List.mergeSort_perm names fun a b => decide (a ≤ b)
  have hsorted := sorted_mergeSort names
  set sorted := names.mergeSort fun a b => decide (a ≤ b) with hsort
  have hranks : sorted.map (rank names) = List.range names.length := by
    refine List.ext_getElem (by simp [hperm.length_eq]) fun index hindex hindex' => ?_
    rw [List.getElem_map, List.getElem_range, ← rank_perm hperm]
    exact rank_getElem hsorted (hperm.nodup_iff.mpr hnodup) (List.getElem?_eq_getElem _)
  exact hranks ▸ (hperm.map _).symm

/-- The handle of a name is its rank among the names, counted from 1. -/
theorem lookup_soundHandles {Path : Type} {modules : List (Module Path)} {handles : HashMap ℕ}
    (h : Loader.soundHandles modules = some handles) {names : List String}
    (hnames : modules.flatMap (fun module => module.program.sounds.map (·.name)) = names)
    (hnodup : names.Nodup) {name : String} {handle : ℕ} (hlookup : handles.lookup name = some handle) :
    handle = rank names name + 1 ∧ names.length < 2 ^ 31 := by
  unfold Loader.soundHandles at h
  dsimp only at h
  rw [hnames] at h
  split_ifs at h with hlt
  obtain rfl := Option.some.inj h
  have hperm := List.mergeSort_perm names fun a b => decide (a ≤ b)
  have hsorted := sorted_mergeSort names
  obtain ⟨⟨name', index⟩, hmem, heq⟩ := List.mem_map.mp (HashMap.mem_of_lookup_ofList hlookup)
  obtain ⟨rfl, rfl⟩ := Prod.mk.inj heq
  have hget := List.mem_zipIdx_iff_getElem?.mp hmem
  rw [← rank_perm hperm, rank_getElem hsorted (hperm.nodup_iff.mpr hnodup) hget]
  exact ⟨rfl, hlt⟩

/-! ## Checked programs -/

/-- A constant that is an integer literal has its value. -/
theorem CheckedProgram.value_of_literal [F32Primitives] (checked : CheckedProgram)
    {constant : Constant} (hconstant : constant ∈ checked.program.constants) {value : ℤ} {span : Span}
    (hinit : constant.init = .i32 value span) :
    constant.value = some (.i32 (BitVec.ofInt 32 value)) := by
  obtain ⟨v, hv, hlookup, -⟩ := checked.constants constant hconstant
  obtain ⟨t, ht, hyields⟩ := Demand.computes_iff.mp (checked.computes hlookup)
  rw [hv]
  have hnames := checked.names_nodup
  simp only [Program.names, List.nodup_append] at hnames
  have hdefinition : (constantDefinitions checked.program.constants).lookup constant.name =
      some ⟨constant.ty, constant.init, constant.span⟩ :=
    HashMap.lookup_ofList_of_mem (by rw [List.map_map]; exact hnames.1.1.2.1)
      (List.mem_map_of_mem (f := fun constant : Constant =>
        (constant.name, ConstantDefinition.mk constant.ty constant.init constant.span)) hconstant)
  have hfresh : (predefinedValues checked.program.resolution).lookup constant.name = none := by
    by_contra hsome
    obtain ⟨w, hw⟩ := Option.ne_none_iff_exists'.mp hsome
    obtain ⟨item, hitem, hname, -⟩ := lookup_predefinedValues hw
    exact notMem_predefined checked.names_fresh (constant_mem_names hconstant)
      (List.mem_map.mpr ⟨item, hitem, hname⟩)
  rw [Program.constantSystem, constantSystem, hfresh, hdefinition] at ht
  obtain rfl := Option.some.inj ht
  simp only [constantDemand, hinit, Expr.demand] at hyields
  split at hyields
  · cases hyields
  split at hyields
  · simp only [Demand.done_bind, Demand.restrict, validateConstantType] at hyields
    split at hyields
    · cases hyields
      rfl
    · cases hyields
  · cases hyields

/-- The checker keeps the names and the initializers of the constants. -/
theorem constants_eq {program program' : Program} {f : ValueType → ValueType}
    (h : program'.withoutValues = (program.mapTypes f).withoutValues) :
    program'.constants.map (fun constant => (constant.name, constant.init)) =
      program.constants.map fun constant => (constant.name, constant.init) := by
  have h' := congrArg (·.constants.map fun constant => (constant.name, constant.init)) h
  simp only [Program.withoutValues, Program.mapTypes, List.map_map] at h'
  exact h'

theorem CheckedProgram.constants_nodup [F32Primitives] (checked : CheckedProgram) :
    (checked.program.constants.map (·.name)).Nodup := by
  have hnames := checked.names_nodup
  simp only [Program.names, List.nodup_append] at hnames
  exact hnames.1.1.2.1

theorem CheckedProgram.lookup_constantValues [F32Primitives] (checked : CheckedProgram)
    {constant : Constant} (hconstant : constant ∈ checked.program.constants) {v : ConstantValue}
    (hv : constant.value = some v) :
    checked.program.constantValues.lookup constant.name = some v := by
  refine HashMap.lookup_extend_of_mem ?_ (List.mem_filterMap.mpr ⟨constant, hconstant, ?_⟩)
  · refine List.Sublist.nodup ?_ checked.constants_nodup
    induction checked.program.constants with
    | nil => exact .slnil
    | cons constant rest ih =>
      cases hvalue : constant.value with
      | none => simpa [hvalue] using ih.cons _
      | some v => simpa [hvalue] using ih
  · rw [hv]
    rfl

/-- The handles of the sounds of a program that the analysis accepts are 1 to their number. They
depend on the set of the names alone, and the name of a sound is a constant with its handle. -/
theorem sound_handles [F32Primitives] {Path : Type} [DecidableEq Path] {paths : PathTools Path}
    {files : Files Path} {path : Path} {program' : Program} {sources : SourceMap Path}
    (h : analyzeFiles paths files path = (.ok program', sources)) :
    (program'.sounds.map (·.name)).Nodup ∧
      (program'.sounds.map (·.handle.toInt)).Perm
        ((List.range program'.sounds.length).map fun index : ℕ => (index : ℤ) + 1) ∧
      ∀ sound ∈ program'.sounds,
        sound.handle.toInt = rank (program'.sounds.map (·.name)) sound.name + 1 ∧
        program'.constantValues.lookup sound.name = some (.i32 sound.handle) := by
  obtain ⟨parsed, program, hcheck, hwritten, hloaded⟩ := analyzeFiles_checks h
  obtain ⟨resolved, handles, -, hhandles, hnames, hconstants, hsounds⟩ := hloaded.sounds
  obtain ⟨checked, rfl, -, -, hsame⟩ := check_spec hwritten hcheck
  have hsame_sounds : checked.program.sounds = program.sounds := congrArg (·.sounds) hsame
  have hsame_constants := constants_eq hsame
  have hnodup : (program.sounds.map (·.name)).Nodup := by
    have hsublist := hconstants.map (·.name)
    have hmap := congrArg (List.map Prod.fst) hsame_constants
    rw [List.map_map, List.map_map] at hmap
    rw [List.map_map] at hsublist
    exact hsublist.nodup (hmap ▸ checked.constants_nodup)
  have hhandle : ∀ sound ∈ program.sounds,
      sound.handle.toInt = rank (program.sounds.map (·.name)) sound.name + 1 := by
    intro sound hsound
    obtain ⟨handle, hlookup, hhandle⟩ := hsounds sound hsound
    obtain ⟨hrank, hlength⟩ := lookup_soundHandles hhandles hnames.symm hnodup hlookup
    have hmem := (ranks_perm hnodup).subset (List.mem_map_of_mem (List.mem_map_of_mem hsound))
    rw [List.mem_range] at hmem
    have hlt : 2 * (BitVec.ofNat 32 handle).toNat < 2 ^ 32 := by
      rw [BitVec.toNat_ofNat, Nat.mod_eq_of_lt (by omega)]
      omega
    rw [hhandle, BitVec.toInt_eq_toNat_of_lt hlt, BitVec.toNat_ofNat, Nat.mod_eq_of_lt (by omega),
      hrank, Nat.cast_succ]
  rw [hsame_sounds]
  refine ⟨hnodup, ?_, fun sound hsound => ⟨hhandle sound hsound, ?_⟩⟩
  · have hperm := (ranks_perm hnodup).map fun index : ℕ => (index : ℤ) + 1
    rw [List.map_map, List.map_map, List.length_map] at hperm
    rw [List.map_congr_left hhandle]
    exact hperm
  · have hmem := List.mem_map_of_mem (f := fun constant : Constant => (constant.name, constant.init))
      (hconstants.subset (List.mem_map_of_mem hsound))
    rw [← hsame_constants] at hmem
    obtain ⟨constant, hconstant, heq⟩ := List.mem_map.mp hmem
    obtain ⟨hname, hinit⟩ := Prod.mk.inj heq
    have hvalue := checked.lookup_constantValues hconstant (checked.value_of_literal hconstant hinit)
    rw [hname] at hvalue
    rw [Loader.soundConstant] at hvalue
    rw [hvalue, BitVec.ofInt_natCast, BitVec.ofNat_toNat, BitVec.setWidth_eq]

/-- A file of one sample. -/
def Sample.tone : List UInt8 :=
  [82, 73, 70, 70, 38, 0, 0, 0, 87, 65, 86, 69, 102, 109, 116, 32, 16, 0, 0, 0, 1, 0, 1, 0,
    128, 187, 0, 0, 0, 119, 1, 0, 2, 0, 16, 0, 100, 97, 116, 97, 2, 0, 0, 0, 5, 6]

/-- A directory with a game and its sound. -/
def Sample.paths : PathTools String where
  extension path := if path = "g.spk" then some "spk" else none
  isAbsolute path := path = "/"
  parent _ := some ""
  join directory path := directory ++ path
  qualifier _ path := some path
  display path := path
  validate bytes := (validateWav bytes).mapError fun
    | .rejected message => message
    | .panicked => ""

def Sample.files : Files String where
  canonicalize path := .ok path
  readToString path := if path = "g.spk" then .ok (String.ofList Sample.text) else .error ""
  metadata _ := .ok ⟨true, 46⟩
  openFile path := if path = "a" then .ok (.ok ⟨true, 46⟩, .ok Sample.tone) else .error ""

def Sample.handles : Outcome Program → List I32
  | .ok program => program.sounds.map (·.handle)
  | _ => []

theorem Sample.files_handles :
    Sample.handles (@analyzeFiles softFloat String _ Sample.paths Sample.files "g.spk").1 = [1] := by
  decide +kernel

theorem Sample.files_accepted : ∃ program' sources,
    @analyzeFiles softFloat String _ Sample.paths Sample.files "g.spk" = (.ok program', sources) ∧
      program'.sounds.map (·.handle) = [1] := by
  have hhandles := Sample.files_handles
  cases hrun : @analyzeFiles softFloat String _ Sample.paths Sample.files "g.spk" with
  | mk outcome sources =>
    rw [hrun] at hhandles
    cases outcome with
    | ok program' => exact ⟨program', sources, rfl, hhandles⟩
    | _ => cases hhandles

theorem sound_handles_sample : ∃ program' sources,
    @analyzeFiles softFloat String _ Sample.paths Sample.files "g.spk" = (.ok program', sources) ∧
      program'.sounds.map (·.handle) = [1] ∧ (program'.sounds.map (·.name)).Nodup := by
  obtain ⟨program', sources, hrun, hhandles⟩ := Sample.files_accepted
  exact ⟨program', sources, hrun, hhandles, (@sound_handles softFloat _ _ _ _ _ _ _ hrun).1⟩

end Speck
