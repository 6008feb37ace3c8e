import Speck.ConstantTyping
import Speck.Sema

/-!
# Checked programs

`CheckedProgram` is a program with everything that the later stages rely on : names are
unique, types are well formed, every constant and every global has a value of its type, and
every function is typed. `check_spec` says that `check` accepts only checked programs.
-/

namespace Speck

open Logged

/-! ## Tables -/

namespace Program

variable (program : Program)

/-- The functions that a program can call. -/
def namedFunctions : List Function := program.functions.filter (·.kind = .named)

/-- The names declared at top level. -/
def names : List String :=
  program.structs.map (·.name) ++ program.constants.map (·.name) ++
    program.globals.map (·.name) ++ program.namedFunctions.map (·.name)

def globalTypes : HashMap ValueType :=
  .ofList (program.globals.map fun global => (global.name, global.ty))

/-- The predefined and the declared constants. -/
def constantTypes : HashMap ValueType :=
  (HashMap.ofList ((Builtins.constants program.resolution).map
    fun constant => (constant.name, constant.value.ty))).extend
      (program.constants.map fun constant => (constant.name, constant.ty))

/-- The builtin and the declared functions. -/
def signatures : HashMap Signature :=
  builtinSignatures.extend
    (program.namedFunctions.map fun function => (function.name, function.signature))

/-- The checker of the functions of the program. -/
def checker (values : HashMap ConstantValue) : FunctionChecker :=
  ⟨program.globalTypes, program.constantTypes, values, structTable program.structs,
    program.signatures, .void⟩

end Program

/-! ## Declarations -/

theorem checkFieldNames_clean {structName : String} {seen : HashSet} {fields : List StructField}
    (h : (checkFieldNames structName seen fields).Clean) :
    (fields.map (·.name)).Nodup ∧ ∀ field ∈ fields, field.name ∉ seen := by
  induction fields generalizing seen with
  | nil => exact ⟨List.nodup_nil, by simp⟩
  | cons field rest ih =>
    simp only [checkFieldNames, clean_bind, clean_errorIf, decide_eq_false_iff_not] at h
    obtain ⟨hnodup, hfresh⟩ := ih h.2
    refine ⟨List.nodup_cons.mpr ⟨fun hmem => ?_, hnodup⟩,
      List.forall_mem_cons.mpr ⟨h.1, fun f hf hmem => hfresh f hf (List.mem_cons_of_mem _ hmem)⟩⟩
    obtain ⟨f, hf, heq⟩ := List.mem_map.mp hmem
    exact hfresh f hf (heq ▸ List.mem_cons_self)

/-- A pass declares names that are new and distinct. -/
structure DeclaresNames (names : HashMap String) (kind : String) (declared : List String)
    (names' : HashMap String) : Prop where
  nodup : declared.Nodup
  fresh : ∀ name ∈ declared, name ∉ names
  lookup : ∀ name, names'.lookup name = if name ∈ declared then some kind else names.lookup name

theorem DeclaresNames.nil (names : HashMap String) (kind : String) :
    DeclaresNames names kind [] names :=
  ⟨List.nodup_nil, by simp, by simp⟩

theorem DeclaresNames.cons {names names' : HashMap String} {kind name : String}
    {declared : List String} (hnew : name ∉ names)
    (h : DeclaresNames (names.insert name kind) kind declared names') :
    DeclaresNames names kind (name :: declared) names' where
  nodup := List.nodup_cons.mpr
    ⟨fun hmem => h.fresh name hmem ((AList.mem_insert _).mpr (.inl rfl)), h.nodup⟩
  fresh := List.forall_mem_cons.mpr
    ⟨hnew, fun n hn hmem => h.fresh n hn ((AList.mem_insert _).mpr (.inr hmem))⟩
  lookup n := by
    rw [h.lookup]
    simp only [List.mem_cons]
    by_cases hmem : n ∈ declared
    · simp [hmem]
    · by_cases hn : n = name
      · subst hn
        simp [AList.lookup_insert]
      · simp [hmem, hn, AList.lookup_insert_ne hn]

theorem DeclaresNames.mem_iff {names names' : HashMap String} {kind : String}
    {declared : List String} (h : DeclaresNames names kind declared names') {name : String} :
    name ∈ names' ↔ name ∈ declared ∨ name ∈ names := by
  rw [← AList.lookup_isSome, h.lookup, ← AList.lookup_isSome]
  by_cases hmem : name ∈ declared <;> simp [hmem]

theorem declareStructs_clean {structs : HashMap StructDecl} {names : HashMap String}
    {declarations : List StructDecl} (h : (declareStructs structs names declarations).Clean) :
    (declareStructs structs names declarations).value.1 =
        structs.extend (declarations.map fun declaration => (declaration.name, declaration)) ∧
      DeclaresNames names "struct" (declarations.map (·.name))
        (declareStructs structs names declarations).value.2 ∧
      ∀ declaration ∈ declarations, (declaration.fields.map (·.name)).Nodup := by
  induction declarations generalizing structs names with
  | nil => exact ⟨rfl, .nil _ _, by simp⟩
  | cons declaration rest ih =>
    simp only [declareStructs, clean_bind, clean_errorIf, decide_eq_false_iff_not, bind_value] at h ⊢
    obtain ⟨hduplicate, hnew, hfields, hrest⟩ := h
    simp only [hduplicate, decide_false, Bool.not_false, Bool.true_and, decide_eq_false_iff_not,
      Bool.false_eq_true, if_false] at hnew hrest ⊢
    obtain ⟨hvalue, hnames, hnodup⟩ := ih hrest
    exact ⟨hvalue, hnames.cons hnew,
      List.forall_mem_cons.mpr ⟨(checkFieldNames_clean hfields).1, hnodup⟩⟩

theorem declareConstants_clean {types : HashMap ValueType} {names : HashMap String}
    {constants : List Constant} (h : (declareConstants types names constants).Clean) :
    (declareConstants types names constants).value.1 =
        types.extend (constants.map fun constant => (constant.name, constant.ty)) ∧
      DeclaresNames names "constant" (constants.map (·.name))
        (declareConstants types names constants).value.2 := by
  induction constants generalizing types names with
  | nil => exact ⟨rfl, .nil _ _⟩
  | cons constant rest ih =>
    rw [declareConstants] at h ⊢
    by_cases hpredefined : Builtins.isPredefinedConstant constant.name = true
    · simp [hpredefined] at h
    · rw [if_neg hpredefined] at h ⊢
      simp only [clean_bind, clean_errorIf, decide_eq_false_iff_not, bind_value] at h ⊢
      obtain ⟨-, hnew, hrest⟩ := h
      obtain ⟨hvalue, hnames⟩ := ih hrest
      exact ⟨hvalue, hnames.cons hnew⟩

theorem declareGlobals_clean {types : HashMap ValueType} {names : HashMap String}
    {globals : List Global} (h : (declareGlobals types names globals).Clean) :
    (declareGlobals types names globals).value.1 =
        types.extend (globals.map fun global => (global.name, global.ty)) ∧
      DeclaresNames names "global variable" (globals.map (·.name))
        (declareGlobals types names globals).value.2 := by
  induction globals generalizing types names with
  | nil => exact ⟨rfl, .nil _ _⟩
  | cons global rest ih =>
    simp only [declareGlobals, clean_bind, clean_errorIf, decide_eq_false_iff_not, bind_value] at h ⊢
    obtain ⟨-, hnew, hrest⟩ := h
    obtain ⟨hvalue, hnames⟩ := ih hrest
    exact ⟨hvalue, hnames.cons hnew⟩

/-- Named functions are new among the functions, and among the names of anything else. -/
theorem declareFunctions_clean {functions : HashMap Signature} {names : HashMap String}
    {declared : List Function} (h : (declareFunctions functions names declared).Clean) :
    (declareFunctions functions names declared).value.1 =
        functions.extend ((declared.filter (·.kind = .named)).map
          fun function => (function.name, function.signature)) ∧
      ((declared.filter (·.kind = .named)).map (·.name)).Nodup ∧
      ∀ function ∈ declared.filter (·.kind = .named), function.name ∉ functions ∧
        ∀ kind, names.lookup function.name = some kind → kind = "function" := by
  induction declared generalizing functions names with
  | nil => exact ⟨rfl, List.nodup_nil, by simp⟩
  | cons function rest ih =>
    rw [declareFunctions] at h ⊢
    by_cases hkind : function.kind = .named
    · rw [if_pos hkind] at h ⊢
      simp only [clean_bind, clean_errorIf, decide_eq_false_iff_not, bind_value] at h ⊢
      obtain ⟨hnew, hname, hrest⟩ := h
      obtain ⟨hvalue, hnodup, hfresh⟩ := ih hrest
      rw [List.filter_cons_of_pos (by simpa using hkind)]
      refine ⟨hvalue, List.nodup_cons.mpr ⟨fun hmem => ?_, hnodup⟩,
        List.forall_mem_cons.mpr ⟨⟨hnew, fun kind hk => ?_⟩, fun f hf => ?_⟩⟩
      · obtain ⟨f, hf, heq⟩ := List.mem_map.mp hmem
        exact (hfresh f hf).1 ((AList.mem_insert _).mpr (.inl heq))
      · simpa [hk] using hname
      · obtain ⟨hf1, hf2⟩ := hfresh f hf
        have hne : f.name ≠ function.name := fun heq => hf1 ((AList.mem_insert _).mpr (.inl heq))
        refine ⟨fun hmem => hf1 ((AList.mem_insert _).mpr (.inr hmem)), fun kind hk => hf2 kind ?_⟩
        rw [AList.lookup_insert_ne hne, hk]
    · rw [if_neg hkind] at h ⊢
      rw [List.filter_cons_of_neg (by simpa using hkind)]
      exact ih h

theorem lookup_predefinedNames (resolution : Resolution) (name : String) :
    (predefinedNames resolution).lookup name =
      if name ∈ (Builtins.constants resolution).map (·.name) then some "predefined constant"
      else if name ∈ Builtins.functions.map (·.name) then some "function" else none := by
  rw [predefinedNames, HashMap.lookup_extend_const, HashMap.ofList, HashMap.lookup_extend_const]
  rfl

theorem mem_builtinSignatures {name : String} :
    name ∈ builtinSignatures ↔ name ∈ Builtins.functions.map (·.name) := by
  rw [builtinSignatures, HashMap.mem_ofList, List.map_map]
  rfl

/-! ## Declared types -/

/-- Every length is resolved, between 1 and `i32::MAX`. -/
def ValueType.IsResolved : ValueType → Prop
  | .array element (.resolved length) => element.IsResolved ∧ 1 ≤ length ∧ length ≤ 2147483647
  | .array _ _ => False
  | _ => True

theorem ValueType.isResolved_of_resolveIn {values : String → Option ConstantValue} {ty ty' : ValueType}
    (h : ty.resolveIn values = some ty') : ty'.IsResolved := by
  induction ty generalizing ty' with
  | array element length ih =>
    rw [ValueType.resolveIn] at h
    split at h
    · next element' length' helement hlength =>
      cases h
      refine ⟨ih helement, ?_⟩
      unfold ArrayLength.resolveIn at hlength
      split at hlength
      · split at hlength
        · cases hlength
          omega
        · cases hlength
      · cases hlength
    · cases h
  | _ =>
    cases h
    trivial

theorem forEach_clean {α : Type} {f : α → Logged Unit} {as : List α} :
    (forEach f as).Clean ↔ ∀ a ∈ as, (f a).Clean := by
  induction as with
  | nil => simp [forEach]
  | cons a as ih => simp [forEach, ih]

theorem ValueType.IsResolved.wellFormed {structs : HashMap StructDecl} {span : Span} {ty : ValueType}
    (h : ty.IsResolved) (hclean : (validateKnownType structs span ty).Clean) :
    ty.WellFormed structs := by
  induction ty with
  | array element length ih =>
    cases length with
    | resolved length => exact ⟨ih h.1 hclean, h.2⟩
    | _ => exact h.elim
  | struct name => simpa [validateKnownType, ValueType.WellFormed] using hclean
  | _ => trivial

mutual

theorem validateStmtTypes_clean {structs : HashMap StructDecl} :
    (statement : Stmt) → (validateStmtTypes structs statement).Clean →
      ∀ ty ∈ statement.types, ∃ span, (validateKnownType structs span ty).Clean
  | .letVar _ ty _ span, h => by
    simp only [Stmt.types, List.mem_singleton, forall_eq]
    exact ⟨span, h⟩
  | .ifElse _ thenBlock none _, h => by
    simp only [validateStmtTypes, clean_bind] at h
    simp only [Stmt.types, List.append_nil]
    exact validateBlockTypes_clean thenBlock h.1
  | .ifElse _ thenBlock (some elseBlock) _, h => by
    simp only [validateStmtTypes, clean_bind] at h
    simp only [Stmt.types, List.forall_mem_append]
    exact ⟨validateBlockTypes_clean thenBlock h.1, validateBlockTypes_clean elseBlock h.2⟩
  | .whileLoop _ body _, h => validateBlockTypes_clean body h
  | .forLoop _ _ _ _ body _, h => validateBlockTypes_clean body h
  | .assign .., _ | .expr .., _ | .ret .., _ => by simp [Stmt.types]

theorem validateBlockTypes_clean {structs : HashMap StructDecl} :
    (block : List Stmt) → (validateBlockTypes structs block).Clean →
      ∀ ty ∈ blockTypes block, ∃ span, (validateKnownType structs span ty).Clean
  | [], _ => by simp [blockTypes]
  | statement :: rest, h => by
    simp only [validateBlockTypes, clean_bind] at h
    simp only [blockTypes, List.forall_mem_append]
    exact ⟨validateStmtTypes_clean statement h.1, validateBlockTypes_clean rest h.2⟩

end

theorem validateFunctionTypes_clean {structs : HashMap StructDecl} {function : Function}
    (h : (validateFunctionTypes structs function).Clean) :
    ∀ ty ∈ function.types, ∃ span, (validateKnownType structs span ty).Clean := by
  simp only [validateFunctionTypes, clean_bind, forEach_clean] at h
  obtain ⟨hparams, hbody⟩ := h
  simp only [Function.types, List.forall_mem_append, List.forall_mem_map]
  cases hr : function.returnType with
  | void =>
    simp only [hr] at hbody
    exact ⟨⟨fun param hparam => ⟨_, hparams param hparam⟩, by simp [ReturnType.types]⟩,
      validateBlockTypes_clean _ hbody⟩
  | value ty =>
    simp only [hr, clean_bind] at hbody
    refine ⟨⟨fun param hparam => ⟨_, hparams param hparam⟩, ?_⟩,
      validateBlockTypes_clean _ hbody.2⟩
    simpa [ReturnType.types] using ⟨_, hbody.1⟩

/-- Every type of the program is of declared structs. -/
theorem validateDeclaredTypes_clean {structs : HashMap StructDecl} {program : Program}
    (h : (validateDeclaredTypes program structs).Clean) :
    ∀ ty ∈ program.types, ∃ span, (validateKnownType structs span ty).Clean := by
  simp only [validateDeclaredTypes, clean_bind, forEach_clean] at h
  obtain ⟨hstructs, hconstants, hglobals, hfunctions⟩ := h
  simp only [Program.types, List.forall_mem_append, List.forall_mem_map, List.forall_mem_flatMap,
    StructDecl.types]
  exact ⟨⟨⟨fun d hd field hf => ⟨_, hstructs d hd field hf⟩, fun c hc => ⟨_, hconstants c hc⟩⟩,
    fun g hg => ⟨_, hglobals g hg⟩⟩, fun f hf => validateFunctionTypes_clean (hfunctions f hf)⟩

/-! ## Initializers -/

section

variable {globals : HashMap ValueType} {description : String}

mutual

/-- An expression that is not a compile-time expression is reported. -/
theorem validateCompileTimeStructure_clean :
    (e : Expr) → (validateCompileTimeStructure globals description e).Clean →
      (validateCompileTimeStructure globals description e).value = true
  | .i32 .., _ | .f32 .., _ | .bool .., _ => rfl
  | .var name span, h => by
    rw [validateCompileTimeStructure] at h ⊢
    split at h
    · simp at h
    · rw [if_neg ‹_›]
      rfl
  | .unary _ operand _, h => validateCompileTimeStructure_clean operand h
  | .field base _ _ _, h => validateCompileTimeStructure_clean base h
  | .binary left _ right _, h => by
    simp only [validateCompileTimeStructure, clean_bind, bind_value] at h ⊢
    simp [validateCompileTimeStructure_clean left h.1,
      validateCompileTimeStructure_clean right h.2.1]
  | .index base index _, h => by
    simp only [validateCompileTimeStructure, clean_bind, bind_value] at h ⊢
    simp [validateCompileTimeStructure_clean base h.1,
      validateCompileTimeStructure_clean index h.2.1]
  | .call .., h => by
    simp [validateCompileTimeStructure] at h
  | .conversion _ args _, h => validateElements_clean args h
  | .arrayLiteral elements _, h => validateElements_clean elements h
  | .structLiteral _ fields _, h => validateInitializers_clean fields h

theorem validateElements_clean :
    (es : List Expr) → (validateElements globals description es).Clean →
      (validateElements globals description es).value = true
  | [], _ => rfl
  | e :: rest, h => by
    simp only [validateElements, clean_bind, bind_value] at h ⊢
    simp [validateCompileTimeStructure_clean e h.1, validateElements_clean rest h.2.1]

theorem validateInitializers_clean :
    (fields : List (FieldInitializer Expr)) →
      (validateInitializers globals description fields).Clean →
      (validateInitializers globals description fields).value = true
  | [], _ => rfl
  | ⟨_, value, _⟩ :: rest, h => by
    simp only [validateInitializers, clean_bind, bind_value] at h ⊢
    simp [validateCompileTimeStructure_clean value h.1, validateInitializers_clean rest h.2.1]

end

theorem invalidStructures_clean {constants : List Constant}
    (h : (invalidStructures globals constants).Clean) :
    (invalidStructures globals constants).value = [] := by
  induction constants with
  | nil => rfl
  | cons constant rest ih =>
    simp only [invalidStructures, clean_bind, bind_value] at h ⊢
    simp [validateCompileTimeStructure_clean constant.init h.1, ih h.2.1]

theorem invalidGlobals_clean {analysis : StructTypeAnalysis} {declared : List Global}
    (hresolved : ∀ global ∈ declared, analysis.resolutionFailed global.ty = false)
    (h : (invalidGlobals analysis globals declared).Clean) :
    (invalidGlobals analysis globals declared).value = declared.map fun _ => false := by
  induction declared with
  | nil => rfl
  | cons global rest ih =>
    simp only [List.forall_mem_cons] at hresolved
    simp only [invalidGlobals, hresolved.1, Bool.false_eq_true, if_false, clean_bind, clean_map,
      bind_value, map_value] at h ⊢
    simp [validateCompileTimeStructure_clean global.init h.1, ih hresolved.2 h.2.1]

end

section Values

variable [F32Primitives] {c : FunctionChecker}

theorem checkInitializer_clean (hc : c.WellFormed) {what name : String} {ty : ValueType} {init : Expr}
    (hty : ty.WellFormed c.structs) (h : (checkInitializer c what name ty init).Clean) :
    HasType c [∅] init (.value ty) := by
  simp only [checkInitializer, clean_bind] at h
  refine (FunctionChecker.requireValueAs_clean hc ?_).typed hty h.1 h.2
  intro scope hscope name b hb
  obtain rfl := List.mem_singleton.mp hscope
  simp at hb

/-- Evaluating the constants without a diagnostic gives each of them its lazy value. -/
theorem evaluateConstants_clean {definitions : HashMap ConstantDefinition}
    {globals : HashMap ValueType} {structs : HashMap StructDecl} {resolution : Resolution}
    {constants : List Constant} (hdefined : ∀ constant ∈ constants, constant.name ∈ definitions)
    {cache : ConstantValues} (hnone : cache.failures = ∅)
    (hs : cache.Sound (constantPhase definitions globals structs []) (predefinedValues resolution)
      (constantSystem definitions globals structs [] resolution))
    (h : (evaluateConstants ⟨definitions, globals, structs, [], cache⟩ constants).Clean) :
    let result := (evaluateConstants ⟨definitions, globals, structs, [], cache⟩ constants).value
    result.cache.Sound (constantPhase definitions globals structs []) (predefinedValues resolution)
        (constantSystem definitions globals structs [] resolution) ∧
      cache.Extends result.cache ∧
      (∀ n, result.cache.Known n → cache.Known n ∨ ∃ constant ∈ constants,
        Relation.ReflTransGen (Demand.Demands (constantSystem definitions globals structs []
          resolution)) constant.name n) ∧
      ∀ constant ∈ constants, ∃ v, result.cache.values.lookup constant.name = some v := by
  induction constants generalizing cache with
  | nil => exact ⟨hs, .refl _, fun n => .inl, by simp⟩
  | cons constant rest ih =>
    simp only [List.forall_mem_cons] at hdefined
    obtain ⟨definition, hdefinition⟩ :=
      Option.isSome_iff_exists.mp (AList.lookup_isSome.mpr hdefined.1)
    obtain ⟨cache', result, heval, hans⟩ := ConstantValues.evaluate_spec
      (constantPhase_refines definitions globals structs [] resolution) hs constant.name
      definition.span
    have hnamed : (ConstantEvaluator.mk definitions globals structs [] cache).evaluateNamed
        constant.name = some (⟨definitions, globals, structs, [], cache'⟩, result) := by
      simp [ConstantEvaluator.evaluateNamed, hdefinition, heval]
    have hfailed : ¬(constant.name ∈ ([] : HashSet) ∨ cache.failed constant.name = true) := by
      simp [ConstantValues.failed, hnone]
    rw [evaluateConstants, if_neg hfailed, hnamed] at h ⊢
    cases result with
    | error d => simp at h
    | ok v =>
      obtain ⟨hs', hext, hknown, hvalues⟩ := ih hdefined.2 (hans.failures_eq hnone) hans.sound h
      refine ⟨hs', hans.extend.trans hext, fun n hn => ?_,
        List.forall_mem_cons.mpr ⟨⟨v, hext.values hans.result⟩, hvalues⟩⟩
      rcases hknown n hn with hn | ⟨c, hc, hreach⟩
      · exact (hans.known n hn).imp_right fun h => ⟨constant, List.mem_cons_self, h⟩
      · exact .inr ⟨c, List.mem_cons_of_mem _ hc, hreach⟩

end Values

/-! ## Checked programs -/

namespace Program

/-- The lazy meaning of the declared constants. -/
def constantSystem [F32Primitives] (program : Program) :
    String → Option (ConstantDemand ConstantValue) :=
  Speck.constantSystem (constantDefinitions program.constants) program.globalTypes
    (structTable program.structs) [] program.resolution

/-- The program without the values of its constants and globals. -/
def withoutValues (program : Program) : Program :=
  { program with
    constants := program.constants.map fun constant => { constant with value := none }
    globals := program.globals.map fun global => { global with value := none } }

theorem names_withoutValues (program : Program) : program.withoutValues.names = program.names := by
  simp [withoutValues, names, namedFunctions, Function.comp_def]

theorem types_withoutValues (program : Program) : program.withoutValues.types = program.types := by
  simp [withoutValues, types, Function.comp_def]

theorem checker_withoutValues (program : Program) (values : HashMap ConstantValue) :
    program.withoutValues.checker values = program.checker values := by
  simp [withoutValues, checker, globalTypes, constantTypes, signatures, namedFunctions,
    Function.comp_def]

theorem constantDefinitions_withoutValues (program : Program) :
    constantDefinitions program.withoutValues.constants = constantDefinitions program.constants := by
  simp [withoutValues, constantDefinitions, Function.comp_def]

theorem constantSystem_withoutValues [F32Primitives] (program : Program) :
    program.withoutValues.constantSystem = program.constantSystem := by
  rw [constantSystem, constantDefinitions_withoutValues]
  simp [constantSystem, withoutValues, globalTypes, Function.comp_def]

end Program

/-- A program that was checked, with the values of its constants. -/
structure CheckedProgram [F32Primitives] where
  program : Program
  values : HashMap ConstantValue
  names_nodup : program.names.Nodup
  names_fresh : ∀ name ∈ program.names, name ∉ predefinedNames program.resolution
  fieldNames : ∀ declaration ∈ program.structs, (declaration.fields.map (·.name)).Nodup
  types : ∀ ty ∈ program.types, ty.WellFormed (structTable program.structs)
  predefined : ∀ {name v}, (predefinedValues program.resolution).lookup name = some v →
    values.lookup name = some v
  computes : ∀ {name v}, values.lookup name = some v → Demand.Computes program.constantSystem name v
  constants : ∀ constant ∈ program.constants, ∃ v, constant.value = some v ∧
    values.lookup constant.name = some v ∧ v.Typed (structTable program.structs) constant.ty
  globals : ∀ global ∈ program.globals, ∃ v, global.value = some v ∧
    v.Typed (structTable program.structs) global.ty
  functions : ∀ function ∈ program.functions, FunctionTyped (program.checker values) function
  entryPoints : ∀ kind, kind ≠ .named → (program.functions.filter (·.kind == kind)).length = 1
  update : ∀ function ∈ program.functions, function.kind = .update →
    function.params.map (·.ty) = [.f32]

/-! ### Lookups in the tables -/

section Tables

variable {program : Program}

theorem lookup_structTable {declarations : List StructDecl} {name : String}
    {declaration : StructDecl} (h : (structTable declarations).lookup name = some declaration) :
    declaration ∈ declarations ∧ declaration.name = name := by
  obtain ⟨d, hd, heq⟩ := List.mem_map.mp (HashMap.mem_of_lookup_ofList h)
  obtain ⟨hname, rfl⟩ := Prod.mk.inj heq
  exact ⟨hd, hname⟩

theorem lookup_globalTypes {name : String} {ty : ValueType}
    (h : program.globalTypes.lookup name = some ty) :
    ∃ global ∈ program.globals, global.name = name ∧ global.ty = ty := by
  obtain ⟨g, hg, heq⟩ := List.mem_map.mp (HashMap.mem_of_lookup_ofList h)
  exact ⟨g, hg, Prod.mk.inj heq⟩

theorem lookup_constantTypes {name : String} {ty : ValueType}
    (h : program.constantTypes.lookup name = some ty) :
    (∃ constant ∈ program.constants, constant.name = name ∧ constant.ty = ty) ∨
      ∃ constant ∈ Builtins.constants program.resolution,
        constant.name = name ∧ constant.value.ty = ty := by
  rcases HashMap.mem_of_lookup_extend h with h | h
  · obtain ⟨c, hc, heq⟩ := List.mem_map.mp h
    exact .inl ⟨c, hc, Prod.mk.inj heq⟩
  · obtain ⟨c, hc, heq⟩ := List.mem_map.mp (HashMap.mem_of_lookup_ofList h)
    exact .inr ⟨c, hc, Prod.mk.inj heq⟩

theorem lookup_signatures {name : String} {signature : Signature}
    (h : program.signatures.lookup name = some signature) :
    (∃ function ∈ program.namedFunctions, function.name = name ∧ function.signature = signature) ∨
      ∃ builtin ∈ Builtins.functions, builtin.name = name ∧
        signature = ⟨builtin.params, builtin.returnType⟩ := by
  rcases HashMap.mem_of_lookup_extend h with h | h
  · obtain ⟨f, hf, heq⟩ := List.mem_map.mp h
    exact .inl ⟨f, hf, Prod.mk.inj heq⟩
  · obtain ⟨b, hb, heq⟩ := List.mem_map.mp (HashMap.mem_of_lookup_ofList h)
    exact .inr ⟨b, hb, (Prod.mk.inj heq).1, (Prod.mk.inj heq).2.symm⟩

/-- The types of the builtin functions are scalars. -/
theorem builtin_wellFormed {structs : HashMap StructDecl} {builtin : BuiltinFunction}
    (h : builtin ∈ Builtins.functions) : (∀ ty ∈ builtin.params, ty.WellFormed structs) ∧
      builtin.returnType.WellFormed structs := by
  have hall : ∀ builtin ∈ Builtins.functions,
      (∀ ty ∈ builtin.params, ty = .i32 ∨ ty = .f32 ∨ ty = .bool) ∧
      (builtin.returnType = .void ∨ builtin.returnType = .value .i32 ∨
        builtin.returnType = .value .f32 ∨ builtin.returnType = .value .bool) := by
    decide
  obtain ⟨hparams, hreturn⟩ := hall builtin h
  refine ⟨fun ty hty => ?_, fun ty hty => ?_⟩
  · rcases hparams ty hty with rfl | rfl | rfl <;> trivial
  · rcases hreturn with hr | hr | hr | hr <;> rw [hr] at hty <;> cases hty <;> trivial

theorem checker_wellFormed {values : HashMap ConstantValue}
    (hfieldNames : ∀ declaration ∈ program.structs, (declaration.fields.map (·.name)).Nodup)
    (htypes : ∀ ty ∈ program.types, ty.WellFormed (structTable program.structs)) :
    (program.checker values).WellFormed := by
  simp only [Program.types, List.forall_mem_append, List.forall_mem_map, List.forall_mem_flatMap,
    StructDecl.types] at htypes
  obtain ⟨⟨⟨hstructs, hconstants⟩, hglobals⟩, hfunctions⟩ := htypes
  refine ⟨fun h => ?_, fun h => ?_, fun h => ?_, fun h => ?_, fun h => ?_, fun h => ?_⟩
  · obtain ⟨g, hg, -, rfl⟩ := lookup_globalTypes h
    exact hglobals g hg
  · rcases lookup_constantTypes h with ⟨c, hc, -, rfl⟩ | ⟨c, hc, -, rfl⟩
    · exact hconstants c hc
    · obtain ⟨n, hn⟩ := Builtins.exists_i32_of_mem_constants hc
      rw [hn]
      trivial
  · exact hstructs _ (lookup_structTable h).1
  · exact hfieldNames _ (lookup_structTable h).1
  · rcases lookup_signatures h with ⟨f, hf, -, rfl⟩ | ⟨b, hb, -, rfl⟩
    · intro ty hty
      exact hfunctions f (List.mem_of_mem_filter hf) ty 
        (List.mem_append_left _ (List.mem_append_left _ hty))
    · exact (builtin_wellFormed hb).1
  · rcases lookup_signatures h with ⟨f, hf, -, rfl⟩ | ⟨b, hb, -, rfl⟩
    · intro ty hty
      exact hfunctions f (List.mem_of_mem_filter hf) ty (by
        have hty : f.returnType = .value ty := hty
        simp [Function.types, hty, ReturnType.types])
    · exact (builtin_wellFormed hb).2

/-- A declared name has one declaration. -/
theorem names_disjoint (hnodup : program.names.Nodup)
    {global : Global} (hglobal : global ∈ program.globals) {constant : Constant}
    (hconstant : constant ∈ program.constants) : global.name ≠ constant.name := by
  intro heq
  rw [Program.names, List.append_assoc, List.append_assoc] at hnodup
  have hdisjoint := (List.nodup_append.mp (List.nodup_append.mp hnodup).2.1).2.2
  exact hdisjoint constant.name (List.mem_map_of_mem hconstant) global.name
    (List.mem_append_left _ (List.mem_map_of_mem hglobal)) heq.symm

theorem constants_nodup (hnodup : program.names.Nodup) :
    (program.constants.map (·.name)).Nodup := by
  rw [Program.names, List.append_assoc, List.append_assoc] at hnodup
  exact (List.nodup_append.mp (List.nodup_append.mp hnodup).2.1).1

/-- A declared name is no predefined constant. -/
theorem notMem_predefined (hfresh : ∀ name ∈ program.names, name ∉ predefinedNames program.resolution)
    {name : String} (h : name ∈ program.names) :
    name ∉ (Builtins.constants program.resolution).map (·.name) := by
  intro hmem
  refine hfresh name h (AList.lookup_isSome.mp ?_)
  rw [lookup_predefinedNames, if_pos hmem]
  rfl

theorem global_mem_names {global : Global} (h : global ∈ program.globals) :
    global.name ∈ program.names := by
  simp only [Program.names, List.mem_append]
  exact .inl (.inr (List.mem_map_of_mem h))

theorem constant_mem_names {constant : Constant} (h : constant ∈ program.constants) :
    constant.name ∈ program.names := by
  simp only [Program.names, List.mem_append]
  exact .inl (.inl (.inr (List.mem_map_of_mem h)))

theorem lookup_constantDefinitions {constants : List Constant} {name : String}
    {definition : ConstantDefinition}
    (h : (constantDefinitions constants).lookup name = some definition) :
    ∃ constant ∈ constants, constant.name = name ∧
      definition = ⟨constant.ty, constant.init, constant.span⟩ := by
  obtain ⟨c, hc, heq⟩ := List.mem_map.mp (HashMap.mem_of_lookup_ofList h)
  exact ⟨c, hc, (Prod.mk.inj heq).1, (Prod.mk.inj heq).2.symm⟩

/-- The binding of a constant outside of functions. -/
theorem binding_constant {values : HashMap ConstantValue} (hnodup : program.names.Nodup)
    (hfresh : ∀ name ∈ program.names, name ∉ predefinedNames program.resolution)
    {constant : Constant} (hconstant : constant ∈ program.constants) {b : Binding}
    (h : (program.checker values).binding [∅] constant.name = some b) :
    b = ⟨constant.ty, .constant⟩ := by
  rcases FunctionChecker.binding_eq_some h with h | ⟨-, ⟨ty, hty, rfl⟩ | ⟨-, ty, hty, rfl⟩⟩
  · simp [lookupScopes] at h
  · obtain ⟨g, hg, hname, -⟩ := lookup_globalTypes hty
    exact absurd hname (names_disjoint hnodup hg hconstant)
  · rcases lookup_constantTypes hty with ⟨c, hc, hname, rfl⟩ | ⟨item, hitem, hname, -⟩
    · obtain rfl := List.inj_on_of_nodup_map (constants_nodup hnodup) hc hconstant hname
      rfl
    · exact absurd (List.mem_map.mpr ⟨item, hitem, hname⟩)
        (notMem_predefined hfresh (constant_mem_names hconstant))

theorem exists_binding_constant {values : HashMap ConstantValue} (hnodup : program.names.Nodup)
    {constant : Constant} (hconstant : constant ∈ program.constants) :
    (program.checker values).binding [∅] constant.name = some ⟨constant.ty, .constant⟩ := by
  have hglobal : program.globalTypes.lookup constant.name = none := by
    rw [Option.eq_none_iff_forall_ne_some]
    intro ty hty
    obtain ⟨g, hg, hname, -⟩ := lookup_globalTypes hty
    exact names_disjoint hnodup hg hconstant hname
  have hlookup : program.constantTypes.lookup constant.name = some constant.ty := by
    refine HashMap.lookup_extend_of_mem ?_ (List.mem_map.mpr ⟨constant, hconstant, rfl⟩)
    rw [List.map_map]
    exact constants_nodup hnodup
  simp [FunctionChecker.binding, lookupScopes, Program.checker, hglobal, hlookup]

/-- The binding of a predefined constant outside of functions. -/
theorem binding_predefined {values : HashMap ConstantValue}
    (hfresh : ∀ name ∈ program.names, name ∉ predefinedNames program.resolution)
    {item : PredefinedConstant} (hitem : item ∈ Builtins.constants program.resolution) {b : Binding}
    (h : (program.checker values).binding [∅] item.name = some b) : b = ⟨.i32, .constant⟩ := by
  have hmem := List.mem_map_of_mem (f := fun item : PredefinedConstant => item.name) hitem
  rcases FunctionChecker.binding_eq_some h with h | ⟨-, ⟨ty, hty, rfl⟩ | ⟨-, ty, hty, rfl⟩⟩
  · simp [lookupScopes] at h
  · obtain ⟨g, hg, hname, -⟩ := lookup_globalTypes hty
    exact absurd (hname ▸ hmem) (notMem_predefined hfresh (global_mem_names hg))
  · rcases lookup_constantTypes hty with ⟨c, hc, hname, -⟩ | ⟨item', hitem', -, rfl⟩
    · exact absurd (hname ▸ hmem) (notMem_predefined hfresh (constant_mem_names hc))
    · obtain ⟨n, hn⟩ := Builtins.exists_i32_of_mem_constants hitem'
      rw [hn]
      rfl

/-- A name with a constant's value is no global. -/
theorem notMem_globalTypes [F32Primitives] (hnodup : program.names.Nodup)
    (hfresh : ∀ name ∈ program.names, name ∉ predefinedNames program.resolution)
    {name : String} {v : ConstantValue} (h : Demand.Computes program.constantSystem name v) :
    name ∉ program.globalTypes := by
  intro hmem
  obtain ⟨ty, hty⟩ := Option.isSome_iff_exists.mp (AList.lookup_isSome.mpr hmem)
  obtain ⟨global, hglobal, rfl, -⟩ := lookup_globalTypes hty
  obtain ⟨t, ht, -⟩ := Demand.computes_iff.mp h
  rw [Program.constantSystem, constantSystem] at ht
  split at ht
  · next w hw =>
    obtain ⟨item, hitem, hname, -⟩ := lookup_predefinedValues hw
    exact notMem_predefined hfresh (global_mem_names hglobal) (List.mem_map.mpr ⟨item, hitem, hname⟩)
  · obtain ⟨definition, hdefinition, -⟩ := Option.map_eq_some_iff.mp ht
    obtain ⟨constant, hconstant, hname, -⟩ := lookup_constantDefinitions hdefinition
    exact names_disjoint hnodup hglobal hconstant hname.symm

/-- The lazy value of a constant has its type. -/
theorem computes_typed [F32Primitives] {values : HashMap ConstantValue}
    (hnodup : program.names.Nodup)
    (hfresh : ∀ name ∈ program.names, name ∉ predefinedNames program.resolution)
    (hc : (program.checker values).WellFormed)
    (hinits : ∀ constant ∈ program.constants,
      HasType (program.checker values) [∅] constant.init (.value constant.ty))
    {name : String} {v : ConstantValue} (h : Demand.Computes program.constantSystem name v) :
    GoodAnswer (program.checker values) [∅] name v := by
  refine Demand.Computes.ensures (fun name t ht => ?_) h
  rw [Program.constantSystem, constantSystem] at ht
  split at ht
  · next v hv =>
    cases ht
    intro b hb
    obtain ⟨item, hitem, rfl, rfl⟩ := lookup_predefinedValues hv
    obtain rfl := binding_predefined hfresh hitem hb
    obtain ⟨n, hn⟩ := Builtins.exists_i32_of_mem_constants hitem
    rw [hn]
    exact ⟨.i32, .i32⟩
  · obtain ⟨definition, hdefinition, rfl⟩ := Option.map_eq_some_iff.mp ht
    obtain ⟨constant, hconstant, rfl, rfl⟩ := lookup_constantDefinitions hdefinition
    rw [constantDemand, if_neg List.not_mem_nil]
    have hinit := demand_typed hc (hinits constant hconstant) (some constant.ty) (by simp)
    refine hinit.restrict.bind fun v hv => Demand.ensures_ofExcept fun w hw => ?_
    unfold validateConstantType at hw
    split at hw <;> cases hw
    intro b hb
    obtain rfl := binding_constant hnodup hfresh hconstant hb
    exact hv

/-- Evaluating the globals without a diagnostic gives each of them a value of its type. -/
theorem evaluateGlobals_clean [F32Primitives] {c : FunctionChecker} (hc : c.WellFormed)
    {values : HashMap ConstantValue}
    (hvalues : ∀ {name v}, values.lookup name = some v → GoodAnswer c [∅] name v)
    {globals : List Global}
    (hinits : ∀ global ∈ globals, HasType c [∅] global.init (.value global.ty))
    (h : (evaluateGlobals values c.globals c.structs
      (globals.zip (globals.map fun _ => false))).Clean) :
    List.Forall₂ (fun global evaluated => ∃ v, evaluated = { global with value := some v } ∧
        v.Typed c.structs global.ty) globals
      (evaluateGlobals values c.globals c.structs (globals.zip (globals.map fun _ => false))).value := by
  induction globals with
  | nil => exact .nil
  | cons global rest ih =>
    simp only [List.forall_mem_cons] at hinits
    simp only [List.map_cons, List.zip_cons_cons, evaluateGlobals, Bool.false_eq_true, if_false,
      clean_bind, bind_value] at h ⊢
    obtain ⟨hvalue, hrest, -⟩ := h
    unfold evaluateGlobal at hvalue ⊢
    cases heval : evaluateInitializer global.init global.ty values c.globals c.structs with
    | error message => simp [heval] at hvalue
    | ok v =>
      have hv : v.Typed c.structs global.ty := by
        unfold evaluateInitializer at heval
        simp only at heval
        split at heval
        · next v' hresume =>
          cases heval
          refine (demand_typed hc hinits.1 (some global.ty) (by simp)).of_run
            (fun name span w hw => ?_) ((resume_new_eq_ok c.structs).mp hresume)
          split at hw
          · next w' hlookup =>
            cases hw
            exact hvalues hlookup
          · split at hw <;> cases hw
        · cases heval
      refine .cons ⟨v, ?_, hv⟩ (ih hinits.2 hrest)
      simp [hv.1.ty_eq]

end Tables

/-! ### Accepted programs -/

section Accepted

/-- Declared and predefined names tell everything apart. -/
theorem names_of_declared {program : Program} {names₁ names₂ names₃ : HashMap String}
    (hstructs : DeclaresNames (predefinedNames program.resolution) "struct"
      (program.structs.map (·.name)) names₁)
    (hconstants : DeclaresNames names₁ "constant" (program.constants.map (·.name)) names₂)
    (hglobals : DeclaresNames names₂ "global variable" (program.globals.map (·.name)) names₃)
    (hnodup : (program.namedFunctions.map (·.name)).Nodup)
    (hfunctions : ∀ function ∈ program.namedFunctions, function.name ∉ builtinSignatures ∧
      ∀ kind, names₃.lookup function.name = some kind → kind = "function") :
    program.names.Nodup ∧ ∀ name ∈ program.names, name ∉ predefinedNames program.resolution := by
  have hconstant : ∀ n ∈ program.constants.map (·.name), n ∉ program.structs.map (·.name) ∧
      n ∉ predefinedNames program.resolution := fun n hn => by
    have := hconstants.fresh n hn
    rw [hstructs.mem_iff] at this
    exact not_or.mp this
  have hglobal : ∀ n ∈ program.globals.map (·.name), n ∉ program.constants.map (·.name) ∧
      n ∉ program.structs.map (·.name) ∧ n ∉ predefinedNames program.resolution := fun n hn => by
    have := hglobals.fresh n hn
    rw [hconstants.mem_iff, hstructs.mem_iff] at this
    simpa only [not_or] using this
  -- any other declaration or predefined name than a builtin function has another kind
  have hfunction : ∀ n ∈ program.namedFunctions.map (·.name), n ∉ names₃ := fun n hn hmem => by
    obtain ⟨f, hf, rfl⟩ := List.mem_map.mp hn
    obtain ⟨hbuiltin, hkind⟩ := hfunctions f hf
    obtain ⟨kind, hlookup⟩ := Option.isSome_iff_exists.mp (AList.lookup_isSome.mpr hmem)
    obtain rfl := hkind kind hlookup
    rw [hglobals.lookup, hconstants.lookup, hstructs.lookup, lookup_predefinedNames,
      if_neg (mt mem_builtinSignatures.mpr hbuiltin)] at hlookup
    split_ifs at hlookup <;> simp at hlookup
  have hnames₃ : ∀ n, n ∉ names₃ → n ∉ program.globals.map (·.name) ∧
      n ∉ program.constants.map (·.name) ∧ n ∉ program.structs.map (·.name) ∧
      n ∉ predefinedNames program.resolution := fun n hn => by
    rw [hglobals.mem_iff, hconstants.mem_iff, hstructs.mem_iff] at hn
    simpa only [not_or] using hn
  refine ⟨?_, fun n hn => ?_⟩
  · rw [Program.names]
    refine List.nodup_append.mpr ⟨List.nodup_append.mpr ⟨List.nodup_append.mpr
      ⟨hstructs.nodup, hconstants.nodup, ?_⟩, hglobals.nodup, ?_⟩, hnodup, ?_⟩
    · rintro n hn _ hc rfl
      exact (hconstant n hc).1 hn
    · rintro n hn _ hg rfl
      rcases List.mem_append.mp hn with hn | hn
      · exact (hglobal n hg).2.1 hn
      · exact (hglobal n hg).1 hn
    · rintro n hn _ hf rfl
      obtain ⟨h1, h2, h3, -⟩ := hnames₃ n (hfunction n hf)
      simp only [List.mem_append] at hn
      tauto
  · simp only [Program.names, List.mem_append] at hn
    rcases hn with ((hn | hn) | hn) | hn
    · exact hstructs.fresh n hn
    · exact (hconstant n hn).2
    · exact (hglobal n hn).2.2
    · exact (hnames₃ n (hfunction n hn)).2.2.2

theorem checkEntryPoint_clean {program : Program} {kind : FunctionKind} {name : String}
    (h : (checkEntryPoint program kind name).Clean) :
    (program.functions.filter (·.kind == kind)).length = 1 := by
  unfold checkEntryPoint at h
  split at h
  · simp at h
  · assumption
  · simp at h

theorem resolutionFailed_eq_false {program : Program}
    (htypes : ∀ ty ∈ program.types, ty.WellFormed (structTable program.structs)) :
    ∀ ty ∈ program.types,
      (StructTypeAnalysis.new (structTable program.structs)).1.resolutionFailed ty = false := by
  intro ty hty
  rw [StructTypeAnalysis.resolutionFailed, (htypes ty hty).hasInvalidArrayLength,
    StructTypeAnalysis.invalidLengths_new]
  · cases ty.structName <;> simp
  · intro name declaration hd field hfield
    refine (htypes field.ty ?_).hasInvalidArrayLength
    simp only [Program.types, List.mem_append, List.mem_flatMap]
    exact .inl (.inl (.inl ⟨declaration, (lookup_structTable hd).1, List.mem_map_of_mem hfield⟩))

theorem zip_map_false (globals : List Global) :
    globals.zip (globals.map fun _ => false) = globals.map fun global => (global, false) := by
  induction globals with
  | nil => rfl
  | cons global rest ih =>
    simp only [List.map_cons, List.zip_cons_cons]
    rw [ih]

/-- The program with values for its constants and its globals. -/
def Program.withValues (program : Program) (values : HashMap ConstantValue) (globals : List Global) :
    Program :=
  { program with
    constants := program.constants.map fun constant =>
      { constant with value := values.lookup constant.name }
    globals }

theorem evaluated_globals {structs : HashMap StructDecl} {declared globals : List Global}
    (h : List.Forall₂ (fun global evaluated => ∃ v, evaluated = { global with value := some v } ∧
      v.Typed structs global.ty) declared globals) :
    globals.map (fun global => { global with value := none }) =
        declared.map (fun global => { global with value := none }) ∧
      ∀ global ∈ globals, ∃ v, global.value = some v ∧ v.Typed structs global.ty := by
  induction h with
  | nil => exact ⟨rfl, by simp⟩
  | cons h _ ih =>
    obtain ⟨v, rfl, hv⟩ := h
    exact ⟨by rw [List.map_cons, ih.1]; rfl, List.forall_mem_cons.mpr ⟨⟨v, rfl, hv⟩, ih.2⟩⟩

variable [F32Primitives]

/-- The program with the values of its constants and globals is checked. -/
theorem exists_checkedProgram {program : Program} {cache : ConstantValues} {globals : List Global}
    (hnames : program.names.Nodup)
    (hnew : ∀ name ∈ program.names, name ∉ predefinedNames program.resolution)
    (hfieldNames : ∀ declaration ∈ program.structs, (declaration.fields.map (·.name)).Nodup)
    (htypes : ∀ ty ∈ program.types, ty.WellFormed (structTable program.structs))
    (hsound : cache.Sound (constantPhase (constantDefinitions program.constants) program.globalTypes
      (structTable program.structs) []) (predefinedValues program.resolution) program.constantSystem)
    (hvalues : ∀ constant ∈ program.constants, ∃ v, cache.values.lookup constant.name = some v)
    (hgood : ∀ {name v}, cache.values.lookup name = some v →
      GoodAnswer (program.checker (predefinedValues program.resolution)) [∅] name v)
    (hglobals : List.Forall₂ (fun global evaluated =>
      ∃ v, evaluated = { global with value := some v } ∧
        v.Typed (structTable program.structs) global.ty) program.globals globals)
    (hfunctions : ∀ function ∈ program.functions,
      FunctionTyped (program.checker cache.values) function)
    (hentryPoints : ∀ kind, kind ≠ .named →
      (program.functions.filter (·.kind == kind)).length = 1)
    (hupdate : ∀ function ∈ program.functions, function.kind = .update →
      function.params.map (·.ty) = [.f32]) :
    ∃ checked : CheckedProgram, checked.program = program.withValues cache.values globals ∧
      checked.program.withoutValues = program.withoutValues := by
  obtain ⟨hmap, hglobalValues⟩ := evaluated_globals hglobals
  have hsame : (program.withValues cache.values globals).withoutValues = program.withoutValues := by
    simp [Program.withValues, Program.withoutValues, hmap, Function.comp_def]
  have hresultNames : (program.withValues cache.values globals).names = program.names := by
    rw [← Program.names_withoutValues, hsame, Program.names_withoutValues]
  have hresultTypes : (program.withValues cache.values globals).types = program.types := by
    rw [← Program.types_withoutValues, hsame, Program.types_withoutValues]
  have hresultChecker : (program.withValues cache.values globals).checker cache.values =
      program.checker cache.values := by
    rw [← Program.checker_withoutValues, hsame, Program.checker_withoutValues]
  have hresultSystem :
      (program.withValues cache.values globals).constantSystem = program.constantSystem := by
    rw [← Program.constantSystem_withoutValues, hsame, Program.constantSystem_withoutValues]
  refine ⟨⟨program.withValues cache.values globals, cache.values, hresultNames ▸ hnames, ?_,
    hfieldNames, ?_, hsound.predefined, ?_, ?_, hglobalValues, ?_, hentryPoints, hupdate⟩, rfl, hsame⟩
  · rw [hresultNames]
    exact hnew
  · rw [hresultTypes]
    exact htypes
  · rw [hresultSystem]
    exact hsound.values
  · rintro _ hmem
    obtain ⟨constant, hconstant, rfl⟩ := List.mem_map.mp hmem
    obtain ⟨v, hv⟩ := hvalues constant hconstant
    exact ⟨v, hv, hv, hgood hv _ (exists_binding_constant hnames hconstant)⟩
  · rw [hresultChecker]
    exact hfunctions

/-- The evaluator after the constants of the program. -/
def Program.evaluator (program : Program) : ConstantEvaluator :=
  (evaluateConstants (.new (constantDefinitions program.constants) program.globalTypes
    (structTable program.structs) [] program.resolution) program.constants).value

/-- The evaluation of the globals. -/
def Program.evaluatedGlobals (program : Program) : Logged (List Global) :=
  evaluateGlobals program.evaluator.cache.values program.globalTypes (structTable program.structs)
    (program.globals.zip (program.globals.map fun _ => false))

/-- What the passes after type resolution have found when they report nothing. -/
structure Passes (program : Program) : Prop where
  names_nodup : program.names.Nodup
  names_fresh : ∀ name ∈ program.names, name ∉ predefinedNames program.resolution
  fieldNames : ∀ declaration ∈ program.structs, (declaration.fields.map (·.name)).Nodup
  types : ∀ ty ∈ program.types, ty.WellFormed (structTable program.structs)
  constants : ∀ constant ∈ program.constants,
    HasType (program.checker (predefinedValues program.resolution)) [∅] constant.init
      (.value constant.ty)
  globals : ∀ global ∈ program.globals,
    HasType (program.checker (predefinedValues program.resolution)) [∅] global.init
      (.value global.ty)
  evaluates : (evaluateConstants (.new (constantDefinitions program.constants) program.globalTypes
    (structTable program.structs) [] program.resolution) program.constants).Clean
  evaluatesGlobals : program.evaluatedGlobals.Clean
  functions : ∀ function ∈ program.functions,
    FunctionTyped (program.checker program.evaluator.cache.values) function
  entryPoints : ∀ kind, kind ≠ .named → (program.functions.filter (·.kind == kind)).length = 1
  update : ∀ function ∈ program.functions, function.kind = .update →
    function.params.map (·.ty) = [.f32]

theorem checkResolved_passes {program : Program} (hresolved : ∀ ty ∈ program.types, ty.IsResolved)
    (h : (checkResolved program []).Clean) : Passes program ∧ (checkResolved program []).value =
      program.withValues program.evaluator.cache.values program.evaluatedGlobals.value := by
  unfold checkResolved at h ⊢
  simp only [clean_bind, bind_value] at h ⊢
  obtain ⟨hS, hT, -, hC, hG, hIS, hIG, hF, hstart, hupdate, hdraw, hCI, hGI, hEC, hEG, hFn, -⟩ := h
  -- the tables
  obtain ⟨hstructs, hnames₁, hfieldNames⟩ := declareStructs_clean hS
  replace hstructs : _ = structTable program.structs := hstructs
  simp only [hstructs] at hT hIS hIG hCI hGI hEC hEG hFn ⊢
  obtain ⟨hconstants, hnames₂⟩ := declareConstants_clean hC
  replace hconstants : _ = program.constantTypes := hconstants
  simp only [hconstants] at hCI hGI hFn
  obtain ⟨hglobals, hnames₃⟩ := declareGlobals_clean hG
  replace hglobals : _ = program.globalTypes := hglobals
  simp only [hglobals] at hIS hIG hCI hGI hEC hEG hFn ⊢
  obtain ⟨hfunctions, hnodup, hfresh⟩ := declareFunctions_clean hF
  replace hfunctions : _ = program.signatures := hfunctions
  simp only [hfunctions] at hCI hGI hFn
  obtain ⟨hnames, hnew⟩ := names_of_declared hnames₁ hnames₂ hnames₃ hnodup hfresh
  have htypes : ∀ ty ∈ program.types, ty.WellFormed (structTable program.structs) := fun ty hty => by
    obtain ⟨span, hclean⟩ := validateDeclaredTypes_clean hT ty hty
    exact (hresolved ty hty).wellFormed hclean
  have hc : ∀ values, (program.checker values).WellFormed :=
    fun values => checker_wellFormed hfieldNames htypes
  -- nothing is invalid
  have hfailed := resolutionFailed_eq_false htypes
  have hconstantTypes : ∀ constant ∈ program.constants, constant.ty ∈ program.types :=
    fun constant hconstant => by
      simp only [Program.types, List.mem_append]
      exact .inl (.inl (.inr (List.mem_map_of_mem hconstant)))
  have hglobalTypes : ∀ global ∈ program.globals, global.ty ∈ program.types :=
    fun global hglobal => by
      simp only [Program.types, List.mem_append]
      exact .inl (.inr (List.mem_map_of_mem hglobal))
  have hinvalid : (invalidStructures program.globalTypes program.constants).value ++ [] ++
      (program.constants.filter fun constant => (StructTypeAnalysis.new
        (structTable program.structs)).1.resolutionFailed constant.ty).map (·.name) = [] := by
    rw [invalidStructures_clean hIS, List.filter_eq_nil_iff.mpr]
    · rfl
    · exact fun constant hconstant => by simp [hfailed _ (hconstantTypes constant hconstant)]
  have hvalid := invalidGlobals_clean (fun global hglobal => hfailed _ (hglobalTypes global hglobal))
    hIG
  simp only [hinvalid, hvalid] at hCI hGI hEC hEG hFn ⊢
  -- every initializer is typed
  have hinits : ∀ constant ∈ program.constants,
      HasType (program.checker (predefinedValues program.resolution)) [∅] constant.init
        (.value constant.ty) := fun constant hconstant => by
    have hclean := forEach_clean.mp hCI constant hconstant
    rw [if_neg List.not_mem_nil] at hclean
    exact checkInitializer_clean (hc _) (htypes _ (hconstantTypes constant hconstant)) hclean
  have hglobalInits : ∀ global ∈ program.globals,
      HasType (program.checker (predefinedValues program.resolution)) [∅] global.init
        (.value global.ty) := fun global hglobal => by
    rw [zip_map_false] at hGI
    have hclean := forEach_clean.mp hGI _ (List.mem_map_of_mem hglobal)
    simp only [Bool.false_eq_true, if_false] at hclean
    exact checkInitializer_clean (hc _) (htypes _ (hglobalTypes global hglobal)) hclean
  replace hFn := forEach_clean.mp hFn
  simp only [clean_bind] at hFn
  refine ⟨⟨hnames, hnew, hfieldNames, htypes, hinits, hglobalInits, hEC, hEG,
    fun function hfunction => ?_, fun kind hkind => ?_, fun function hfunction hkind => ?_⟩, ?_⟩
  · exact checkFunction_clean (hc _) (fun ty hty => htypes ty (by
      simp only [Program.types, List.mem_append, List.mem_flatMap]
      exact .inr ⟨function, hfunction, hty⟩)) (hFn function hfunction).2
  · cases kind with
    | named => exact absurd rfl hkind
    | start => exact checkEntryPoint_clean hstart
    | update => exact checkEntryPoint_clean hupdate
    | draw => exact checkEntryPoint_clean hdraw
  · simpa [checkUpdate, hkind] using (hFn function hfunction).1
  · rfl

/-- The passes after type resolution accept only checked programs. -/
theorem checkResolved_spec {program : Program} (hresolved : ∀ ty ∈ program.types, ty.IsResolved)
    (h : (checkResolved program []).Clean) :
    ∃ checked : CheckedProgram, checked.program = (checkResolved program []).value ∧
      checked.program.withoutValues = program.withoutValues := by
  obtain ⟨hpasses, hvalue⟩ := checkResolved_passes hresolved h
  have hc : ∀ values, (program.checker values).WellFormed :=
    fun values => checker_wellFormed hpasses.fieldNames hpasses.types
  -- every constant and every global has a value
  have hdefined : ∀ constant ∈ program.constants,
      constant.name ∈ constantDefinitions program.constants := fun constant hconstant => by
    rw [constantDefinitions, HashMap.mem_ofList, List.map_map]
    exact List.mem_map.mpr ⟨constant, hconstant, rfl⟩
  obtain ⟨hsound, -, -, hvalues⟩ := evaluateConstants_clean hdefined rfl
    (ConstantValues.sound_new (constantPhase_refines _ _ _ _ _)) hpasses.evaluates
  have hgood : ∀ {name v}, program.evaluator.cache.values.lookup name = some v →
      GoodAnswer (program.checker (predefinedValues program.resolution)) [∅] name v :=
    fun hv => computes_typed hpasses.names_nodup hpasses.names_fresh (hc _) hpasses.constants
      (hsound.values hv)
  have hglobalValues := evaluateGlobals_clean (hc (predefinedValues program.resolution)) hgood
    hpasses.globals hpasses.evaluatesGlobals
  rw [hvalue]
  exact exists_checkedProgram hpasses.names_nodup hpasses.names_fresh hpasses.fieldNames
    hpasses.types hsound hvalues hgood hglobalValues hpasses.functions hpasses.entryPoints
    hpasses.update

omit [F32Primitives] in
theorem eq_nil_of_deduplicateDiagnostics {diagnostics : List Diagnostic}
    (h : deduplicateDiagnostics [] diagnostics = []) : diagnostics = [] := by
  cases diagnostics with
  | nil => rfl
  | cons d rest => simp [deduplicateDiagnostics] at h

/-- A program is as the parser builds it : its lengths are literals and names. -/
def Program.IsWritten (program : Program) : Prop := ∀ ty ∈ program.types, ty.isWritten

/-- The passes of an accepted program, over its types with the lengths they stand for. -/
theorem check_passes {program program' : Program} (hwritten : program.IsWritten)
    (h : check program = .ok program') :
    EarlyCache program (earlyEvaluator program).cache ∧
      AllResolve program.types (earlyEvaluator program).cache ∧
      ∃ resolved,
        resolved = program.mapTypes (·.resolveOr (earlyEvaluator program).cache.values.lookup) ∧
        (∀ ty ∈ resolved.types, ty.IsResolved) ∧ (checkResolved resolved []).Clean ∧
          program' = (checkResolved resolved []).value := by
  unfold check at h
  generalize hresolve : resolveProgramTypes program = result at h
  obtain ⟨resolved, invalidLengths, diagnostics⟩ := result
  simp only at h
  split at h
  · next hnil =>
    obtain ⟨rfl, hclean⟩ := List.append_eq_nil_iff.mp (eq_nil_of_deduplicateDiagnostics hnil)
    obtain ⟨hcache, rfl, hall, rfl⟩ := resolveProgramTypes_spec hwritten hresolve
    refine ⟨hcache, hall, _, rfl, fun ty hty => ?_, hclean, (Except.ok.inj h).symm⟩
    rw [Program.types_mapTypes] at hty
    obtain ⟨written, hmem, rfl⟩ := List.mem_map.mp hty
    obtain ⟨ty', hty'⟩ := Option.isSome_iff_exists.mp (hall written hmem)
    rw [ValueType.resolveOr, hty']
    exact ValueType.isResolved_of_resolveIn hty'
  · cases h

/-- `check` accepts only checked programs : the program with its types replaced by what they
stand for, and with values for its constants and globals. -/
theorem check_spec {program program' : Program} (hwritten : program.IsWritten)
    (h : check program = .ok program') :
    ∃ checked : CheckedProgram, checked.program = program' ∧
      EarlyCache program (earlyEvaluator program).cache ∧
      AllResolve program.types (earlyEvaluator program).cache ∧
      program'.withoutValues = (program.mapTypes
        (·.resolveOr (earlyEvaluator program).cache.values.lookup)).withoutValues := by
  obtain ⟨hcache, hall, _, rfl, hresolved, hclean, rfl⟩ := check_passes hwritten h
  obtain ⟨checked, hchecked, hsame⟩ := checkResolved_spec hresolved hclean
  exact ⟨checked, hchecked, hcache, hall, hchecked ▸ hsame⟩

/-- An accepted program is resolved, and its constants and globals have values that are of their
types all the way down, with every `f32` finite. -/
theorem accepted_resolved {program program' : Program} (hwritten : program.IsWritten)
    (h : check program = .ok program') :
    (∀ ty ∈ program'.types, ty.WellFormed (structTable program'.structs)) ∧
      (∀ declaration ∈ program'.structs, (declaration.fields.map (·.name)).Nodup) ∧
      (∀ constant ∈ program'.constants, ∃ v, constant.value = some v ∧
        v.HasType (structTable program'.structs) constant.ty ∧ v.Finite) ∧
      ∀ global ∈ program'.globals, ∃ v, global.value = some v ∧
        v.HasType (structTable program'.structs) global.ty ∧ v.Finite := by
  obtain ⟨checked, rfl, -, -, -⟩ := check_spec hwritten h
  refine ⟨checked.types, checked.fieldNames, fun constant hconstant => ?_, checked.globals⟩
  obtain ⟨v, hv, -, htyped⟩ := checked.constants constant hconstant
  exact ⟨v, hv, htyped⟩

omit [F32Primitives] in
theorem Sample.isWritten : Sample.program.IsWritten := by
  unfold Program.IsWritten
  decide

omit [F32Primitives] in
theorem accepted_resolved_sample : ∃ program', @check softFloat Sample.program = .ok program' ∧
    ∀ constant ∈ program'.constants, ∃ v, constant.value = some v ∧
      v.HasType (structTable program'.structs) constant.ty ∧ v.Finite := by
  obtain ⟨program', h⟩ := Sample.accepted
  exact ⟨program', h, (@accepted_resolved softFloat _ _ Sample.isWritten h).2.2.1⟩

end Accepted

end Speck
