import Speck.Bytes
import Speck.DeclaredNames

/-!
# The fast path of the resolver

A single file without imports is not resolved. The general resolver would change nothing :
`check` accepts a program only if every name in it is a local, one of its declarations or a
predefined name, and each of these stays as it is (`fast_path_agrees`). The scopes of the checker
and of the resolver hold the same names at every statement (`Covers`).
-/

set_option linter.unusedSectionVars false

namespace Speck

open Logged

/-! ## Names that stay -/

theorem pure_bind_eq {α β : Type} (a : α) (f : α → Logged β) : (pure a >>= f) = f a := rfl

theorem mapEach_eq {α : Type} {f : α → Logged α} {as : List α} (h : ∀ a ∈ as, f a = pure a) :
    mapEach f as = pure as := by
  induction as with
  | nil => rfl
  | cons a rest ih =>
    obtain ⟨ha, hrest⟩ := List.forall_mem_cons.mp h
    rw [mapEach, ha, ih hrest]
    rfl

namespace Resolver

/-- The resolver leaves a name that is no local as it is. -/
def Stays (r : Resolver) (name : String) : Prop :=
  ∀ scopes span description isLocal, r.name scopes name span description isLocal = pure name

variable {r : Resolver}

theorem stays_of_declared {name : String} (hplain : splitOnce name.toList = none)
    (h : r.own.declarations.lookup name = some name) : r.Stays name := by
  intro scopes span description isLocal
  rw [Resolver.name]
  split
  · rfl
  · simp only [hplain, h]

theorem stays_of_builtin {name : String} (hplain : splitOnce name.toList = none)
    (h : r.own.declarations.lookup name = none) (hbuiltin : isBuiltin name = true) :
    r.Stays name := by
  intro scopes span description isLocal
  rw [Resolver.name]
  split
  · rfl
  · simp only [hplain, h, hbuiltin]
    rfl

theorem name_of_local {scopes : List HashSet} {name : String}
    (h : ∃ scope ∈ scopes, name ∈ scope) (span : Span) (description : String) :
    r.name scopes name span description true = pure name := by
  have hany : (scopes.any fun scope => decide (name ∈ scope)) = true := by simpa using h
  rw [Resolver.name, if_pos (by rw [hany]; rfl)]

/-- What the checker knows stays. -/
structure Keeps (r : Resolver) (c : FunctionChecker) : Prop where
  globals : ∀ {name ty}, c.globals.lookup name = some ty → r.Stays name
  constants : ∀ {name ty}, c.constants.lookup name = some ty → r.Stays name
  structs : ∀ name ∈ c.structs, r.Stays name
  functions : ∀ {name signature}, c.functions.lookup name = some signature → r.Stays name

/-- The locals that the checker knows, the resolver knows. -/
def Sees (locals : List HashSet) (scopes : Scopes) : Prop :=
  ∀ {name b}, lookupScopes scopes name = some b → ∃ scope ∈ locals, name ∈ scope

/-- Scope by scope, the resolver has the names of the checker. -/
def Covers (locals : List HashSet) (scopes : Scopes) : Prop :=
  List.Forall₂ (fun names scope => ∀ name ∈ scope, name ∈ names) locals scopes

theorem sees_empty {locals : List HashSet} : Sees locals [∅] := by
  intro name b hb
  simp [lookupScopes] at hb

theorem Covers.sees {locals : List HashSet} {scopes : Scopes} (h : Covers locals scopes) :
    Sees locals scopes := by
  intro name b hb
  induction h with
  | nil => cases hb
  | @cons names scope _ _ hscope _ ih =>
    rw [lookupScopes, List.findSome?_cons] at hb
    cases hlookup : scope.lookup name with
    | some b' =>
      have hname : name ∈ scope := AList.lookup_isSome.mp (by rw [hlookup]; rfl)
      exact ⟨names, List.mem_cons_self, hscope name hname⟩
    | none =>
      rw [hlookup] at hb
      obtain ⟨scope', hmem, hname⟩ := ih hb
      exact ⟨scope', List.mem_cons_of_mem _ hmem, hname⟩

/-! ## Expressions -/

theorem expressions_eq {locals : List HashSet} {es : List Expr}
    (h : ∀ e ∈ es, r.expression locals e = pure e) : r.expressions locals es = pure es := by
  induction es with
  | nil => rfl
  | cons e rest ih =>
    obtain ⟨he, hrest⟩ := List.forall_mem_cons.mp h
    rw [expressions, he, ih hrest]
    rfl

theorem initializers_eq {locals : List HashSet} {fields : List (FieldInitializer Expr)}
    (h : ∀ f ∈ fields, r.expression locals f.value = pure f.value) :
    r.initializers locals fields = pure fields := by
  induction fields with
  | nil => rfl
  | cons f rest ih =>
    obtain ⟨hf, hrest⟩ := List.forall_mem_cons.mp h
    obtain ⟨name, value, span⟩ := f
    rw [initializers, hf, ih hrest]
    rfl

/-- A variable that is bound stays. -/
theorem variable_eq {c : FunctionChecker} (hkeeps : r.Keeps c) {locals : List HashSet}
    {scopes : Scopes} (hsees : Sees locals scopes) {name : String} {b : Binding}
    (hb : c.binding scopes name = some b) (span : Span) :
    r.name locals name span "variable" true = pure name := by
  rcases FunctionChecker.binding_eq_some hb with h | ⟨-, ⟨ty, hty, -⟩ | ⟨-, ty, hty, -⟩⟩
  · exact name_of_local (hsees h) _ _
  · exact hkeeps.globals hty _ _ _ _
  · exact hkeeps.constants hty _ _ _ _

/-- An expression that is typed stays. -/
theorem expression_eq {c : FunctionChecker} (hkeeps : r.Keeps c) {locals : List HashSet}
    {scopes : Scopes} (hsees : Sees locals scopes) {e : Expr} {ty : ReturnType}
    (h : HasType c scopes e ty) : r.expression locals e = pure e := by
  induction h with
  | i32 | f32 | bool => rfl
  | arrayLiteral _ ih =>
    rw [expression, expressions_eq ih]
    rfl
  | structLiteral hd hnodup hall hdeclared _ ih =>
    have hfields := initializers_eq fun f hf => by
      obtain ⟨field, hfield⟩ := Option.isSome_iff_exists.mp (hdeclared f hf)
      exact ih f hf field hfield
    have hname := hkeeps.structs _ (AList.lookup_isSome.mp (by rw [hd]; rfl))
    rw [expression, hname, pure_bind_eq, hfields]
    rfl
  | @var name span b hb =>
    rw [expression, variable_eq hkeeps hsees hb]
    rfl
  | index _ _ _ ihbase ihindex =>
    rw [expression, ihbase, pure_bind_eq, ihindex]
    rfl
  | field _ _ _ ih =>
    rw [expression, ih]
    rfl
  | @minimum operand span hoperand =>
    cases operand with
    | i32 value span => rfl
    | _ => cases hoperand
  | unary _ _ _ ih =>
    rw [expression, ih]
    rfl
  | binary _ _ _ ihleft ihright =>
    rw [expression, ihleft, pure_bind_eq, ihright]
    rfl
  | @call name args span signature hf hlength _ ih =>
    have hargs := expressions_eq fun e he => by
      obtain ⟨i, hi, rfl⟩ := List.getElem_of_mem he
      have hparam : i < signature.params.length := hlength ▸ hi
      refine ih (args[i], signature.params[i]) (List.mem_iff_getElem.mpr ⟨i, ?_, ?_⟩)
      · rw [List.length_zip]
        exact lt_min hi hparam
      · exact List.getElem_zip
    rw [expression, hkeeps.functions hf, pure_bind_eq, hargs]
    rfl
  | conversion _ _ ih =>
    rw [expression, expressions_eq (List.forall_mem_singleton.mpr ih)]
    rfl

/-- The target of an assignment stays. -/
theorem place_eq {c : FunctionChecker} (hkeeps : r.Keeps c) {locals : List HashSet}
    {scopes : Scopes} (hsees : Sees locals scopes) {e : Expr} {root : Lvalue}
    (h : PlaceTyped c scopes e root) : r.expression locals e = pure e := by
  induction h with
  | @var name span b hb =>
    rw [expression, variable_eq hkeeps hsees hb]
    rfl
  | index _ _ hindex ih =>
    rw [expression, ih, pure_bind_eq, expression_eq hkeeps hsees hindex]
    rfl
  | field _ _ _ _ ih =>
    rw [expression, ih]
    rfl

/-! ## Types -/

/-- The resolver leaves a type as it is. -/
def TypeStays (r : Resolver) (ty : ValueType) : Prop := ∀ span, r.ty span ty = pure ty

/-- A type stays whose structs are known and whose lengths have values. -/
theorem typeStays_of_resolveIn {structs : HashMap StructDecl} (hstructs : ∀ name ∈ structs, r.Stays name)
    {values : String → Option ConstantValue}
    (hvalues : ∀ {name value}, values name = some value → r.Stays name) {ty ty' : ValueType}
    (hresolve : ty.resolveIn values = some ty') (hwf : ty'.WellFormed structs) :
    r.TypeStays ty := by
  induction ty generalizing ty' with
  | struct name =>
    intro span
    obtain rfl := Option.some.inj hresolve
    rw [Resolver.ty, hstructs name hwf]
    rfl
  | array element length ih =>
    rw [ValueType.resolveIn] at hresolve
    split at hresolve
    · next element' length' helement hlength =>
      obtain rfl := Option.some.inj hresolve
      intro span
      have hlengthStays : r.length length = pure length := by
        cases length with
        | constant name span =>
          cases hvalue : values name with
          | none => simp [ArrayLength.resolveIn, ArrayLength.valueIn, hvalue] at hlength
          | some value =>
            rw [Resolver.length, hvalues hvalue]
            rfl
        | _ => rfl
      rw [Resolver.ty, ih helement hwf.1 span, pure_bind_eq, hlengthStays]
      rfl
    · cases hresolve
  | _ => exact fun _ => rfl

/-! ## Statements -/

theorem Covers.push {locals : List HashSet} {scopes : Scopes} (h : Covers locals scopes) :
    Covers ([] :: locals) (∅ :: scopes) :=
  .cons (fun name hname => absurd hname (AList.notMem_empty name)) h

/-- After a declaration, both have the name in the innermost scope. -/
theorem Covers.declare {locals : List HashSet} {scopes : Scopes} (h : Covers locals scopes)
    (name : String) (b : Binding) (ty : ValueType) (init : Expr) (span : Span) :
    Covers (Resolver.declare locals (.letVar name ty init span))
      (FunctionChecker.declare scopes name b) := by
  cases h with
  | nil => exact .nil
  | cons hscope hrest =>
    refine .cons (fun n hn => ?_) hrest
    rcases (AList.mem_insert _).mp hn with rfl | hn
    · exact List.mem_cons_self
    · exact List.mem_cons_of_mem _ (hscope n hn)

section Statements

variable {c : FunctionChecker} (hkeeps : r.Keeps c) {f : ValueType → ValueType}

include hkeeps

mutual

/-- A statement is checked with the lengths of its types replaced, and stays as it was
written. -/
theorem statement_eq : (s : Stmt) → (∀ ty ∈ s.types, r.TypeStays ty) → {locals : List HashSet} →
    {scopes scopes' : Scopes} → Covers locals scopes → StmtTyped c scopes (s.mapTypes f) scopes' →
      r.statement locals s = pure s ∧ Covers (declare locals s) scopes'
  | .letVar name ty init span, htypes, locals, scopes, scopes', hcovers, h => by
    cases h with
    | letVar _ hinit =>
      refine ⟨?_, hcovers.declare ..⟩
      rw [statement, htypes ty (List.mem_singleton.mpr rfl) span, pure_bind_eq,
        expression_eq hkeeps hcovers.sees hinit]
      rfl
  | .assign target op value span, _, locals, scopes, scopes', hcovers, h => by
    cases h with
    | assign htarget _ hvalue _ =>
      refine ⟨?_, hcovers⟩
      rw [statement, place_eq hkeeps hcovers.sees htarget, pure_bind_eq,
        expression_eq hkeeps hcovers.sees hvalue]
      rfl
  | .expr e span, _, locals, scopes, scopes', hcovers, h => by
    cases h with
    | expr _ he =>
      refine ⟨?_, hcovers⟩
      rw [statement, expression_eq hkeeps hcovers.sees he]
      rfl
  | .ifElse condition thenBlock none span, htypes, locals, scopes, scopes', hcovers, h => by
    cases h with
    | ifElse hcondition hthen _ =>
      refine ⟨?_, hcovers⟩
      rw [statement, expression_eq hkeeps hcovers.sees hcondition, pure_bind_eq,
        statements_eq thenBlock (fun ty hty => htypes ty (List.mem_append_left _ hty))
          hcovers.push hthen]
      rfl
  | .ifElse condition thenBlock (some elseBlock) span, htypes, locals, scopes, scopes', hcovers, h => by
    cases h with
    | ifElse hcondition hthen helse =>
      refine ⟨?_, hcovers⟩
      rw [statement, expression_eq hkeeps hcovers.sees hcondition, pure_bind_eq,
        statements_eq thenBlock (fun ty hty => htypes ty (List.mem_append_left _ hty))
          hcovers.push hthen, pure_bind_eq]
      simp only
      rw [statements_eq elseBlock (fun ty hty => htypes ty (List.mem_append_right _ hty))
          hcovers.push (helse _ rfl)]
      rfl
  | .whileLoop condition body span, htypes, locals, scopes, scopes', hcovers, h => by
    cases h with
    | whileLoop hcondition hbody =>
      refine ⟨?_, hcovers⟩
      rw [statement, expression_eq hkeeps hcovers.sees hcondition, pure_bind_eq,
        statements_eq body htypes hcovers.push hbody]
      rfl
  | .forLoop name nameSpan lower upper body span, htypes, locals, scopes, scopes', hcovers, h => by
    cases h with
    | forLoop hlower hupper hbody =>
      have hloop : Covers ([name] :: locals)
          (AList.singleton name ⟨.i32, .loopVariable⟩ :: scopes) :=
        .cons (fun n hn => by simpa [AList.mem_keys] using hn) hcovers
      refine ⟨?_, hcovers⟩
      rw [statement, expression_eq hkeeps hcovers.sees hlower, pure_bind_eq,
        expression_eq hkeeps hcovers.sees hupper, pure_bind_eq, statements_eq body htypes hloop hbody]
      rfl
  | .ret none span, _, locals, scopes, scopes', hcovers, h => by
    cases h with
    | ret => exact ⟨rfl, hcovers⟩
  | .ret (some value) span, _, locals, scopes, scopes', hcovers, h => by
    cases h with
    | retValue _ hvalue =>
      refine ⟨?_, hcovers⟩
      rw [statement, expression_eq hkeeps hcovers.sees hvalue]
      rfl

theorem statements_eq : (block : List Stmt) → (∀ ty ∈ blockTypes block, r.TypeStays ty) →
    {locals : List HashSet} → {scopes : Scopes} → Covers locals scopes →
      BlockTyped c scopes (mapBlockTypes f block) → r.statements locals block = pure block
  | [], _, _, _, _, _ => rfl
  | s :: rest, htypes, locals, scopes, hcovers, h => by
    cases h with
    | cons hs hrest =>
      obtain ⟨hstatement, hcovers'⟩ := statement_eq s
        (fun ty hty => htypes ty (List.mem_append_left _ hty)) hcovers hs
      rw [statements, hstatement, pure_bind_eq, statements_eq rest
        (fun ty hty => htypes ty (List.mem_append_right _ hty)) hcovers' hrest]
      rfl

end

end Statements

/-! ## Declarations -/

section Declarations

/-- The declaration of the name has the name itself. -/
def Declares (r : Resolver) (name : String) : Prop :=
  r.own.declarations.lookup name = some name

theorem Declares.declaredName {name : String} (h : r.Declares name) :
    r.declaredName name = name := by
  rw [Resolver.declaredName, h]
  rfl

theorem struct_eq {declaration : StructDecl} (hname : r.Declares declaration.name)
    (htypes : ∀ ty ∈ declaration.types, r.TypeStays ty) :
    r.struct declaration = pure declaration := by
  have hfields : mapEach (fun field : StructField => do
      let ty ← r.ty field.span field.ty
      return { field with ty }) declaration.fields = pure declaration.fields := by
    refine mapEach_eq fun field hfield => ?_
    rw [htypes field.ty (List.mem_map_of_mem hfield) field.span]
    rfl
  rw [struct, hfields, pure_bind_eq, hname.declaredName]

theorem sound_eq {sound : SoundAsset} (hname : r.Declares sound.name) : r.sound sound = sound := by
  rw [Resolver.sound, hname.declaredName]

theorem constant_eq {constant : Constant} (hname : r.Declares constant.name)
    (hty : r.TypeStays constant.ty) (hinit : r.expression [] constant.init = pure constant.init) :
    r.constant constant = pure constant := by
  rw [Resolver.constant, hty, pure_bind_eq, hinit, pure_bind_eq, hname.declaredName]

theorem global_eq {global : Global} (hname : r.Declares global.name)
    (hty : r.TypeStays global.ty) (hinit : r.expression [] global.init = pure global.init) :
    r.global global = pure global := by
  rw [Resolver.global, hty, pure_bind_eq, hinit, pure_bind_eq, hname.declaredName]

theorem function_eq {c : FunctionChecker} (hkeeps : r.Keeps c) {f : ValueType → ValueType}
    {function : Function} (hname : function.kind = .named → r.Declares function.name)
    (htypes : ∀ ty ∈ function.types, r.TypeStays ty)
    (h : FunctionTyped c (function.mapTypes f)) : r.function function = pure function := by
  simp only [Function.types, List.forall_mem_append] at htypes
  obtain ⟨⟨hparamTypes, hreturnType⟩, hbodyTypes⟩ := htypes
  have hparams : mapEach (fun param : Param => do
      let ty ← r.ty param.span param.ty
      return { param with ty }) function.params = pure function.params := by
    refine mapEach_eq fun param hparam => ?_
    rw [hparamTypes param.ty (List.mem_map_of_mem hparam) param.span]
    rfl
  have hreturn : r.returnType function.span function.returnType = pure function.returnType := by
    cases hr : function.returnType with
    | void => rfl
    | value ty =>
      rw [returnType, hreturnType ty (by simp [hr, ReturnType.types])]
      rfl
  have hscope : Covers [function.params.map (·.name)]
      [paramScope (function.mapTypes f).params] := by
    refine .cons (fun name hname => ?_) .nil
    rw [paramScope, HashMap.mem_ofList] at hname
    simpa [Function.mapTypes, Function.comp_def] using hname
  have hkeeps' : r.Keeps { c with returnType := (function.mapTypes f).returnType } :=
    ⟨hkeeps.globals, hkeeps.constants, hkeeps.structs, hkeeps.functions⟩
  have hbody := statements_eq hkeeps' function.body hbodyTypes hscope h.body
  have hfunctionName :
      (if function.kind = .named then r.declaredName function.name else function.name) =
        function.name := by
    split
    · next hkind => exact (hname hkind).declaredName
    · rfl
  rw [Resolver.function, hparams, pure_bind_eq, hreturn, pure_bind_eq, hbody, pure_bind_eq,
    hfunctionName]

end Declarations

end Resolver

/-! ## The names of a program -/

theorem declareNames_exact {qualifier : String} {declared : List (String × Span)}
    (hnodup : (declared.map (·.1)).Nodup)
    (hbuiltin : ∀ name ∈ declared.map (·.1), isBuiltin name = false)
    {declarations : HashMap String} (hfresh : ∀ name ∈ declared.map (·.1), name ∉ declarations) :
    (declareNames qualifier declarations declared).Clean ∧ ∀ name,
      (declareNames qualifier declarations declared).value.lookup name =
        if name ∈ declared.map (·.1) then some (qualify qualifier name)
        else declarations.lookup name := by
  induction declared generalizing declarations with
  | nil => exact ⟨clean_pure _, fun name => by simp [declareNames]⟩
  | cons item rest ih =>
    obtain ⟨name, span⟩ := item
    simp only [List.map_cons, List.nodup_cons, List.forall_mem_cons] at hnodup hbuiltin hfresh
    have hrest : ∀ n ∈ rest.map (·.1),
        n ∉ declarations.insert name (qualify qualifier name) := fun n hn hmem => by
      rcases (AList.mem_insert _).mp hmem with rfl | hmem
      · exact hnodup.1 hn
      · exact hfresh.2 n hn hmem
    obtain ⟨hclean, hlookup⟩ := ih hnodup.2 hbuiltin.2 hrest
    rw [declareNames]
    refine ⟨?_, fun n => ?_⟩
    · simp only [clean_bind, clean_errorIf, decide_eq_false_iff_not]
      exact ⟨hfresh.1, hbuiltin.1, hclean⟩
    · simp only [bind_value, hlookup, List.map_cons, List.mem_cons]
      by_cases hn : n = name
      · subst hn
        simp [hnodup.1]
      · rw [AList.lookup_insert_ne hn]
        simp only [hn, false_or]

/-- The sounds of a program become constants. -/
theorem names_withSoundConstants {program : Program} {sounds : List SoundAsset}
    (hsounds : sounds.map (·.name) = program.sounds.map (·.name)) :
    (Loader.withSoundConstants { program with sounds }).names.Perm
      (program.declared.map (·.1)) := by
  have hconstants : (sounds.map Loader.soundConstant).map (·.name) =
      program.sounds.map (·.name) := by
    rw [List.map_map, ← hsounds]
    rfl
  simp only [Program.names, Program.declared, Loader.withSoundConstants, List.map_append,
    hconstants, List.map_map, Function.comp_def, Program.namedFunctions, List.append_assoc]
  exact (List.perm_append_comm_assoc _ _ _).append_left _

theorem Program.names_mapTypes (f : ValueType → ValueType) (program : Program) :
    (program.mapTypes f).names = program.names := by
  have hfunctions : (program.functions.map (·.mapTypes f)).filter (·.kind = .named) =
      (program.functions.filter (·.kind = .named)).map (·.mapTypes f) := by
    rw [List.filter_map]
    rfl
  simp only [names, mapTypes, namedFunctions, hfunctions, List.map_map]
  rfl

/-- A predefined name has no path. -/
theorem splitOnce_of_builtin {name : String} (h : isBuiltin name = true) :
    splitOnce name.toList = none := by
  have hfunctions : ∀ function ∈ Builtins.functions, splitOnce function.name.toList = none := by
    decide +kernel
  have hconstants : ∀ constant ∈ Builtins.constants .default,
      splitOnce constant.name.toList = none := by
    decide +kernel
  rw [isBuiltin, Bool.or_eq_true, List.any_eq_true] at h
  rcases h with ⟨function, hmem, heq⟩ | h
  · obtain rfl := eq_of_beq heq
    exact hfunctions function hmem
  · rw [Builtins.isPredefinedConstant, List.any_eq_true] at h
    obtain ⟨constant, hmem, heq⟩ := h
    obtain rfl := eq_of_beq heq
    exact hconstants constant hmem

/-! ## The resolver on one accepted file -/

section Accepted

variable [F32Primitives] {Path : Type} {module : Module Path}

/-- A file that is accepted. `lowered` is its program with constants for its sounds, `resolved` the
same with the values of its lengths, in which the passes of the checker find nothing. -/
structure AcceptedFile (module : Module Path) (lowered resolved : Program) : Prop where
  qualifier : module.qualifier = ""
  imports : module.imports = []
  plain : ∀ name ∈ module.program.declared.map (·.1), splitOnce name.toList = none
  names : lowered.names.Perm (module.program.declared.map (·.1))
  structs : lowered.structs = module.program.structs
  constants : ∀ constant ∈ module.program.constants, constant ∈ lowered.constants
  globals : lowered.globals = module.program.globals
  functions : lowered.functions = module.program.functions
  cache : EarlyCache lowered (earlyEvaluator lowered).cache
  lengths : AllResolve lowered.types (earlyEvaluator lowered).cache
  mapped : resolved =
    lowered.mapTypes (·.resolveOr (earlyEvaluator lowered).cache.values.lookup)
  passes : Passes resolved

/-- The resolver of a module that is alone. -/
def Module.resolver (module : Module Path) : Resolver := ⟨[module.namespace.value], 0⟩

namespace AcceptedFile

variable {lowered resolved : Program} (h : AcceptedFile module lowered resolved)

include h

theorem mem_names {name : String} :
    name ∈ resolved.names ↔ name ∈ module.program.declared.map (·.1) := by
  rw [h.mapped, Program.names_mapTypes]
  exact h.names.mem_iff

theorem nodup : (module.program.declared.map (·.1)).Nodup := by
  have hnodup := h.passes.names_nodup
  rw [h.mapped, Program.names_mapTypes] at hnodup
  exact h.names.nodup_iff.mp hnodup

theorem not_builtin : ∀ name ∈ module.program.declared.map (·.1), isBuiltin name = false := by
  intro name hname
  have hfresh := h.passes.names_fresh name (h.mem_names.mpr hname)
  rw [← AList.lookup_isSome, lookup_predefinedNames] at hfresh
  rw [Bool.eq_false_iff]
  intro hbuiltin
  rw [isBuiltin, Bool.or_eq_true, Builtins.isPredefinedConstant_iff (r := resolved.resolution)]
    at hbuiltin
  rcases hbuiltin with hfunction | hconstant
  · obtain ⟨function, hmem, heq⟩ := List.any_eq_true.mp hfunction
    refine hfresh ?_
    rw [if_pos (c := name ∈ Builtins.functions.map (·.name))
      (List.mem_map.mpr ⟨function, hmem, eq_of_beq heq⟩)]
    split <;> rfl
  · rw [if_pos hconstant] at hfresh
    exact hfresh rfl

theorem namespace_exact : module.namespace.Clean ∧
    ∀ name, module.namespace.value.declarations.lookup name =
      if name ∈ module.program.declared.map (·.1) then some name else none := by
  obtain ⟨hclean, hlookup⟩ := @declareNames_exact module.qualifier _ h.nodup h.not_builtin ∅
    fun name _ => AList.notMem_empty name
  have haliases : ∀ declarations : HashMap String,
      declareAliases declarations ∅ module.imports = pure ∅ := by
    rw [h.imports]
    exact fun _ => rfl
  rw [Module.namespace]
  simp only [clean_bind, haliases, bind_value]
  refine ⟨⟨hclean, clean_pure _, clean_pure _⟩, fun name => (hlookup name).trans ?_⟩
  rw [qualify, h.qualifier]
  rfl

theorem declares {name : String} (hname : name ∈ module.program.declared.map (·.1)) :
    module.resolver.Declares name := by
  have := h.namespace_exact.2 name
  rwa [if_pos hname] at this

theorem stays {name : String} (hname : name ∈ resolved.names) : module.resolver.Stays name :=
  Resolver.stays_of_declared (h.plain name (h.mem_names.mp hname))
    (h.declares (h.mem_names.mp hname))

theorem stays_of_builtin {name : String} (hbuiltin : isBuiltin name = true) :
    module.resolver.Stays name := by
  refine Resolver.stays_of_builtin (splitOnce_of_builtin hbuiltin) ?_ hbuiltin
  refine (h.namespace_exact.2 name).trans (if_neg fun hname => ?_)
  rw [h.not_builtin name hname] at hbuiltin
  cases hbuiltin

theorem struct_stays {name : String} (hname : name ∈ structTable resolved.structs) :
    module.resolver.Stays name := by
  obtain ⟨declaration, hdeclaration⟩ := Option.isSome_iff_exists.mp (AList.lookup_isSome.mpr hname)
  obtain ⟨hmem, rfl⟩ := lookup_structTable hdeclaration
  refine h.stays ?_
  simp only [Program.names, List.mem_append]
  exact .inl (.inl (.inl (List.mem_map_of_mem hmem)))

/-- Every name that the checker of the functions knows stays. -/
theorem keeps (values : HashMap ConstantValue) :
    module.resolver.Keeps (resolved.checker values) where
  globals hty := by
    obtain ⟨global, hglobal, rfl, -⟩ := lookup_globalTypes hty
    exact h.stays (global_mem_names hglobal)
  constants hty := by
    rcases lookup_constantTypes hty with ⟨constant, hconstant, rfl, -⟩ | ⟨item, hitem, rfl, -⟩
    · exact h.stays (constant_mem_names hconstant)
    · refine h.stays_of_builtin ?_
      rw [isBuiltin, Builtins.isPredefinedConstant_iff.mpr (List.mem_map_of_mem hitem),
        Bool.or_true]
  structs _ hname := h.struct_stays hname
  functions hsignature := by
    rcases lookup_signatures hsignature with ⟨function, hfunction, rfl, -⟩ | ⟨builtin, hmem, rfl, -⟩
    · refine h.stays ?_
      simp only [Program.names, List.mem_append]
      exact .inr (List.mem_map_of_mem hfunction)
    · refine h.stays_of_builtin ?_
      rw [isBuiltin, List.any_eq_true.mpr ⟨builtin, hmem, beq_self_eq_true builtin.name⟩, Bool.true_or]

/-- A name that is a length has a value in the early phase, so it is a constant. -/
theorem length_stays {name : String} {value : ConstantValue}
    (hvalue : (earlyEvaluator lowered).cache.values.lookup name = some value) :
    module.resolver.Stays name := by
  obtain ⟨t, ht, -⟩ := Demand.computes_iff.mp (h.cache.values hvalue)
  rw [earlySystem, lengthSystem] at ht
  split at ht
  · next v hv =>
    obtain ⟨item, hitem, rfl, -⟩ := lookup_predefinedValues hv
    refine h.stays_of_builtin ?_
    rw [isBuiltin, Builtins.isPredefinedConstant_iff.mpr (List.mem_map_of_mem hitem),
      Bool.or_true]
  · obtain ⟨definition, hdefinition, -⟩ := Option.map_eq_some_iff.mp ht
    obtain ⟨constant, hconstant, rfl, -⟩ := lookup_constantDefinitions hdefinition
    refine h.stays ?_
    rw [h.mapped, Program.names_mapTypes]
    exact constant_mem_names hconstant

/-- Every type that is written stays. -/
theorem type_stays : ∀ ty ∈ module.program.types, module.resolver.TypeStays ty := by
  intro ty hty
  have hmem : ty ∈ lowered.types := by
    simp only [Program.types, h.structs, h.globals, h.functions, List.mem_append,
      List.mem_map] at hty ⊢
    rcases hty with ((hty | ⟨constant, hconstant, rfl⟩) | hty) | hty
    · exact .inl (.inl (.inl hty))
    · exact .inl (.inl (.inr ⟨constant, h.constants constant hconstant, rfl⟩))
    · exact .inl (.inr hty)
    · exact .inr hty
  obtain ⟨ty', hty'⟩ := Option.isSome_iff_exists.mp (h.lengths ty hmem)
  refine Resolver.typeStays_of_resolveIn (fun name => h.struct_stays) h.length_stays hty'
    (h.passes.types ty' ?_)
  rw [h.mapped, Program.types_mapTypes]
  refine List.mem_map.mpr ⟨ty, hmem, ?_⟩
  rw [ValueType.resolveOr, hty', Option.getD_some]

/-- The resolver leaves the program as it is. -/
theorem program_eq : module.resolver.program module.program = pure module.program := by
  have hdeclares : ∀ name ∈ module.program.declared.map (·.1), module.resolver.Declares name :=
    fun name => h.declares
  simp only [Program.declared, List.map_append, List.map_map, List.forall_mem_append,
    List.forall_mem_map, Function.comp_apply] at hdeclares
  obtain ⟨⟨⟨⟨hstructs, hsounds⟩, hconstants⟩, hglobals⟩, hfunctions⟩ := hdeclares
  have htypes := h.type_stays
  simp only [Program.types, List.forall_mem_append, List.forall_mem_flatMap,
    List.forall_mem_map] at htypes
  obtain ⟨⟨⟨hstructTypes, hconstantTypes⟩, hglobalTypes⟩, hfunctionTypes⟩ := htypes
  have hstruct := mapEach_eq fun declaration hmem =>
    Resolver.struct_eq (hstructs declaration hmem) (hstructTypes declaration hmem)
  have hconstant := mapEach_eq fun constant hmem =>
    Resolver.constant_eq (hconstants constant hmem) (hconstantTypes constant hmem) <| by
      have hinit := h.passes.constants (constant.mapTypes _) (by
        rw [h.mapped]
        exact List.mem_map_of_mem (h.constants constant hmem))
      exact Resolver.expression_eq (h.keeps _) Resolver.sees_empty hinit
  have hglobal := mapEach_eq fun global hmem =>
    Resolver.global_eq (hglobals global hmem) (hglobalTypes global hmem) <| by
      have hinit := h.passes.globals (global.mapTypes _) (by
        rw [h.mapped]
        exact List.mem_map_of_mem (h.globals ▸ hmem))
      exact Resolver.expression_eq (h.keeps _) Resolver.sees_empty hinit
  have hfunction := mapEach_eq fun function hmem =>
    Resolver.function_eq (h.keeps _) (fun hkind => hfunctions function (by simp [hmem, hkind]))
      (hfunctionTypes function hmem) (h.passes.functions (function.mapTypes _) (by
        rw [h.mapped]
        exact List.mem_map_of_mem (h.functions ▸ hmem)))
  have hsound : module.program.sounds.map module.resolver.sound = module.program.sounds := by
    refine (List.map_congr_left fun sound hmem => ?_).trans (List.map_id _)
    exact Resolver.sound_eq (hsounds sound hmem)
  rw [Resolver.program, hstruct, pure_bind_eq, hconstant, pure_bind_eq, hglobal, pure_bind_eq,
    hfunction, pure_bind_eq, hsound]

end AcceptedFile

/-- The general case of `resolve`. -/
def resolveAll (modules : List (Module Path)) : Except (List Diagnostic) (List (Module Path)) :=
  let namespaces := mapEach Module.namespace modules
  if namespaces.diagnostics ≠ [] then .error namespaces.diagnostics
  else
    let resolved := mapEach (resolveModule namespaces.value) modules.zipIdx
    if resolved.diagnostics ≠ [] then .error resolved.diagnostics else .ok resolved.value

omit [F32Primitives] in
theorem resolve_eq (modules : List (Module Path)) :
    resolve modules = if isSingle modules then .ok modules else resolveAll modules := rfl

/-- A file that `check` accepts alone is accepted as the passes see it. -/
theorem acceptedFile_of_check (hqualifier : module.qualifier = "") (himports : module.imports = [])
    (hplain : ∀ name ∈ module.program.declared.map (·.1), splitOnce name.toList = none)
    (hwritten : module.program.IsWritten) {sounds : List SoundAsset}
    (hsounds : sounds.map (·.name) = module.program.sounds.map (·.name)) {checked : Program}
    (hcheck : check (Loader.withSoundConstants { module.program with sounds }) = .ok checked) :
    ∃ resolved, AcceptedFile module (Loader.withSoundConstants { module.program with sounds })
      resolved := by
  have hlowered : (Loader.withSoundConstants { module.program with sounds }).IsWritten := by
    intro ty hty
    simp only [Loader.withSoundConstants, Program.types, List.map_append, List.mem_append,
      List.map_map] at hty
    rcases hty with ((hty | hty | hty) | hty) | hty
    · exact hwritten ty (by simp only [Program.types, List.mem_append]; tauto)
    · exact hwritten ty (by simp only [Program.types, List.mem_append]; tauto)
    · obtain ⟨sound, -, rfl⟩ := List.mem_map.mp hty
      rfl
    · exact hwritten ty (by simp only [Program.types, List.mem_append]; tauto)
    · exact hwritten ty (by simp only [Program.types, List.mem_append]; tauto)
  obtain ⟨hcache, hlengths, resolved, hmapped, hresolved, hclean, -⟩ := check_passes hlowered hcheck
  exact ⟨resolved, hqualifier, himports, hplain, names_withSoundConstants hsounds, rfl,
    fun constant hmem => List.mem_append_left _ hmem, rfl, rfl, hcache, hlengths, hmapped,
    (checkResolved_passes hresolved hclean).1⟩

/-- The general resolver leaves an accepted file as it is, without a diagnostic. -/
theorem resolveAll_accepted {lowered resolved : Program}
    (h : AcceptedFile module lowered resolved) : resolveAll [module] = .ok [module] := by
  have hnamespaces : (mapEach Module.namespace [module]).diagnostics = [] := by
    have hclean : (mapEach Module.namespace [module]).Clean := by
      simp only [mapEach, clean_bind]
      exact ⟨h.namespace_exact.1, ⟨clean_pure _, clean_pure _⟩⟩
    exact hclean
  have hvalue : (mapEach Module.namespace [module]).value = [module.namespace.value] := rfl
  have hmodules : mapEach (resolveModule [module.namespace.value]) [module].zipIdx =
      pure [module] := by
    have hmodule : resolveModule [module.namespace.value] (module, 0) = pure module := by
      rw [resolveModule]
      exact congrArg (fun x => x >>= _) h.program_eq
    rw [List.zipIdx_cons, List.zipIdx_nil, mapEach, hmodule]
    rfl
  rw [resolveAll, if_neg (not_not_intro hnamespaces), hvalue, hmodules]
  rfl

/-- The fast path agrees with the general resolver. A file without imports is lexed and parsed, gets
the handles and samples of its sounds, and is checked without being resolved : if `check` accepts
it, the general resolver leaves the module as it is, without a diagnostic. -/
theorem fast_path_agrees {source : Text} {id : SourceId} {tokens : List Token}
    (hlex : lexTextIn source id = .ok tokens) {program : Program}
    (hparse : parseFile tokens true [] = .ok program) {sounds : List SoundAsset}
    (hsounds : sounds.map (·.name) = program.sounds.map (·.name)) {checked : Program}
    (hcheck : check (Loader.withSoundConstants { program with sounds }) = .ok checked)
    (directory : Path) :
    resolveAll [⟨program, [], "", directory⟩] = .ok [⟨program, [], "", directory⟩] := by
  obtain ⟨hwritten, hplain⟩ := parseFile_plain hlex hparse
  obtain ⟨resolved, h⟩ := @acceptedFile_of_check _ _ ⟨program, [], "", directory⟩ rfl rfl hplain
    hwritten _ hsounds _ hcheck
  exact resolveAll_accepted h

end Accepted

theorem exists_of_isOk {ε α : Type} {x : Except ε α} (h : x.isOk = true) : ∃ a, x = .ok a := by
  cases x with
  | ok a => exact ⟨a, rfl⟩
  | error e => cases h

/-- A game with a sound, whose handle is the value of a global. -/
def Sample.text : Text :=
  "game \"\" sound hit = \"a\" let a: i32 = hit start {} update(t: f32) {} draw {}".toList

/-- The handle of the only sound. -/
def Sample.loaded (program : Program) : Program :=
  Loader.withSoundConstants
    { program with sounds := program.sounds.map fun sound => { sound with handle := 1 } }

theorem Sample.text_accepted :
    (do
      let tokens ← lexTextIn Sample.text ⟨0⟩
      let program ← parseFile tokens true []
      @check softFloat (Sample.loaded program)).isOk = true := by
  decide +kernel

theorem fast_path_agrees_sample : ∃ tokens program, lexTextIn Sample.text ⟨0⟩ = .ok tokens ∧
    parseFile tokens true [] = .ok program ∧
    resolveAll [(⟨program, [], "", ()⟩ : Module Unit)] = .ok [⟨program, [], "", ()⟩] := by
  obtain ⟨checked, haccepted⟩ := exists_of_isOk Sample.text_accepted
  obtain ⟨tokens, hlex, haccepted⟩ := bind_ok_iff.mp haccepted
  obtain ⟨program, hparse, hcheck⟩ := bind_ok_iff.mp haccepted
  have hsounds : (program.sounds.map fun sound => { sound with handle := 1 }).map (·.name) =
      program.sounds.map (·.name) := by
    rw [List.map_map]
    rfl
  exact ⟨tokens, program, hlex, hparse,
    @fast_path_agrees softFloat Unit _ _ _ hlex _ hparse _ hsounds _ hcheck ()⟩

end Speck
