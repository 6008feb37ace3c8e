import Speck.CheckedProgram

/-!
# The early phase and the final constants

Array lengths are evaluated before anything is checked, over types that are prepared for one
constant at a time. `resolveLengths_agree` says that in an accepted program both phases
agree : a length is the value that its constant has in the end, the types prepared for a
constant are those of the checked program, and so is its value.
-/

namespace Speck

open Demand

/-! ## What a type reaches -/

/-- A type is made of the struct, directly or through the fields of other structs. -/
inductive Reaches (structs : HashMap StructDecl) : ValueType → String → Prop
  | here {ty name} : ty.structName = some name → Reaches structs ty name
  | field {ty name declaration field name'} : Reaches structs ty name →
    structs.lookup name = some declaration → field ∈ declaration.fields →
    field.ty.structName = some name' → Reaches structs ty name'

theorem Reaches.of_field {structs : HashMap StructDecl} {name name' : String}
    {declaration : StructDecl} {field : StructField} (hd : structs.lookup name = some declaration)
    (hf : field ∈ declaration.fields) (h : Reaches structs field.ty name') :
    Reaches structs (.struct name) name' := by
  induction h with
  | here hname => exact .field (.here rfl) hd hf hname
  | field _ hd' hf' hname ih => exact .field ih hd' hf' hname

theorem Reaches.of_structName_eq {structs : HashMap StructDecl} {ty ty' : ValueType} {name : String}
    (heq : ty.structName = ty'.structName) (h : Reaches structs ty name) :
    Reaches structs ty' name := by
  induction h with
  | here hname => exact .here (heq ▸ hname)
  | field _ hd hf hname ih => exact .field ih hd hf hname

/-- Two tables agree on everything that a type reaches. -/
def AgreeOn (structs structs' : HashMap StructDecl) (ty : ValueType) : Prop :=
  ∀ name, Reaches structs ty name → structs.lookup name = structs'.lookup name

/-! ### Evaluation looks at what its type reaches -/

section Congruence

variable [F32Primitives] {structs structs' : HashMap StructDecl}

variable (structs structs') in
theorem elementDemands_congr (elements : List Expr) (expected : Option ValueType)
    (h : ∀ e ∈ elements, e.demand structs expected = e.demand structs' expected) :
    elementDemands structs elements expected = elementDemands structs' elements expected := by
  induction elements with
  | nil => rfl
  | cons e rest ih =>
    simp only [List.forall_mem_cons] at h
    simp only [elementDemands, h.1, ih h.2]

variable (structs structs') in
theorem fieldDemands_congr {fields : List (FieldInitializer Expr)} (name : String) (span : Span)
    {declared : List StructField} (h : ∀ f ∈ fields, ∀ field ∈ declared,
      f.value.demand structs (some field.ty) = f.value.demand structs' (some field.ty)) :
    fieldDemands (initializerDemands structs fields) name span declared =
      fieldDemands (initializerDemands structs' fields) name span declared := by
  induction declared with
  | nil => rfl
  | cons field rest ih =>
    simp only [List.forall_mem_cons] at h
    have hrest := ih fun f hf => (h f hf).2
    rw [fieldDemands, fieldDemands, lookup_initializerDemands, lookup_initializerDemands, hrest]
    cases hinit : initializerOf fields field.name with
    | none => rfl
    | some f =>
      have hf := (h f (List.mem_of_find?_eq_some hinit)).1
      simp only [Option.map_some, hf]

/-- An expression is evaluated the same over tables that agree on the type expected of it. -/
theorem demand_congr (e : Expr) (expected : Option ValueType)
    (h : ∀ ty, expected = some ty → AgreeOn structs structs' ty) :
    e.demand structs expected = e.demand structs' expected := by
  induction e generalizing expected with
  | arrayLiteral elements span ih =>
    simp only [Expr.demand]
    cases hexpected : expected.bind ValueType.resolvedArray with
    | none => rfl
    | some p =>
      obtain ⟨element, length⟩ := p
      obtain ⟨ty, rfl, hty⟩ := Option.bind_eq_some_iff.mp hexpected
      obtain rfl := ValueType.eq_of_resolvedArray hty
      have helements := elementDemands_congr structs structs' elements (some element)
        fun e he => ih e he _ fun ty hty => by
          obtain rfl := Option.some.inj hty
          exact fun name hname => h _ rfl name (hname.of_structName_eq (by rfl))
      simp only [helements]
  | structLiteral name fields span ih =>
    simp only [Expr.demand]
    split
    · next expectedName =>
      split
      · rfl
      · next heq =>
        obtain rfl : name = expectedName := not_not.mp heq
        have hlookup := h _ rfl name (.here rfl)
        rw [← hlookup]
        cases hd : structs.lookup name with
        | none => rfl
        | some declaration =>
          have hfields := fieldDemands_congr structs structs' name span
            fun f hf field hfield =>
              ih f hf _ fun ty hty => by
                obtain rfl := Option.some.inj hty
                exact fun n hn => h _ rfl n (.of_field hd hfield hn)
          simp only [hfields]
    · rfl
  | index base index span ihbase ihindex =>
    simp only [Expr.demand, ihbase none (by simp),
      ihindex none (by simp)]
  | field base name nameSpan span ih => simp only [Expr.demand, ih none (by simp)]
  | unary op operand span ih => simp only [Expr.demand, ih none (by simp)]
  | binary left op right span ihleft ihright =>
    simp only [Expr.demand, ihleft none (by simp),
      ihright none (by simp)]
  | conversion target args span ih =>
    obtain _ | ⟨arg, _ | ⟨arg', rest⟩⟩ := args
    · rfl
    · simp only [Expr.demand, ih arg List.mem_cons_self none (by simp)]
    · rfl
  | _ => rfl

end Congruence

/-! ## What is prepared for a constant -/

/-- The declarations collected are closed : they are declarations of the program, and they
contain the struct of every field of theirs. -/
structure Collected (declarations structs : HashMap StructDecl) (seen : HashSet)
    (pending : List ValueType) : Prop where
  declared : ∀ {name declaration}, structs.lookup name = some declaration →
    declarations.lookup name = some declaration
  collected : ∀ name ∈ seen, ∀ declaration, declarations.lookup name = some declaration →
    structs.lookup name = some declaration
  closed : ∀ name ∈ seen, ∀ declaration, declarations.lookup name = some declaration →
    ∀ field ∈ declaration.fields, ∀ name', field.ty.structName = some name' →
      name' ∈ seen ∨ ∃ ty ∈ pending, ty.structName = some name'

/-- A pending type whose struct was seen is done with. -/
theorem Collected.tail {declarations structs : HashMap StructDecl} {seen : HashSet}
    (ty : ValueType) {pending : List ValueType}
    (h : Collected declarations structs seen (ty :: pending))
    (hty : ∀ name, ty.structName = some name → name ∈ seen) :
    Collected declarations structs seen pending where
  declared := h.declared
  collected := h.collected
  closed name hname declaration hd field hfield name' hname' := by
    rcases h.closed name hname declaration hd field hfield name' hname' with hseen | ⟨ty', hty', heq⟩
    · exact .inl hseen
    · rcases List.mem_cons.mp hty' with rfl | hty'
      · exact .inl (hty name' heq)
      · exact .inr ⟨ty', hty', heq⟩

/-- A name without a declaration is seen. -/
theorem Collected.undeclared {declarations structs : HashMap StructDecl} {seen : HashSet}
    {ty : ValueType} {pending : List ValueType} {name : String}
    (h : Collected declarations structs seen (ty :: pending)) (hname : ty.structName = some name)
    (hnone : declarations.lookup name = none) :
    Collected declarations structs (name :: seen) pending := by
  refine Collected.tail ty ⟨h.declared, ?_, ?_⟩ fun name' hty => ?_
  · rintro n hn d hd
    rcases List.mem_cons.mp hn with rfl | hn
    · exact absurd hd (by simp [hnone])
    · exact h.collected n hn d hd
  · rintro n hn d hd field hfield name' hname'
    rcases List.mem_cons.mp hn with rfl | hn
    · exact absurd hd (by simp [hnone])
    · exact (h.closed n hn d hd field hfield name' hname').imp_left (List.mem_cons_of_mem _)
  · obtain rfl := Option.some.inj (hname.symm.trans hty)
    exact List.mem_cons_self

/-- A declaration is collected, and its fields are pending. -/
theorem Collected.insert {declarations structs : HashMap StructDecl} {seen : HashSet}
    {ty : ValueType} {pending : List ValueType} {name : String} {declaration : StructDecl}
    (h : Collected declarations structs seen (ty :: pending)) (hname : ty.structName = some name)
    (hnew : name ∉ seen) (hd : declarations.lookup name = some declaration) :
    Collected declarations (structs.insert name declaration) (name :: seen)
      (declaration.fields.map (·.ty) ++ pending) := by
  refine Collected.tail ty ⟨fun {n d} hlookup => ?_, ?_, ?_⟩ fun name' hty => ?_
  · by_cases hn : n = name
    · subst hn
      rw [AList.lookup_insert] at hlookup
      exact hd.trans hlookup
    · rw [AList.lookup_insert_ne hn] at hlookup
      exact h.declared hlookup
  · rintro n hn d hlookup
    rcases List.mem_cons.mp hn with rfl | hn
    · rw [AList.lookup_insert]
      exact hd.symm.trans hlookup
    · rw [AList.lookup_insert_ne fun heq : n = name => hnew (heq ▸ hn)]
      exact h.collected n hn d hlookup
  · rintro n hn d hlookup field hfield name' hname'
    rcases List.mem_cons.mp hn with rfl | hn
    · obtain rfl := Option.some.inj (hd.symm.trans hlookup)
      exact .inr ⟨field.ty, by simp only [List.mem_cons, List.mem_append, List.mem_map]
                               exact .inr (.inl ⟨field, hfield, rfl⟩), hname'⟩
    · rcases h.closed n hn d hlookup field hfield name' hname' with hseen | ⟨ty', hty', heq⟩
      · exact .inl (List.mem_cons_of_mem _ hseen)
      · refine .inr ⟨ty', ?_, heq⟩
        rcases List.mem_cons.mp hty' with rfl | hty'
        · exact List.mem_cons_self
        · exact List.mem_cons_of_mem _ (List.mem_append_right _ hty')
  · obtain rfl := Option.some.inj (hname.symm.trans hty)
    exact List.mem_cons_self

/-- The worklist ends with the declarations of everything it saw. -/
theorem collect_spec (declarations : HashMap StructDecl) (pending : List ValueType) (seen : HashSet)
    (structs : HashMap StructDecl) (lengths : List ArrayLength)
    (h : Collected declarations structs seen pending) :
    ∃ seen', Collected declarations
        (PreparedTypes.collect declarations pending seen structs lengths).1 seen' [] ∧
      (∀ name ∈ seen, name ∈ seen') ∧
      ∀ ty ∈ pending, ∀ name, ty.structName = some name → name ∈ seen' := by
  induction pending, seen, structs, lengths using PreparedTypes.collect.induct declarations with
  | case1 seen structs lengths =>
    rw [PreparedTypes.collect]
    exact ⟨seen, h, fun _ => id, by simp⟩
  | case2 seen structs lengths ty pending lengths' hname ih =>
    obtain ⟨seen', hcollected, hseen, hpending⟩ := ih (h.tail ty fun name hty => by simp [hname] at hty)
    rw [PreparedTypes.collect]
    simp only [hname]
    refine ⟨seen', hcollected, hseen, List.forall_mem_cons.mpr ⟨fun name hty => ?_, hpending⟩⟩
    simp [hname] at hty
  | case3 seen structs lengths ty pending lengths' name hname hmem ih =>
    obtain ⟨seen', hcollected, hseen, hpending⟩ := ih (h.tail ty fun name' hty => by
      obtain rfl := Option.some.inj (hname.symm.trans hty)
      exact hmem)
    rw [PreparedTypes.collect]
    simp only [hname, if_pos hmem]
    refine ⟨seen', hcollected, hseen, List.forall_mem_cons.mpr ⟨fun name' hty => ?_, hpending⟩⟩
    obtain rfl := Option.some.inj (hname.symm.trans hty)
    exact hseen name hmem
  | case4 seen structs lengths ty pending lengths' name hname hmem hlookup ih =>
    obtain ⟨seen', hcollected, hseen, hpending⟩ := ih (h.undeclared hname hlookup)
    rw [PreparedTypes.collect]
    simp only [hname, if_neg hmem]
    split
    · refine ⟨seen', hcollected, fun n hn => hseen n (List.mem_cons_of_mem _ hn),
        List.forall_mem_cons.mpr ⟨fun name' hty => ?_, hpending⟩⟩
      obtain rfl := Option.some.inj (hname.symm.trans hty)
      exact hseen name List.mem_cons_self
    · next hsome => simp [hlookup] at hsome
  | case5 seen structs lengths ty pending lengths' name hname hmem declaration hlookup ih =>
    obtain ⟨seen', hcollected, hseen, hpending⟩ := ih (h.insert hname hmem hlookup)
    rw [PreparedTypes.collect]
    simp only [hname, if_neg hmem]
    split
    · next hnone => simp [hlookup] at hnone
    · next d hd =>
      obtain rfl := Option.some.inj (hlookup.symm.trans hd)
      refine ⟨seen', hcollected, fun n hn => hseen n (List.mem_cons_of_mem _ hn),
        List.forall_mem_cons.mpr ⟨fun name' hty => ?_,
          fun ty hty => hpending ty (List.mem_append_right _ hty)⟩⟩
      obtain rfl := Option.some.inj (hname.symm.trans hty)
      exact hseen name List.mem_cons_self

/-! ## What is prepared, in the end -/

section Prepared

variable {definitions : HashMap ConstantDefinition} {cache : ConstantValues}

theorem run_lengthDemand {length length' : ArrayLength} (h : length.isWritten)
    (hrun : run cache.lookup (lengthDemand definitions length) = .done length') :
    ∃ n, length' = .resolved n ∧ length.resolveIn cache.values.lookup = some n := by
  cases length with
  | literal value span =>
    rw [lengthDemand, run_bind_eq_done] at hrun
    obtain ⟨n, hn, hlength⟩ := hrun
    cases hpositive : positiveArrayLength value span with
    | error d => simp [hpositive, run] at hn
    | ok m =>
      simp only [hpositive, ofExcept_ok, pure_eq, run, Halt.done.injEq] at hn hlength
      subst hn
      exact ⟨m, hlength.symm, resolveIn_of_positive rfl hpositive⟩
  | constant name span =>
    simp only [lengthDemand, run_bind_eq_done] at hrun
    obtain ⟨-, -, value, hvalue, i, hi, n, hn, hlength⟩ := hrun
    rw [run] at hvalue
    split at hvalue
    · next v hv =>
      cases hvalue
      cases value with
      | i32 v =>
        cases hi
        cases hpositive : positiveArrayLength i.toInt span with
        | error d => simp [hpositive, run] at hn
        | ok m =>
          simp only [hpositive, ofExcept_ok, pure_eq, run, Halt.done.injEq] at hn hlength
          subst hn
          refine ⟨m, hlength.symm, resolveIn_of_positive ?_ hpositive⟩
          simp [ArrayLength.valueIn, ConstantValues.lookup_eq_ok.mp hv]
      | _ => cases hi
    · cases hvalue
  | resolved | invalid => cases h

/-- A prepared type is the type with the lengths of the cache. -/
theorem run_typeDemand {ty ty' : ValueType} (h : ty.isWritten)
    (hrun : run cache.lookup (typeDemand definitions ty) = .done ty') :
    ty.resolveIn cache.values.lookup = some ty' := by
  induction ty generalizing ty' with
  | array element length ih =>
    obtain ⟨hlength, helement⟩ := Bool.and_eq_true_iff.mp h
    simp only [typeDemand, run_bind_eq_done] at hrun
    obtain ⟨element', hrunElement, length', hrunLength, heq⟩ := hrun
    obtain ⟨n, rfl, hn⟩ := run_lengthDemand hlength hrunLength
    cases heq
    simp [ValueType.resolveIn, ih helement hrunElement, hn]
  | _ =>
    cases hrun
    rfl

theorem run_fieldTypeDemands {fields fields' : List StructField}
    (h : ∀ field ∈ fields, field.ty.isWritten)
    (hrun : run cache.lookup (fieldTypeDemands definitions fields) = .done fields') :
    fields' = fields.map fun field => { field with ty := field.ty.resolveOr cache.values.lookup } := by
  induction fields generalizing fields' with
  | nil =>
    cases hrun
    rfl
  | cons field rest ih =>
    simp only [List.forall_mem_cons] at h
    simp only [fieldTypeDemands, run_bind_eq_done] at hrun
    obtain ⟨ty, hty, rest', hrest, heq⟩ := hrun
    cases heq
    rw [List.map_cons, ih h.2 hrest, ValueType.resolveOr, run_typeDemand h.1 hty]
    rfl

/-- A prepared table is the table with its types replaced. -/
theorem run_structDemands {entries entries' : List (Sigma fun _ : String => StructDecl)}
    (h : ∀ entry ∈ entries, ∀ ty ∈ entry.2.types, ty.isWritten)
    (hrun : run cache.lookup (structDemands definitions entries) = .done entries') (name : String) :
    List.dlookup name entries' =
      (List.dlookup name entries).map (·.mapTypes (·.resolveOr cache.values.lookup)) := by
  induction entries generalizing entries' with
  | nil =>
    cases hrun
    rfl
  | cons entry rest ih =>
    obtain ⟨key, declaration⟩ := entry
    simp only [List.forall_mem_cons] at h
    simp only [structDemands, run_bind_eq_done] at hrun
    obtain ⟨fields, hfields, rest', hrest, heq⟩ := hrun
    cases heq
    have hfields := run_fieldTypeDemands (fun field hfield => h.1 _ (List.mem_map_of_mem hfield)) hfields
    by_cases hkey : key = name
    · subst hkey
      simp [StructDecl.mapTypes, hfields]
    · rw [List.dlookup_cons_ne _ _ (Ne.symm hkey), List.dlookup_cons_ne _ _ (Ne.symm hkey)]
      exact ih h.2 hrest

@[simp] theorem structName_resolveOr (values : String → Option ConstantValue) (ty : ValueType) :
    (ty.resolveOr values).structName = ty.structName := by
  unfold ValueType.resolveOr
  cases hty : ty.resolveIn values with
  | none => rfl
  | some ty' =>
    rw [Option.getD_some]
    induction ty generalizing ty' with
    | array element length ih =>
      rw [ValueType.resolveIn] at hty
      split at hty
      · next element' length' helement hlength =>
        cases hty
        exact ih element' helement
      · cases hty
    | _ =>
      cases hty
      rfl

/-- What a table reaches after a collection was collected. -/
theorem Collected.mem_of_reaches {declarations structs table : HashMap StructDecl} {seen : HashSet}
    {values : String → Option ConstantValue} (h : Collected declarations structs seen [])
    (htable : ∀ name, table.lookup name =
      (declarations.lookup name).map (·.mapTypes (·.resolveOr values)))
    {ty : ValueType} (hty : ∀ name, ty.structName = some name → name ∈ seen) {name : String}
    (hreaches : Reaches table ty name) : name ∈ seen := by
  induction hreaches with
  | here hname => exact hty _ hname
  | field _ hd hmem hname ih =>
    rw [htable, Option.map_eq_some_iff] at hd
    obtain ⟨declaration, hd, rfl⟩ := hd
    obtain ⟨field, hfield, rfl⟩ := List.mem_map.mp hmem
    rw [structName_resolveOr] at hname
    simpa using h.closed _ ih declaration hd field hfield _ hname

/-- What the preparation of a type ends with : the type with its lengths, and a table that has
the declarations of everything the type reaches. -/
theorem run_prepared {declarations : HashMap StructDecl} {ty ty' : ValueType}
    {entries : List (Sigma fun _ : String => StructDecl)} (hty : ty.isWritten)
    (hdeclarations : ∀ {name declaration}, declarations.lookup name = some declaration →
      ∀ ty ∈ declaration.types, ty.isWritten)
    (hrun : run cache.lookup ((PreparedTypes.new ty declarations).demand definitions) =
      .done (ty', entries)) :
    ty.resolveIn cache.values.lookup = some ty' ∧
      ∀ table : HashMap StructDecl, (∀ name, table.lookup name =
        (declarations.lookup name).map (·.mapTypes (·.resolveOr cache.values.lookup))) →
        AgreeOn table entries.toAList ty' := by
  simp only [PreparedTypes.demand, PreparedTypes.new, Bool.false_eq_true, if_false,
    run_bind_eq_done] at hrun
  obtain ⟨-, -, ty'', hrunTy, entries', hrunStructs, heq⟩ := hrun
  cases heq
  have hresolved := run_typeDemand hty hrunTy
  obtain ⟨seen, hcollected, -, hseen⟩ := collect_spec declarations [ty] [] ∅ []
    ⟨by simp, by simp, by simp⟩
  revert hcollected hrunStructs
  generalize (PreparedTypes.collect declarations [ty] [] ∅ []).1 = structs
  intro hrunStructs hcollected
  have hlookup := run_structDemands (fun entry hentry => hdeclarations (hcollected.declared
    (List.mem_dlookup structs.nodupKeys hentry))) hrunStructs
  refine ⟨hresolved, fun table htable name hreaches => ?_⟩
  have hname : name ∈ seen := by
    refine hcollected.mem_of_reaches htable (fun n hn => ?_) hreaches
    have hsame := structName_resolveOr cache.values.lookup ty
    rw [ValueType.resolveOr, hresolved, Option.getD_some] at hsame
    exact hseen ty (List.mem_singleton_self ty) n (hsame ▸ hn)
  rw [htable, AList.lookup_to_alist, hlookup]
  congr 1
  cases hd : declarations.lookup name with
  | some declaration => exact (hcollected.collected name hname declaration hd).symm
  | none =>
    symm
    rw [Option.eq_none_iff_forall_ne_some]
    intro declaration hd'
    exact absurd (hcollected.declared hd') (by simp [hd])

end Prepared

/-! ### Preparations of the pass -/

section Preparing

variable [F32Primitives] (program : Program)

/-- A preparation for a constant of the early phase : new, or resumed against a cache that the
phase had on its way. -/
inductive Preparing (definition : ConstantDefinition) : PreparedTypes → Prop
  | new : Preparing definition (.new definition.ty (structTable program.structs))
  | resume {types cache} : Preparing definition types → EarlyCache program cache →
    cache.Extends (earlyEvaluator program).cache →
    Preparing definition (types.resume (constantDefinitions program.constants) cache).1

variable {program}

/-- Resuming leaves what the preparation ends with. -/
theorem Preparing.run_eq {definition : ConstantDefinition} {types : PreparedTypes}
    {p : ValueType × List (Sigma fun _ : String => StructDecl)}
    (h : Preparing program definition types)
    (hrun : run (earlyEvaluator program).cache.lookup
      ((PreparedTypes.new definition.ty (structTable program.structs)).demand
        (constantDefinitions program.constants)) = .done p) :
    run (earlyEvaluator program).cache.lookup
      (types.demand (constantDefinitions program.constants)) = .done p := by
  induction h with
  | new => exact hrun
  | @resume types cache _ _ hext ih =>
    have hle : ∀ n s v, cache.lookup n s = .ok v →
        (earlyEvaluator program).cache.lookup n s = .ok v := fun n s v hv =>
      ConstantValues.lookup_eq_ok.mpr (hext.values (ConstantValues.lookup_eq_ok.mp hv))
    have hresume := resume_prepared (constantDefinitions program.constants) cache types
    have hans := run_answered cache.lookup (types.demand (constantDefinitions program.constants))
    revert hresume hans
    cases run cache.lookup (types.demand (constantDefinitions program.constants)) with
    | done q =>
      rintro ⟨types', heq, hty, hentries, hready⟩ hans
      rw [hans.run_eq hle] at ih
      rw [heq, PreparedTypes.demand, if_pos hready, hty, hentries]
      exact ih
    | fail d =>
      rintro - hans
      rw [hans.run_eq hle] at ih
      cases ih
    | stop n s k e =>
      rintro ⟨-, hleft⟩ ⟨hans, -⟩
      rw [hans.run_eq hle] at ih
      rw [hleft]
      exact ih

/-- A preparation that is ready has what its constant ends with. -/
theorem Preparing.eq_of_ready {definition : ConstantDefinition} {types : PreparedTypes}
    {ty : ValueType} {entries : List (Sigma fun _ : String => StructDecl)}
    (h : Preparing program definition types) (hready : types.ready = true)
    (hrun : run (earlyEvaluator program).cache.lookup
      ((PreparedTypes.new definition.ty (structTable program.structs)).demand
        (constantDefinitions program.constants)) = .done (ty, entries)) :
    types.ty = ty ∧ types.structs.entries = entries := by
  have heq := h.run_eq hrun
  rw [PreparedTypes.demand, if_pos hready] at heq
  cases heq
  exact ⟨rfl, rfl⟩

end Preparing

/-! ## The constants of the early phase -/

/-- The declared types of the constants, replaced. -/
theorem lookup_constantDefinitions_mapTypes (f : ValueType → ValueType) (constants : List Constant)
    (name : String) : (constantDefinitions (constants.map (·.mapTypes f))).lookup name =
      ((constantDefinitions constants).lookup name).map
        fun definition => { definition with ty := f definition.ty } := by
  rw [constantDefinitions, constantDefinitions, ← HashMap.lookup_ofList_map, List.map_map,
    List.map_map]
  rfl

theorem lookup_structTable_mapTypes (f : ValueType → ValueType) (structs : List StructDecl)
    (name : String) : (structTable (structs.map (·.mapTypes f))).lookup name =
      ((structTable structs).lookup name).map (·.mapTypes f) := by
  rw [structTable, structTable, ← HashMap.lookup_ofList_map, List.map_map, List.map_map]
  rfl

/-- The value that a name has as a constant of the program : a predefined value, or the final
value of a declared constant. -/
def Program.constantValue (program : Program) (name : String) : Option ConstantValue :=
  match (predefinedValues program.resolution).lookup name with
  | some v => some v
  | none => (program.constants.find? (·.name == name)).bind (·.value)

section Agreement

variable [F32Primitives] {program : Program} {checked : CheckedProgram}

/-- The checked program is the program with the lengths of the early phase. -/
structure Agreed (program : Program) (checked : CheckedProgram) : Prop where
  written : program.IsWritten
  cache : EarlyCache program (earlyEvaluator program).cache
  resolve : AllResolve program.types (earlyEvaluator program).cache
  same : checked.program.withoutValues = (program.mapTypes
    (·.resolveOr (earlyEvaluator program).cache.values.lookup)).withoutValues

namespace Agreed

theorem resolution_eq (h : Agreed program checked) :
    checked.program.resolution = program.resolution := by
  have hsame := congrArg Program.resolution h.same
  exact hsame

theorem types_eq (h : Agreed program checked) : checked.program.types =
    program.types.map (·.resolveOr (earlyEvaluator program).cache.values.lookup) := by
  rw [← Program.types_withoutValues, h.same, Program.types_withoutValues, Program.types_mapTypes]

theorem lookup_structs (h : Agreed program checked) (name : String) :
    (structTable checked.program.structs).lookup name =
      ((structTable program.structs).lookup name).map
        (·.mapTypes (·.resolveOr (earlyEvaluator program).cache.values.lookup)) := by
  rw [← lookup_structTable_mapTypes]
  exact congrArg (fun p : Program => (structTable p.structs).lookup name) h.same

theorem lookup_definitions (h : Agreed program checked) (name : String) :
    (constantDefinitions checked.program.constants).lookup name =
      ((constantDefinitions program.constants).lookup name).map fun definition =>
        { definition with
          ty := definition.ty.resolveOr (earlyEvaluator program).cache.values.lookup } := by
  rw [← lookup_constantDefinitions_mapTypes, ← Program.constantDefinitions_withoutValues, h.same,
    Program.constantDefinitions_withoutValues]
  rfl

theorem written_constant (h : Agreed program checked) {constant : Constant}
    (hconstant : constant ∈ program.constants) : constant.ty.isWritten := by
  refine h.written _ ?_
  simp only [Program.types, List.mem_append]
  exact .inl (.inl (.inr (List.mem_map_of_mem hconstant)))

theorem written_struct (h : Agreed program checked) {declaration : StructDecl}
    (hd : declaration ∈ program.structs) : ∀ ty ∈ declaration.types, ty.isWritten := by
  refine fun ty hty => h.written _ ?_
  simp only [Program.types, List.mem_append, List.mem_flatMap]
  exact .inl (.inl (.inl ⟨declaration, hd, hty⟩))

/-- What the early evaluation of a declared constant went through. -/
theorem run_early (h : Agreed program checked) {name : String} {v : ConstantValue}
    {definition : ConstantDefinition}
    (hv : (earlyEvaluator program).cache.values.lookup name = some v)
    (hpredefined : (predefinedValues program.resolution).lookup name = none)
    (hd : (constantDefinitions program.constants).lookup name = some definition) :
    ∃ ty entries, run (earlyEvaluator program).cache.lookup
        ((PreparedTypes.new definition.ty (structTable program.structs)).demand
          (constantDefinitions program.constants)) = .done (ty, entries) ∧
      run (earlyEvaluator program).cache.lookup
        (definition.init.demand entries.toAList (some ty)) = .done v ∧ v.ty = ty := by
  have hcomputes := h.cache.values hv
  obtain ⟨t, ht, hyields⟩ := computes_iff.mp hcomputes
  have hrun := run_of_yields h.cache.soundLookup (fun m s hm => by
    have hdemands : Demands (earlySystem program) name m := ⟨t, ht, hm⟩
    obtain ⟨w, hw⟩ := hcomputes.of_demands hdemands
    have hknown : (earlyEvaluator program).cache.Known name :=
      ConstantValues.known_iff.mpr (.inl ⟨v, hv⟩)
    exact ⟨w, ConstantValues.lookup_eq_ok.mpr
      ((h.cache.computes_iff (h.cache.closed hknown hdemands)).mpr hw)⟩) hyields
  simp only [earlySystem, lengthSystem, hpredefined, hd, Option.map_some, Option.some.injEq] at ht
  subst ht
  simp only [LengthEvaluation.demand, LengthEvaluation.new, Option.getD_none, run_bind_eq_done] at hrun
  obtain ⟨⟨ty, entries⟩, htypes, value, hvalue, hvalidate⟩ := hrun
  simp only [demand_new] at hvalue
  unfold validateConstantType at hvalidate
  split at hvalidate
  · next hty =>
    cases hvalidate
    exact ⟨ty, entries, htypes, hvalue, hty⟩
  · cases hvalidate

/-- A name with an early value has the value in the checked program. -/
theorem computes (h : Agreed program checked) {name : String} {v : ConstantValue}
    (hv : (earlyEvaluator program).cache.values.lookup name = some v) :
    Computes checked.program.constantSystem name v := by
  have hacc := (h.cache.values hv).acc
  induction hacc generalizing v with
  | intro name _ ih =>
    cases hpredefined : (predefinedValues program.resolution).lookup name with
    | some w =>
      obtain rfl := Option.some.inj (hv.symm.trans (h.cache.predefined hpredefined))
      refine .intro ?_ (.done v)
      simp only [Program.constantSystem, constantSystem, h.resolution_eq, hpredefined]
    | none =>
      obtain ⟨t, ht, -⟩ := computes_iff.mp (h.cache.values hv)
      have hearly := ht
      simp only [earlySystem, lengthSystem, hpredefined, Option.map_eq_some_iff] at ht
      obtain ⟨definition, hd, rfl⟩ := ht
      obtain ⟨ty, entries, htypes, hinit, rfl⟩ := h.run_early hv hpredefined hd
      obtain ⟨constant, hconstant, rfl, rfl⟩ := lookup_constantDefinitions hd
      obtain ⟨hresolve, hagree⟩ := run_prepared (h.written_constant hconstant)
        (fun hd => h.written_struct (lookup_structTable hd).1) htypes
      -- the checked definition expects the prepared type over a table that agrees with the prepared one
      have hty : constant.ty.resolveOr (earlyEvaluator program).cache.values.lookup = v.ty := by
        rw [ValueType.resolveOr, hresolve]
        rfl
      have hcongr := demand_congr constant.init (some v.ty) fun ty hty => by
        cases hty
        exact hagree (structTable checked.program.structs) h.lookup_structs
      have hsystem : checked.program.constantSystem constant.name = some (constantDemand
          checked.program.globalTypes [] constant.name ⟨v.ty, constant.init, constant.span⟩
          (constant.init.demand (structTable checked.program.structs) (some v.ty))) := by
        simp only [Program.constantSystem, constantSystem, h.resolution_eq, hpredefined,
          h.lookup_definitions, hd, Option.map_some, hty]
      refine .intro hsystem ?_
      rw [constantDemand, if_neg List.not_mem_nil, hcongr]
      refine yields_bind_of_run h.cache.soundLookup hinit ?_ fun m w hm hw => ?_
      · simp only [validateConstantType, if_true, ofExcept_ok]
        exact .done v
      · have hdemands : Demands (earlySystem program) constant.name m := by
          refine ⟨_, hearly, .bind_right h.cache.soundLookup htypes (.bind_left ?_)⟩
          simp only [LengthEvaluation.new, Option.getD_none, demand_new]
          exact hm
        have hknown := h.cache.closed (ConstantValues.known_iff.mpr (.inl ⟨v, hv⟩)) hdemands
        have hm := ih m hdemands ((h.cache.computes_iff hknown).mpr hw)
        exact ⟨fun s => if_neg (notMem_globalTypes checked.names_nodup checked.names_fresh hm), hm⟩

end Agreed

/-! ## Lengths and final values -/

omit [F32Primitives] in
theorem resolveIn_mono {values values' : String → Option ConstantValue}
    (h : ∀ name v, values name = some v → values' name = some v) {ty ty' : ValueType}
    (hty : ty.resolveIn values = some ty') : ty.resolveIn values' = some ty' := by
  induction ty generalizing ty' with
  | array element length ih =>
    rw [ValueType.resolveIn] at hty
    split at hty
    · next element' n helement hlength =>
      cases hty
      have hlength' : length.resolveIn values' = some n := by
        cases length with
        | constant name span =>
          simp only [ArrayLength.resolveIn, ArrayLength.valueIn] at hlength ⊢
          cases hv : values name with
          | none => simp [hv] at hlength
          | some v =>
            rw [h name v hv]
            simpa only [hv] using hlength
        | _ => exact hlength
      rw [ValueType.resolveIn, ih helement, hlength']
    · cases hty
  | _ => exact hty

theorem constantValue_of_computes {name : String} {v : ConstantValue}
    (h : Computes checked.program.constantSystem name v) :
    checked.program.constantValue name = some v := by
  obtain ⟨t, ht, -⟩ := computes_iff.mp h
  rw [Program.constantSystem, constantSystem] at ht
  cases hpredefined : (predefinedValues checked.program.resolution).lookup name with
  | some w =>
    have hw := checked.computes (checked.predefined hpredefined)
    simp only [Program.constantValue, hpredefined, hw.unique h]
  | none =>
    simp only [hpredefined] at ht
    simp only [Program.constantValue, hpredefined]
    obtain ⟨definition, hdefinition, -⟩ := Option.map_eq_some_iff.mp ht
    obtain ⟨constant, hconstant, rfl, -⟩ := lookup_constantDefinitions hdefinition
    obtain ⟨w, hvalue, hlookup, -⟩ := checked.constants constant hconstant
    obtain rfl := (checked.computes hlookup).unique h
    rw [find?_key_of_mem (fun c : Constant => c.name) (constants_nodup checked.names_nodup) hconstant]
    exact hvalue

/-- Every length of an accepted program is the value that its constant has in the end, between
1 and `i32::MAX`; and a constant that the early phase evaluated has in the checked program the
value it had there, and the type and the declarations that were prepared for it. -/
theorem array_lengths_agree {program program' : Program} (hwritten : program.IsWritten)
    (h : check program = .ok program') :
    List.Forall₂ (fun ty ty' => ty.resolveIn program'.constantValue = some ty' ∧ ty'.IsResolved)
        program.types program'.types ∧
      ∀ name v, (earlyEvaluator program).cache.values.lookup name = some v →
        program'.constantValue name = some v ∧
        ∀ definition, (constantDefinitions program.constants).lookup name = some definition →
          ∃ constant ∈ program'.constants, constant.name = name ∧
            (∃ types, Preparing program definition types ∧ types.ready = true) ∧
            ∀ types, Preparing program definition types → types.ready = true →
              types.ty = constant.ty ∧
                AgreeOn (structTable program'.structs) types.structs constant.ty := by
  obtain ⟨checked, rfl, hcache, hresolve, hsame⟩ := check_spec hwritten h
  have hagreed : Agreed program checked := ⟨hwritten, hcache, hresolve, hsame⟩
  have hvalue : ∀ name v, (earlyEvaluator program).cache.values.lookup name = some v →
      checked.program.constantValue name = some v :=
    fun name v hv => constantValue_of_computes (hagreed.computes hv)
  refine ⟨?_, fun name v hv => ⟨hvalue name v hv, fun definition hd => ?_⟩⟩
  · rw [hagreed.types_eq, List.forall₂_map_right_iff, List.forall₂_same]
    intro ty hty
    obtain ⟨ty', hty'⟩ := Option.isSome_iff_exists.mp (hresolve ty hty)
    rw [ValueType.resolveOr, hty', Option.getD_some]
    exact ⟨resolveIn_mono hvalue hty', ValueType.isResolved_of_resolveIn hty'⟩
  · have hfinal := hagreed.lookup_definitions name
    rw [hd, Option.map_some] at hfinal
    obtain ⟨constant, hconstant, rfl, heq⟩ := lookup_constantDefinitions hfinal
    obtain ⟨written, hwrittenMem, -, rfl⟩ := lookup_constantDefinitions hd
    have hpredefined : (predefinedValues program.resolution).lookup constant.name = none := by
      rw [← hagreed.resolution_eq]
      exact lookup_predefinedValues_eq_none.mpr
        (notMem_predefined checked.names_fresh (constant_mem_names hconstant))
    obtain ⟨ty, entries, htypes, -, -⟩ := hagreed.run_early hv hpredefined hd
    obtain ⟨hty, hagree⟩ := run_prepared (hagreed.written_constant hwrittenMem)
      (fun hd => hagreed.written_struct (lookup_structTable hd).1) htypes
    have hconstantTy : constant.ty = ty := by
      have := congrArg ConstantDefinition.ty heq
      rw [ValueType.resolveOr, hty] at this
      exact this.symm
    refine ⟨constant, hconstant, rfl, ?_, fun types htypesPreparing hready => ?_⟩
    · have hresume := resume_prepared (constantDefinitions program.constants)
        (earlyEvaluator program).cache
        (PreparedTypes.new written.ty (structTable program.structs))
      rw [htypes] at hresume
      obtain ⟨types, hresult, -, -, hready⟩ := hresume
      have hpreparing : Preparing program ⟨written.ty, written.init, written.span⟩ _ :=
        Preparing.resume .new hcache (.refl _)
      refine ⟨_, hpreparing, ?_⟩
      rw [hresult]
      exact hready
    · obtain ⟨rfl, rfl⟩ := htypesPreparing.eq_of_ready hready htypes
      refine ⟨hconstantTy.symm, ?_⟩
      rw [hconstantTy]
      have hagree := hagree _ hagreed.lookup_structs
      rwa [toAList_entries] at hagree

omit [F32Primitives] in
theorem array_lengths_agree_sample : ∃ program', @check softFloat Sample.program = .ok program' ∧
    List.Forall₂ (fun ty ty' => ty.resolveIn program'.constantValue = some ty' ∧ ty'.IsResolved)
      Sample.program.types program'.types := by
  obtain ⟨program', h⟩ := Sample.accepted
  exact ⟨program', h, (@array_lengths_agree softFloat _ _ Sample.isWritten h).1⟩

end Agreement

end Speck
