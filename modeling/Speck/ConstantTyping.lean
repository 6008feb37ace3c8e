import Speck.Typing

/-!
# Types of constant values

`ConstantValue.ty` reads the type of a value off its surface. `ConstantValue.HasType` is the
typing all the way down : an array has as many elements as its type says, each of the element
type, and a struct has the fields of its declaration in their order. `demand_typed` says that
a typed initializer only evaluates to values of its type, with every `f32` finite.
-/

namespace Speck

namespace ConstantValue

/-- A value has a type, all the way down. -/
inductive HasType (structs : HashMap StructDecl) : ConstantValue → ValueType → Prop
  | i32 {value} : HasType structs (.i32 value) .i32
  | f32 {value} : HasType structs (.f32 value) .f32
  | bool {value} : HasType structs (.bool value) .bool
  | struct {name fields declaration} : structs.lookup name = some declaration →
    fields.map (·.1) = declaration.fields.map (·.name) →
    (∀ p ∈ fields.zip declaration.fields, HasType structs p.1.2 p.2.ty) →
    HasType structs (.struct name fields) (.struct name)
  | array {element elements} : (∀ v ∈ elements, HasType structs v element) →
    HasType structs (.array element elements) (.array element (.resolved elements.length))

/-- Every `f32` in the value is finite. -/
inductive Finite : ConstantValue → Prop
  | i32 {value} : Finite (.i32 value)
  | f32 {value} : value.isFinite → Finite (.f32 value)
  | bool {value} : Finite (.bool value)
  | struct {name fields} : (∀ p ∈ fields, Finite p.2) → Finite (.struct name fields)
  | array {element elements} : (∀ v ∈ elements, Finite v) → Finite (.array element elements)

theorem HasType.ty_eq {structs : HashMap StructDecl} {v : ConstantValue} {ty : ValueType}
    (h : v.HasType structs ty) : v.ty = ty := by
  cases h <;> rfl

theorem HasType.i32_inv {structs : HashMap StructDecl} {v : ConstantValue}
    (h : v.HasType structs .i32) : ∃ n, v = .i32 n := by
  cases h
  exact ⟨_, rfl⟩

theorem HasType.f32_inv {structs : HashMap StructDecl} {v : ConstantValue}
    (h : v.HasType structs .f32) : ∃ x, v = .f32 x := by
  cases h
  exact ⟨_, rfl⟩

theorem HasType.bool_inv {structs : HashMap StructDecl} {v : ConstantValue}
    (h : v.HasType structs .bool) : ∃ b, v = .bool b := by
  cases h
  exact ⟨_, rfl⟩

theorem lookup_of_zip {fields : List (String × ConstantValue)} {declared : List StructField}
    (hnames : fields.map (·.1) = declared.map (·.name)) {name : String} {field : StructField}
    (hf : declared.find? (·.name == name) = some field) :
    ∃ w, fields.lookup name = some w ∧ ((field.name, w), field) ∈ fields.zip declared := by
  induction declared generalizing fields with
  | nil => simp at hf
  | cons d declared ih =>
    obtain _ | ⟨⟨n, w⟩, fields⟩ := fields
    · simp at hnames
    simp only [List.map_cons, List.cons.injEq] at hnames
    obtain ⟨rfl, hnames⟩ := hnames
    rw [List.find?_cons] at hf
    by_cases hn : d.name = name
    · subst hn
      obtain rfl : d = field := by simpa using hf
      exact ⟨w, by simp, by simp⟩
    · rw [beq_false_of_ne hn] at hf
      obtain ⟨w', hw', hmem⟩ := ih hnames hf
      refine ⟨w', ?_, List.mem_cons_of_mem _ hmem⟩
      rw [List.lookup_cons, beq_false_of_ne (Ne.symm hn)]
      exact hw'

/-- A field of a typed struct has a value of the field's type. -/
theorem HasType.field {structs : HashMap StructDecl} {v : ConstantValue} {structName name : String}
    {declaration : StructDecl} {field : StructField} (h : v.HasType structs (.struct structName))
    (hd : structs.lookup structName = some declaration)
    (hf : declaration.fields.find? (·.name == name) = some field) :
    ∃ fields w, v = .struct structName fields ∧ fields.lookup name = some w ∧
      w.HasType structs field.ty := by
  cases h with
  | struct hd' hnames hfields =>
    obtain rfl := Option.some.inj (hd.symm.trans hd')
    obtain ⟨w, hw, hmem⟩ := lookup_of_zip hnames hf
    exact ⟨_, w, rfl, hw, hfields _ hmem⟩

theorem Finite.field {structName name : String} {fields : List (String × ConstantValue)}
    {w : ConstantValue} (h : (ConstantValue.struct structName fields).Finite) (hw : fields.lookup name = some w) :
    w.Finite := by
  cases h with
  | struct hfields =>
    obtain ⟨l, r, rfl, -⟩ := List.lookup_eq_some_iff.mp hw
    exact hfields (name, w) (by simp)

end ConstantValue

/-! ## Typed operations -/

section Operations

variable {structs : HashMap StructDecl}

/-- A value of the type with only finite `f32`s in it. -/
def ConstantValue.Typed (structs : HashMap StructDecl) (ty : ValueType) (v : ConstantValue) : Prop :=
  v.HasType structs ty ∧ v.Finite

open ConstantValue

theorem unaryValue_typed {op : UnaryOp} {ty result : ValueType} {v w : ConstantValue}
    (hop : op.result ty = some result) (hv : Typed structs ty v)
    (h : unaryValue op v = .ok w) : Typed structs result w := by
  obtain ⟨hv, hfin⟩ := hv
  unfold UnaryOp.result at hop
  split at hop <;> cases hop <;> cases hv
  · simp only [unaryValue, checkedI32] at h
    split at h <;> cases h
    exact ⟨.i32, .i32⟩
  · simp only [unaryValue] at h
    split at h <;> cases h
    exact ⟨.f32, .f32 (by rwa [F32.isFinite_neg])⟩
  · cases h
    exact ⟨.bool, .bool⟩

theorem convertConstant_typed [F32Primitives] {target : NumericType} {v w : ConstantValue} (hfin : v.Finite)
    (h : convertConstant target.val v = .ok w) : Typed structs target.val w := by
  obtain ⟨target, htarget⟩ := target
  cases target <;> cases htarget <;> cases hfin <;> cases h
  · exact ⟨.i32, .i32⟩
  · exact ⟨.i32, .i32⟩
  · exact ⟨.f32, .f32 (F32Primitives.isFinite_ofI32 _)⟩
  · exact ⟨.f32, .f32 ‹_›⟩

theorem checkedI32_typed {overflow : Bool} {value : I32} {w : ConstantValue}
    (h : checkedI32 overflow value = .ok w) : Typed structs .i32 w := by
  unfold checkedI32 at h
  split at h <;> cases h
  exact ⟨.i32, .i32⟩

theorem finiteF32_typed {value : F32} {w : ConstantValue} (h : finiteF32 value = .ok w) :
    Typed structs .f32 w := by
  unfold finiteF32 at h
  split at h <;> cases h
  exact ⟨.f32, .f32 ‹_›⟩

theorem evaluateBinary_typed [F32Primitives] {op : BinaryOp} {ty result : ValueType}
    {l r w : ConstantValue} (hop : op.result ty = some result) (hl : Typed structs ty l)
    (hr : Typed structs ty r) (h : evaluateBinary l op r = .ok w) : Typed structs result w := by
  obtain rfl | rfl | rfl := BinaryOp.scalar_of_result hop
  · obtain ⟨l, rfl⟩ := hl.1.i32_inv
    obtain ⟨r, rfl⟩ := hr.1.i32_inv
    simp only [evaluateBinary] at h
    cases op <;> cases hop <;> simp only [evaluateI32] at h <;>
      first
      | exact checkedI32_typed h
      | (cases h; exact ⟨.bool, .bool⟩)
      | (split at h; · cases h
         exact checkedI32_typed h)
  · obtain ⟨l, rfl⟩ := hl.1.f32_inv
    obtain ⟨r, rfl⟩ := hr.1.f32_inv
    simp only [evaluateBinary] at h
    cases op <;> cases hop <;> simp only [evaluateF32] at h <;>
      first
      | exact finiteF32_typed h
      | (cases h; exact ⟨.bool, .bool⟩)
      | (split at h; · cases h
         exact finiteF32_typed h)
  · obtain ⟨l, rfl⟩ := hl.1.bool_inv
    obtain ⟨r, rfl⟩ := hr.1.bool_inv
    simp only [evaluateBinary] at h
    cases op <;> cases hop <;> simp only [evaluateBool] at h <;> cases h <;> exact ⟨.bool, .bool⟩

theorem eq_ok_of_withSpan {A : Type} {r : Except String A} {span : Span} {a : A}
    (h : withSpan span r = .ok a) : r = .ok a := by
  cases r <;> cases h
  rfl

theorem indexValue_typed {element : ValueType} {length : ℕ} {base index w : ConstantValue}
    {span : Span} (hbase : Typed structs (.array element (.resolved length)) base)
    (h : indexValue base index span = .ok w) : Typed structs element w := by
  obtain ⟨hbase, hfin⟩ := hbase
  cases hbase with
  | array helements =>
    cases hfin with
    | array hfinite =>
      unfold indexValue at h
      cases index with
      | i32 index =>
        simp only at h
        split at h
        · next v hv =>
          cases h
          split at hv
          · have hmem := List.mem_of_getElem? hv
            exact ⟨helements _ hmem, hfinite _ hmem⟩
          · cases hv
        · cases h
      | _ => cases h

theorem fieldValue_typed {structName name : String} {declaration : StructDecl} {field : StructField}
    {base w : ConstantValue} {span : Span} (hbase : Typed structs (.struct structName) base)
    (hd : structs.lookup structName = some declaration)
    (hf : declaration.fields.find? (·.name == name) = some field)
    (h : fieldValue base name span = .ok w) : Typed structs field.ty w := by
  obtain ⟨fields, v, rfl, hv, hty⟩ := hbase.1.field hd hf
  simp only [fieldValue, hv, Except.ok.injEq] at h
  subst h
  exact ⟨hty, hbase.2.field hv⟩

end Operations

/-! ## Typed initializers -/

section Demand

open ConstantValue Demand

variable [F32Primitives] {c : FunctionChecker} {scopes : Scopes}

/-- The answer to a reference has the type of its binding. -/
def GoodAnswer (c : FunctionChecker) (scopes : Scopes) (name : String) (v : ConstantValue) : Prop :=
  ∀ b, c.binding scopes name = some b → v.Typed c.structs b.ty

/-- A typed expression only evaluates to values of its type. -/
def DemandTyped (c : FunctionChecker) (scopes : Scopes) (e : Expr) (ty : ValueType) : Prop :=
  ∀ expected, (∀ ty', expected = some ty' → ty' = ty) →
    (e.demand c.structs expected).Ensures (GoodAnswer c scopes) (Typed c.structs ty)

theorem elementDemands_typed {element : ValueType} {elements : List Expr}
    (h : ∀ e ∈ elements, DemandTyped c scopes e element) :
    (elementDemands c.structs elements (some element)).Ensures (GoodAnswer c scopes)
      fun values => values.length = elements.length ∧ ∀ v ∈ values, v.Typed c.structs element := by
  induction elements with
  | nil => exact ⟨rfl, by simp⟩
  | cons e rest ih =>
    simp only [List.forall_mem_cons] at h
    refine (h.1 _ (by simp)).bind fun v hv => (ih h.2).bind fun values hvalues => ?_
    exact ⟨by simp [hvalues.1], by simpa using ⟨hv, hvalues.2⟩⟩

/-- The values of the declared fields, each from the initializer of its name. -/
theorem fieldDemands_typed {fields : List (FieldInitializer Expr)} {name : String} {span : Span}
    {declared : List StructField}
    (h : ∀ field ∈ declared, ∀ f, initializerOf fields field.name = some f →
      DemandTyped c scopes f.value field.ty) {values : ConstantDemand (List ConstantValue)}
    (hvalues : fieldDemands (initializerDemands c.structs fields) name span declared = .ok values) :
    values.Ensures (GoodAnswer c scopes) fun values => values.length = declared.length ∧
      (∀ v ∈ values, v.Finite) ∧ ∀ p ∈ values.zip declared, p.1.HasType c.structs p.2.ty := by
  induction declared generalizing values with
  | nil =>
    cases hvalues
    exact ⟨rfl, by simp, by simp⟩
  | cons field declared ih =>
    simp only [List.forall_mem_cons] at h
    rw [fieldDemands, lookup_initializerDemands] at hvalues
    cases hf : initializerOf fields field.name with
    | none => simp [hf] at hvalues
    | some f =>
      cases hrest : fieldDemands (initializerDemands c.structs fields) name span declared with
      | error d => simp [hf, hrest, Except.map] at hvalues
      | ok rest =>
        simp only [hf, hrest, Option.map_some, Except.map, Except.ok.injEq] at hvalues
        subst hvalues
        refine (h.1 f hf _ (by simp)).bind fun v hv => (ih h.2 hrest).bind fun values hvalues => ?_
        refine ⟨by simp [hvalues.1], ?_, ?_⟩
        · exact List.forall_mem_cons.mpr ⟨hv.2, hvalues.2.1⟩
        · rw [List.zip_cons_cons, List.forall_mem_cons]
          exact ⟨hv.1, hvalues.2.2⟩

omit [F32Primitives] in
theorem mem_zip_of_mem_zip_zip {declared : List StructField} {values : List ConstantValue}
    {p : (String × ConstantValue) × StructField}
    (h : p ∈ ((declared.map (·.name)).zip values).zip declared) :
    (p.1.2, p.2) ∈ values.zip declared := by
  induction declared generalizing values with
  | nil => simp at h
  | cons field declared ih =>
    cases values with
    | nil => simp at h
    | cons v values =>
      simp only [List.map_cons, List.zip_cons_cons, List.mem_cons] at h ⊢
      rcases h with rfl | h
      · exact .inl rfl
      · exact .inr (ih h)

/-- A typed initializer only evaluates to values of its type : the answers it gets decide its
constants, the checker everything else. -/
theorem demand_typed (hc : c.WellFormed) {e : Expr} {ty : ValueType}
    (h : HasType c scopes e (.value ty)) : DemandTyped c scopes e ty := by
  generalize hr : ReturnType.value ty = r at h
  induction h generalizing ty with
  | i32 =>
    obtain rfl := ReturnType.value.inj hr
    intro expected _
    simp only [Expr.demand]
    split
    · exact ⟨.i32, .i32⟩
    · trivial
  | f32 hfin =>
    obtain rfl := ReturnType.value.inj hr
    intro expected _
    simp only [Expr.demand, hfin, if_true]
    exact ⟨.f32, .f32 hfin⟩
  | bool =>
    obtain rfl := ReturnType.value.inj hr
    exact fun expected _ => ⟨.bool, .bool⟩
  | @arrayLiteral elements span element helements ih =>
    obtain rfl := ReturnType.value.inj hr
    intro expected hexpected
    cases expected with
    | none => trivial
    | some ty' =>
      obtain rfl := hexpected _ rfl
      simp only [Expr.demand, Option.bind_some, ValueType.resolvedArray, ne_eq, not_true, if_false]
      refine (elementDemands_typed fun e he => ih e he rfl).bind fun values hvalues =>
        (ensures_ofExcept (P := fun _ => True) fun _ _ => trivial).bind fun _ _ => ?_
      rw [← hvalues.1]
      exact ⟨.array fun v hv => (hvalues.2 v hv).1, .array fun v hv => (hvalues.2 v hv).2⟩
  | @structLiteral name fields span declaration hd hnodup hdeclared hknown hfields ih =>
    obtain rfl := ReturnType.value.inj hr
    intro expected hexpected
    cases expected with
    | none => trivial
    | some ty' =>
      obtain rfl := hexpected _ rfl
      simp only [Expr.demand, ne_eq, not_true, if_false, hd]
      split
      · trivial
      · next values hvalues =>
        refine (fieldDemands_typed (fun field hfield f hf => ?_) hvalues).bind fun values hvalues =>
          (ensures_ofExcept (P := fun _ => True) fun _ _ => trivial).bind fun _ _ => ?_
        · have hfind := List.find?_some (p := fun g : FieldInitializer Expr => g.name == field.name) hf
          have hname : f.name = field.name := by simpa using hfind
          refine ih f (List.mem_of_find?_eq_some hf) field ?_ rfl
          rw [hname]
          exact find?_name_of_mem (hc.fieldNames hd) hfield
        · obtain ⟨hlen, hfinite, htyped⟩ := hvalues
          refine ⟨.struct hd (List.map_fst_zip (by simp [hlen])) fun p hp => ?_, .struct fun p hp => ?_⟩
          · exact htyped _ (mem_zip_of_mem_zip_zip hp)
          · exact hfinite _ (List.of_mem_zip hp).2
  | var hb =>
    obtain rfl := ReturnType.value.inj hr
    exact fun expected _ v hv => hv _ hb
  | index hnot hbase hindex ihbase ihindex =>
    obtain rfl := ReturnType.value.inj hr
    intro expected _
    refine (ihbase rfl none (by simp)).bind fun base hbase =>
      (ihindex rfl none (by simp)).bind fun index _ => ?_
    exact ensures_ofExcept fun w hw => indexValue_typed hbase hw
  | field hbase hd hf ih =>
    obtain rfl := ReturnType.value.inj hr
    intro expected _
    exact (ih rfl none (by simp)).bind fun base hbase =>
      ensures_ofExcept fun w hw => fieldValue_typed hbase hd hf hw
  | minimum hmin =>
    obtain rfl := ReturnType.value.inj hr
    intro expected _
    simp only [Expr.demand, hmin, decide_true, Bool.and_self, if_true]
    exact ⟨.i32, .i32⟩
  | unary hmin hoperand hop ih =>
    obtain rfl := ReturnType.value.inj hr
    intro expected _
    simp only [Expr.demand, hmin, Bool.false_eq_true, if_false]
    refine (ih rfl none (by simp)).bind fun v hv => ensures_ofExcept fun w hw => ?_
    exact unaryValue_typed hop hv (eq_ok_of_withSpan hw)
  | @binary left op right span ty result hleft hright hop ihleft ihright =>
    obtain rfl := ReturnType.value.inj hr
    intro expected _
    refine (ihleft rfl none (by simp)).bind fun l hl => ?_
    by_cases hlogical : op.isLogical = true
    · obtain ⟨rfl, rfl⟩ := BinaryOp.bool_of_isLogical hlogical hop
      obtain ⟨l, rfl⟩ := hl.1.bool_inv
      simp only [hlogical, if_true]
      split
      · exact ⟨.bool, .bool⟩
      · refine (ihright rfl none (by simp)).bind fun r hr => ?_
        obtain ⟨r, rfl⟩ := hr.1.bool_inv
        exact ⟨.bool, .bool⟩
    · rw [if_neg hlogical]
      refine (ihright rfl none (by simp)).bind fun r hr => ensures_ofExcept fun w hw => ?_
      exact evaluateBinary_typed hop hl hr (eq_ok_of_withSpan hw)
  | call => exact fun expected _ => trivial
  | conversion harg hnumeric ih =>
    obtain rfl := ReturnType.value.inj hr
    intro expected _
    refine (ih rfl none (by simp)).bind fun v hv => ensures_ofExcept fun w hw => ?_
    exact convertConstant_typed hv.2 (eq_ok_of_withSpan hw)

end Demand

end Speck
