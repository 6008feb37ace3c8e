import Speck.LocatedLines

/-!
# Expressions of a development build

The emitter of a function emits for a plain build what it emits for a development build, but the
reports : those of a typed expression are its checks in the order of evaluation
(`HasType.simulates`).
-/

set_option linter.unusedSectionVars false

namespace Speck

namespace Emitter

open EmbeddedData (intText i32Text RuntimeDiagnostics)

namespace FunctionEmitter

/-- The emitter of the function for a plain build. -/
def plain (f : FunctionEmitter) : FunctionEmitter := { f with diagnostics := .plain }

/-- An emitter for a development build with the files. No function that it can call has the name of the
report. -/
structure Locating (f : FunctionEmitter) (sources : List (Text × Text)) : Prop where
  diagnostics : f.diagnostics = .located (sources.map fun source => .add source.1 source.2)
  symbols : ∀ {name signature}, f.functions.lookup name = some signature → ∀ rest,
    isLocationLine ("  call void ".toList ++ (signature.symbol ++ '(' :: rest)) = false

variable {f : FunctionEmitter} {sources : List (Text × Text)} {locals : Locals} {span : Span}
  {checks checks' : List (Check × Span)}

/-! ## Failures -/

/-- The report of a span in a development build. -/
theorem location_reports (hf : f.Locating sources) {s s' : State} {parts : Option (List Part)}
    (h : location f.diagnostics span s = some (parts, s')) : s' = s ∧ ∃ report, parts = some report ∧
      Reports sources span (Line.instruction ⟨none, report⟩).write := by
  rw [hf.diagnostics, location] at h
  cases hsource : sources[span.source.id]? with
  | none =>
    rw [List.getElem?_map, hsource] at h
    cases h
  | some source =>
    obtain ⟨path, text⟩ := source
    rw [List.getElem?_map, hsource, Option.map_some, expect_bind rfl] at h
    obtain ⟨before, left, right, after, hline⟩ := SourceLocation.exists_lineAt
      (SourceLocation.floorBoundary_spec text (min span.start text.utf8Len)).1
    rw [expect_bind (hline.location path)] at h
    obtain ⟨rfl, rfl⟩ := Prod.mk.inj (Option.some.inj h)
    refine ⟨rfl, _, rfl, path, text, before, left, right, after, hsource, hline, ?_⟩
    simp [Line.write, Instruction.write, Part.write]

theorem failureBlock_simulates (hf : f.Locating sources) {check : Check} {number : ℕ}
    {call : List Part} (arguments : Text)
    (hcall : (Line.instruction ⟨none, call⟩).write = failureCall check arguments) :
    Simulates sources locals (Reporting locals [(check, span)])
      (f.failureBlock (.numbered (check.stage ++ "_failure") number) span call)
      (f.plain.failureBlock (.numbered (check.stage ++ "_failure") number) span call) := by
  intro opening s lines' reported hlocals hrelated _ t hrun
  set block : Label := .numbered (check.stage ++ "_failure") number
  let s₁ : State := { s with
    lines := s.lines ++ [.label block], currentBlock := block, terminated := false }
  change ((f.reportLocation span s₁).bind fun p =>
    some ((), ({ p.2 with
      lines := p.2.lines ++ [.instruction ⟨none, call⟩] ++ [.terminator ⟨none, ["unreachable"]⟩]
      terminated := true } : State))) = _ at hrun
  obtain ⟨⟨_, s₂⟩, hreport, hrun⟩ := Option.bind_eq_some_iff.mp hrun
  obtain ⟨⟨parts, s₃⟩, hlocation, hreport⟩ := Option.bind_eq_some_iff.mp hreport
  obtain ⟨rfl, report, rfl, hreports⟩ := location_reports hf hlocation
  obtain ⟨-, rfl⟩ := Prod.mk.inj (Option.some.inj hreport)
  obtain ⟨rfl, rfl⟩ := Prod.mk.inj (Option.some.inj hrun)
  have hlocates : Locates sources [(check, span)]
      (([.label block, .instruction ⟨none, report⟩, .instruction ⟨none, call⟩,
        .terminator ⟨none, ["unreachable"]⟩] : List Line).map Line.write)
      (([.label block, .instruction ⟨none, call⟩, .terminator ⟨none, ["unreachable"]⟩] :
        List Line).map Line.write) := by
    simp only [List.map_cons, List.map_nil, hcall]
    exact .failure hreports
  refine ⟨lines' ++ [.label block, .instruction ⟨none, call⟩, .terminator ⟨none, ["unreachable"]⟩],
    [(check, span)], ?_, ?_, hlocals, rfl⟩
  · change some _ = some _
    simp [s₁]
  · simpa [s₁] using hrelated.append hlocates

theorem boundsCheck_simulates (hf : f.Locating sources) (index : Operand) (length : ℕ) :
    Simulates sources locals (Reporting locals [(.bounds, span)])
      (f.boundsCheck index length span) (f.plain.boundsCheck index length span) := by
  refine .seq (.define _) fun nonnegative => .seq (.define _) fun belowLength => ?_
  refine .seq (.define _) fun valid => .label fun validNumber => .label fun failureNumber => ?_
  refine .seq (.terminate rfl) fun _ => ?_
  have hcall : (Line.instruction ⟨none, ["call void @crumb_bounds_fail(i32 ", index, ", i32 ",
      decimalText length, ")"]⟩).write = failureCall .bounds ("(i32 ".toList ++ index.write ++
        ", i32 ".toList ++ decimalText length ++ [')']) := by
    unfold failureCall Check.hook Line.write Instruction.write
    simp [Part.write]
  refine .after (failureBlock_simulates hf _ hcall) fun _ => ?_
  exact .last (.placeLabel rfl) fun _ => ⟨rfl, rfl⟩

/-! ## Parts of expressions -/

/-- A value of the type, behind the reports of the checks. -/
def Valued (locals : Locals) (r : ReturnType) (checks : List (Check × Span)) :
    Value → Locals → List (Check × Span) → Prop :=
  fun value locals' reported => locals' = locals ∧ value.ty = r ∧ reported = checks

/-- A place of the type, behind the reports of the checks, or no place and no report. -/
def Placed (locals : Locals) (ty : ValueType) (checks : List (Check × Span)) :
    Option Variable → Locals → List (Check × Span) → Prop :=
  fun place locals' reported => locals' = locals ∧
    ((∃ p, place = some p ∧ p.ty = ty ∧ reported = checks) ∨ place = none ∧ reported = [])

theorem valueType_simulates {β : Type} {Q : β → Locals → List (Check × Span) → Prop} {value : Value}
    {ty : ValueType} (hty : value.ty = .value ty) {k k' : ValueType → EmitM β}
    (h : Simulates sources locals Q (k ty) (k' ty)) :
    Simulates sources locals Q (valueType value >>= k) (valueType value >>= k') := by
  refine .expect fun ty' hty' => ?_
  rw [hty] at hty'
  obtain rfl := Option.some.inj hty'
  exact h

theorem load_simulates (place : Variable) :
    Simulates sources locals (Valued locals (.value place.ty) []) (load place) (load place) :=
  .expect fun _ _ => .seq (.define _) fun _ => .pure ⟨rfl, rfl, rfl⟩

theorem store_simulates (ty : ValueType) (value pointer : Operand) :
    Simulates sources locals (Reporting locals []) (store ty value pointer) (store ty value pointer) :=
  .expect fun _ _ => .instruction rfl

theorem elementPointer_simulates (hf : f.Locating sources) {index index' : EmitM Value}
    {r : ReturnType} (hindex : Simulates sources locals (Valued locals r checks) index index')
    (base : Operand) (arrayType : Text) (element : ValueType) (length : ℕ) :
    Simulates sources locals (fun place locals' reported => locals' = locals ∧
        place.ty = element ∧ reported = checks ++ [(.bounds, span)])
      (f.elementPointer base arrayType element length index span)
      (f.plain.elementPointer base arrayType element length index' span) := by
  refine .bind hindex fun index _ _ ⟨hlocals, _, hreported⟩ => ?_
  subst hlocals hreported
  exact .after (boundsCheck_simulates hf _ _) fun _ => .seq (.define _) fun _ =>
    .pure ⟨rfl, rfl, by simp⟩

theorem indexLvalue_simulates (hf : f.Locating sources) {base base' : EmitM (Option Variable)}
    {index index' : EmitM Value} {element : ValueType} {length : ℕ} {r : ReturnType}
    (hbase : Simulates sources locals (Placed locals (.array element (.resolved length)) checks)
      base base')
    (hindex : Simulates sources locals (Valued locals r checks') index index') :
    Simulates sources locals (Placed locals element (checks ++ (checks' ++ [(.bounds, span)])))
      (f.indexLvalue base index span) (f.plain.indexLvalue base' index' span) := by
  refine .bind hbase fun place _ _ ⟨hlocals, hplace⟩ => ?_
  subst hlocals
  rcases hplace with ⟨place, rfl, hty, rfl⟩ | ⟨rfl, rfl⟩
  · simp only [hty, ValueType.resolvedArray]
    refine .expect fun _ _ => .bind (elementPointer_simulates hf hindex _ _ _ _) ?_
    rintro place _ _ ⟨rfl, hplace, rfl⟩
    exact .pure ⟨rfl, .inl ⟨_, rfl, hplace, by simp⟩⟩
  · exact .pure ⟨rfl, .inr ⟨rfl, rfl⟩⟩

theorem fieldLvalue_simulates {base base' : EmitM (Option Variable)} {structName name : String}
    {declaration : StructDecl} {field : StructField}
    (hdeclaration : f.structs.lookup structName = some declaration)
    (hfield : declaration.fields.find? (·.name == name) = some field)
    (hbase : Simulates sources locals (Placed locals (.struct structName) checks) base base') :
    Simulates sources locals (Placed locals field.ty checks)
      (f.fieldLvalue base name) (f.plain.fieldLvalue base' name) := by
  refine .bind hbase fun place _ _ ⟨hlocals, hplace⟩ => ?_
  subst hlocals
  have hplain : f.plain.structs = f.structs := rfl
  rcases hplace with ⟨place, rfl, hty, rfl⟩ | ⟨rfl, rfl⟩
  · obtain ⟨index, hindex⟩ := exists_findField hfield
    simp only [hty, hplain, hdeclaration, Option.bind_some, hindex]
    exact .expect fun _ _ => .seq (.define _) fun _ => .pure ⟨rfl, .inl ⟨_, rfl, rfl, by simp⟩⟩
  · exact .pure ⟨rfl, .inr ⟨rfl, rfl⟩⟩

theorem indexExpression_simulates (hf : f.Locating sources)
    {lvalue lvalue' : EmitM (Option Variable)} {base base' index index' : EmitM Value}
    {element : ValueType} {length : ℕ} {r : ReturnType}
    (hlvalue : Simulates sources locals
      (Placed locals element (checks ++ (checks' ++ [(.bounds, span)]))) lvalue lvalue')
    (hbase : Simulates sources locals
      (Valued locals (.value (.array element (.resolved length))) checks) base base')
    (hindex : Simulates sources locals (Valued locals r checks') index index') :
    Simulates sources locals
      (Valued locals (.value element) (checks ++ (checks' ++ [(.bounds, span)])))
      (f.indexExpression lvalue base index span)
      (f.plain.indexExpression lvalue' base' index' span) := by
  refine .bind hlvalue fun place _ _ ⟨hlocals, hplace⟩ => ?_
  subst hlocals
  rcases hplace with ⟨place, rfl, rfl, rfl⟩ | ⟨rfl, rfl⟩
  · exact (load_simulates place).mono fun _ _ _ ⟨h, hty, hreported⟩ => ⟨h, hty, by simp [hreported]⟩
  · refine .bind hbase fun base _ _ ⟨hlocals, hty, hreported⟩ => ?_
    subst hlocals hreported
    refine valueType_simulates hty (.expect fun array harray => ?_)
    obtain rfl := Option.some.inj harray
    refine .expect fun _ _ => .seq (.entryAlloca _) fun storage => .seq (.instruction rfl) fun _ => ?_
    refine .bind (elementPointer_simulates hf hindex _ _ _ _) ?_
    rintro place _ _ ⟨rfl, rfl, rfl⟩
    exact (load_simulates place).mono fun _ _ _ ⟨h, hty, hreported⟩ => ⟨h, hty, by simp [hreported]⟩

theorem fieldExpression_simulates {lvalue lvalue' : EmitM (Option Variable)}
    {base base' : EmitM Value} {structName name : String} {declaration : StructDecl}
    {field : StructField} (hdeclaration : f.structs.lookup structName = some declaration)
    (hfield : declaration.fields.find? (·.name == name) = some field)
    (hlvalue : Simulates sources locals (Placed locals field.ty checks) lvalue lvalue')
    (hbase : Simulates sources locals (Valued locals (.value (.struct structName)) checks)
      base base') :
    Simulates sources locals (Valued locals (.value field.ty) checks)
      (f.fieldExpression lvalue base name) (f.plain.fieldExpression lvalue' base' name) := by
  refine .bind hlvalue fun place _ _ ⟨hlocals, hplace⟩ => ?_
  subst hlocals
  rcases hplace with ⟨place, rfl, hty, rfl⟩ | ⟨rfl, rfl⟩
  · exact hty ▸ (load_simulates place).mono fun _ _ _ ⟨h, hty, hreported⟩ =>
      ⟨h, hty, by simp [hreported]⟩
  · obtain ⟨index, hindex⟩ := exists_findField hfield
    refine .bind hbase fun base _ _ ⟨hlocals, hty, hreported⟩ => ?_
    subst hlocals hreported
    refine valueType_simulates hty (.expect fun _ hfound => ?_)
    obtain rfl := Option.some.inj (hdeclaration.symm.trans hfound)
    refine .expect fun _ hfound => ?_
    obtain rfl := Option.some.inj (hindex.symm.trans hfound)
    exact .seq (.define _) fun _ => .pure ⟨rfl, rfl, by simp⟩

theorem unary_simulates {op : UnaryOp} {operand operand' : EmitM Value} {ty result : ValueType}
    (hop : op.result ty = some result)
    (hoperand : Simulates sources locals (Valued locals (.value ty) checks) operand operand') :
    Simulates sources locals (Valued locals (.value result) checks)
      (unary op operand) (unary op operand') := by
  refine .bind hoperand fun operand _ _ ⟨hlocals, hty, hreported⟩ => ?_
  subst hlocals hreported
  refine valueType_simulates hty ?_
  unfold UnaryOp.result at hop
  split at hop <;> cases hop
  · exact .seq (.define _) fun _ => .pure ⟨rfl, hty, by simp⟩
  · exact .seq (.define _) fun _ => .pure ⟨rfl, hty, by simp⟩
  · exact .seq (.define _) fun _ => .pure ⟨rfl, hty, by simp⟩

theorem checkedI32Division_simulates (hf : f.Locating sources) {op : BinaryOp} {check : Check}
    (hcheck : Check.ofBinary (some (.value .i32)) op = some check) (left right : Operand) :
    Simulates sources locals (Valued locals (.value .i32) [(check, span)])
      (f.checkedI32Division left op right span) (f.plain.checkedI32Division left op right span) := by
  have hchecked (check : Check) (mnemonic hook stage : String) (hhook : hook = check.hook)
      (hstage : stage = check.stage) :
      Simulates sources locals (Valued locals (.value .i32) [(check, span)]) (do
        let failureLabel ← label (stage ++ "_failure")
        let validLabel ← label (stage ++ "_valid")
        let isZero ← define ["icmp eq i32 ", right, ", 0"]
        let isMinimum ← define ["icmp eq i32 ", left, ", ", i32Text (BitVec.intMin 32)]
        let isNegativeOne ← define ["icmp eq i32 ", right, ", -1"]
        let overflows ← define ["and i1 ", isMinimum, ", ", isNegativeOne]
        let invalid ← define ["or i1 ", isZero, ", ", overflows]
        terminate ["br i1 ", invalid, ", label ", failureLabel, ", label ", validLabel]
        f.failureBlock failureLabel span
          ["call void @", hook, "(i32 ", left, ", i32 ", right, ")"]
        placeLabel validLabel
        let result ← define [mnemonic, " i32 ", left, ", ", right]
        pure (⟨.value .i32, result⟩ : Value)) (do
        let failureLabel ← label (stage ++ "_failure")
        let validLabel ← label (stage ++ "_valid")
        let isZero ← define ["icmp eq i32 ", right, ", 0"]
        let isMinimum ← define ["icmp eq i32 ", left, ", ", i32Text (BitVec.intMin 32)]
        let isNegativeOne ← define ["icmp eq i32 ", right, ", -1"]
        let overflows ← define ["and i1 ", isMinimum, ", ", isNegativeOne]
        let invalid ← define ["or i1 ", isZero, ", ", overflows]
        terminate ["br i1 ", invalid, ", label ", failureLabel, ", label ", validLabel]
        f.plain.failureBlock failureLabel span
          ["call void @", hook, "(i32 ", left, ", i32 ", right, ")"]
        placeLabel validLabel
        let result ← define [mnemonic, " i32 ", left, ", ", right]
        pure (⟨.value .i32, result⟩ : Value)) := by
    subst hhook hstage
    have hcall : (Line.instruction ⟨none, ["call void @", check.hook, "(i32 ", left, ", i32 ", right,
        ")"]⟩).write = failureCall check ("(i32 ".toList ++ left.write ++ ", i32 ".toList ++
          right.write ++ [')']) := by
      unfold failureCall Line.write Instruction.write
      simp [Part.write]
    refine .label fun failureNumber => .label fun validNumber => .seq (.define _) fun isZero => ?_
    refine .seq (.define _) fun isMinimum => .seq (.define _) fun isNegativeOne => ?_
    refine .seq (.define _) fun overflows => .seq (.define _) fun invalid => ?_
    refine .seq (.terminate rfl) fun _ => .after (failureBlock_simulates hf _ hcall) fun _ => ?_
    refine .seq (.placeLabel ?_) fun _ => .seq (.define _) fun _ => .pure ⟨rfl, rfl, rfl⟩
    cases check <;> rfl
  unfold checkedI32Division
  cases op with
  | divide =>
    obtain rfl := Option.some.inj hcheck
    exact .pure_bind (hchecked .division "sdiv" _ _ rfl rfl)
  | remainder =>
    obtain rfl := Option.some.inj hcheck
    exact .pure_bind (hchecked .remainder "srem" _ _ rfl rfl)
  | _ => cases hcheck

theorem binary_simulates (hf : f.Locating sources) {left right : Value} {op : BinaryOp}
    {ty result : ValueType} (hlogical : op.isLogical = false) (hop : op.result ty = some result)
    (hleft : left.ty = .value ty) :
    Simulates sources locals (Valued locals (.value result)
        ((Check.ofBinary (some (.value ty)) op).toList.map (·, span)))
      (f.binary left op right span) (f.plain.binary left op right span) := by
  refine valueType_simulates hleft ?_
  split
  · next hchecked =>
    obtain ⟨hdivision, hty⟩ := hchecked
    obtain ⟨rfl, rfl⟩ : ty = .i32 ∧ result = .i32 := by
      rcases hdivision with rfl | rfl <;> cases ty <;>
        simp_all [BinaryOp.result, ValueType.isNumeric]
    obtain ⟨check, hcheck⟩ : ∃ check, Check.ofBinary (some (.value .i32)) op = some check := by
      rcases hdivision with rfl | rfl <;> exact ⟨_, rfl⟩
    rw [hcheck]
    exact checkedI32Division_simulates hf hcheck _ _
  · next hunchecked =>
    obtain ⟨mnemonic, hmnemonic⟩ := binaryInstruction_eq hlogical hop hunchecked
    have hcheck : Check.ofBinary (some (.value ty)) op = none := by
      unfold Check.ofBinary
      by_cases hty : ty = .f32
      · rw [if_pos (by rw [hty])]
      · rw [if_neg (by simpa using hty)]
        cases op <;> simp_all
    rw [hcheck]
    refine .expect fun _ hfound => ?_
    obtain rfl := Option.some.inj (hmnemonic.symm.trans hfound)
    exact .expect fun _ _ => .seq (.define _) fun _ => .pure ⟨rfl, rfl, rfl⟩

theorem logicalExpression_simulates (op : BinaryOp) {left left' right right' : EmitM Value}
    {r r' : ReturnType} (hleft : Simulates sources locals (Valued locals r checks) left left')
    (hright : Simulates sources locals (Valued locals r' checks') right right') :
    Simulates sources locals (Valued locals (.value .bool) (checks ++ checks'))
      (logicalExpression left op right) (logicalExpression left' op right') := by
  refine .bind hleft fun left _ _ ⟨hlocals, _, hreported⟩ => ?_
  subst hlocals hreported
  refine .label fun rhsNumber => .label fun shortNumber => .label fun mergeNumber => ?_
  dsimp only
  split
  · refine .seq (.terminate rfl) fun _ => .seq (.placeLabel rfl) fun _ => ?_
    refine .seq (.terminate rfl) fun _ => .seq (.placeLabel rfl) fun _ => ?_
    refine .bind hright fun right _ _ ⟨hlocals, _, hreported⟩ => ?_
    subst hlocals hreported
    refine .get fun s lines' _ _ => .seq (.terminate rfl) fun _ => .seq (.placeLabel rfl) fun _ => ?_
    exact .seq (.define _) fun temp => .pure ⟨rfl, rfl, by simp⟩
  · refine .seq (.terminate rfl) fun _ => .seq (.placeLabel rfl) fun _ => ?_
    refine .seq (.terminate rfl) fun _ => .seq (.placeLabel rfl) fun _ => ?_
    refine .bind hright fun right _ _ ⟨hlocals, _, hreported⟩ => ?_
    subst hlocals hreported
    refine .get fun s lines' _ _ => .seq (.terminate rfl) fun _ => .seq (.placeLabel rfl) fun _ => ?_
    exact .seq (.define _) fun temp => .pure ⟨rfl, rfl, by simp⟩

theorem safeFloatToInt_simulates (source : Operand) :
    Simulates sources locals (Valued locals (.value .i32) [])
      (safeFloatToInt source) (safeFloatToInt source) := by
  unfold safeFloatToInt
  refine .label fun _ => .label fun _ => .label fun _ => .label fun _ => .label fun _ => ?_
  refine .label fun _ => .label fun _ => .seq (.define _) fun _ => ?_
  refine .seq (.terminate rfl) fun _ => .seq (.placeLabel rfl) fun _ => ?_
  refine .seq (.terminate rfl) fun _ => .seq (.placeLabel rfl) fun _ => .seq (.define _) fun _ => ?_
  refine .seq (.terminate rfl) fun _ => .seq (.placeLabel rfl) fun _ => ?_
  refine .seq (.terminate rfl) fun _ => .seq (.placeLabel rfl) fun _ => .seq (.define _) fun _ => ?_
  refine .seq (.terminate rfl) fun _ => .seq (.placeLabel rfl) fun _ => ?_
  refine .seq (.terminate rfl) fun _ => .seq (.placeLabel rfl) fun _ => .seq (.define _) fun _ => ?_
  refine .seq (.terminate rfl) fun _ => .seq (.placeLabel rfl) fun _ => ?_
  exact .seq (.define _) fun _ => .pure ⟨rfl, rfl, rfl⟩

theorem conversion_simulates {target : NumericType} {source source' : EmitM Value} {ty : ValueType}
    (hty : ty.isNumeric)
    (hsource : Simulates sources locals (Valued locals (.value ty) checks) source source') :
    Simulates sources locals (Valued locals (.value target.val) checks)
      (conversion target.val source) (conversion target.val source') := by
  refine .bind hsource ?_
  rintro source _ _ ⟨rfl, hvalue, rfl⟩
  refine valueType_simulates hvalue ?_
  obtain ⟨target, htarget⟩ := target
  cases ty <;> simp [ValueType.isNumeric] at hty <;>
    cases target <;> simp [ValueType.isNumeric] at htarget
  · exact .pure ⟨rfl, hvalue, by simp⟩
  · exact .seq (.define _) fun _ => .pure ⟨rfl, rfl, by simp⟩
  · refine (safeFloatToInt_simulates _).mono ?_
    rintro _ _ _ ⟨h, hty, hreported⟩
    exact ⟨h, hty, by simp [hreported]⟩
  · exact .pure ⟨rfl, hvalue, by simp⟩

theorem callSignature_simulates {signature : Signature} (h : ∀ rest,
    isLocationLine ("  call void ".toList ++ (signature.symbol ++ '(' :: rest)) = false)
    (arguments : List (List Part)) :
    Simulates sources locals (Valued locals signature.returnType [])
      (callSignature signature arguments) (callSignature signature arguments) := by
  unfold callSignature
  split
  · next hvoid =>
    refine .seq (.instruction ?_) fun _ => .pure ⟨rfl, hvoid.symm, rfl⟩
    have hwrite : (Line.instruction ⟨none, callParts ["call void ", signature.symbol, "("]
        arguments⟩).write = "  call void ".toList ++ (signature.symbol ++ '(' ::
          ((List.intercalate ([", "] : List Part) arguments).append [")"]).flatMap Part.write) := by
      simp [callParts, Line.write, Instruction.write, Part.write]
    rw [hwrite]
    exact h _
  · exact .expect fun _ _ => .seq (.define _) fun _ => .pure ⟨rfl, rfl, rfl⟩

/-- The place of a name, or a constant that has a value of its own. -/
theorem findVariable_simulates {c : FunctionChecker} {scopes : Scopes} (hagrees : f.Agrees c)
    (hlocals : SameLocals scopes locals) {name : String} {b : Binding}
    (hb : c.binding scopes name = some b) :
    Simulates sources locals (fun place locals' reported => locals' = locals ∧ reported = [] ∧
        ((∃ p, place = some p ∧ p.ty = b.ty) ∨ place = none ∧
          ∃ value, f.constants.lookup name = some value ∧ value.ty = b.ty))
      (f.findVariable name) (f.plain.findVariable name) := by
  rintro opening s lines' reported rfl hrelated _ _ ⟨⟩
  refine ⟨lines', [], rfl, (List.append_nil reported).symm ▸ hrelated, rfl, rfl, ?_⟩
  rcases hagrees.binding hb ⟨hlocals, hrelated.two_le_length.1⟩ with
    ⟨place, hplace, hty⟩ | ⟨-, hnone, value, _, hvalue, hty, -⟩
  · exact .inl ⟨place, hplace, hty⟩
  · exact .inr ⟨hnone, value, hvalue, hty⟩

theorem variableExpression_simulates {c : FunctionChecker} {scopes : Scopes} (hagrees : f.Agrees c)
    (hlocals : SameLocals scopes locals) {name : String} {b : Binding}
    (hb : c.binding scopes name = some b) :
    Simulates sources locals (Valued locals (.value b.ty) [])
      (f.variableExpression name) (f.plain.variableExpression name) := by
  refine .bind (findVariable_simulates hagrees hlocals hb) fun place _ _ ⟨hlocals, hreported, h⟩ => ?_
  subst hlocals hreported
  rcases h with ⟨place, rfl, hty⟩ | ⟨rfl, value, hvalue, hty⟩
  · exact hty ▸ load_simulates place
  · refine .expect fun _ hfound => .expect fun _ _ => .pure ⟨rfl, ?_, rfl⟩
    obtain rfl := Option.some.inj (hvalue.symm.trans hfound)
    rw [hty]

/-! ## Expressions -/

/-- The emitter reports the checks of an expression of the type. -/
structure SimulatesAs [F32Primitives] (f : FunctionEmitter) (sources : List (Text × Text))
    (c : FunctionChecker) (scopes : Scopes) (locals : Locals) (e : Expr) (r : ReturnType) : Prop where
  expected : ∀ {ty}, r = .value ty → Simulates sources locals (Valued locals r (exprChecks c scopes e))
    (f.expressionAs (some ty) e) (f.plain.expressionAs (some ty) e)
  expression : e.isArrayLiteral = false → Simulates sources locals
    (Valued locals r (exprChecks c scopes e)) (f.expression e) (f.plain.expression e)
  lvalue : ∀ {ty}, r = .value ty → Simulates sources locals (Placed locals ty (exprChecks c scopes e))
    (f.lvalue e) (f.plain.lvalue e)

section

variable [F32Primitives] {c : FunctionChecker} {scopes : Scopes}

theorem SimulatesAs.of {e : Expr} {r : ReturnType} (he : e.isArrayLiteral = false)
    (hexpression : Simulates sources locals (Valued locals r (exprChecks c scopes e))
      (f.expression e) (f.plain.expression e))
    (hlvalue : ∀ {ty}, r = .value ty → Simulates sources locals
      (Placed locals ty (exprChecks c scopes e)) (f.lvalue e) (f.plain.lvalue e)) :
    SimulatesAs f sources c scopes locals e r :=
  ⟨fun _ => by rw [expressionAs_eq he, expressionAs_eq he]; exact hexpression,
    fun _ => hexpression, hlvalue⟩

theorem no_lvalue_simulates {e : Expr} {ty : ValueType} (h : ∀ f : FunctionEmitter, f.lvalue e = pure none) :
    Simulates sources locals (Placed locals ty checks) (f.lvalue e) (f.plain.lvalue e) := by
  rw [h, h]
  exact .pure ⟨rfl, .inr ⟨rfl, rfl⟩⟩

/-- What is no place. -/
theorem SimulatesAs.of_value {e : Expr} {r : ReturnType} (he : e.isArrayLiteral = false)
    (hlvalue : ∀ f : FunctionEmitter, f.lvalue e = pure none)
    (hexpression : Simulates sources locals (Valued locals r (exprChecks c scopes e))
      (f.expression e) (f.plain.expression e)) : SimulatesAs f sources c scopes locals e r :=
  .of he hexpression fun _ => no_lvalue_simulates hlvalue

theorem arrayElements_simulates {element : ValueType} {elements : List Expr}
    (h : ∀ e ∈ elements, Simulates sources locals
      (Valued locals (.value element) (exprChecks c scopes e))
      (f.expressionAs (some element) e) (f.plain.expressionAs (some element) e))
    (aggregateType elementLlvmType : Text) (index : ℕ) (aggregate : Operand) :
    Simulates sources locals (Reporting locals (elementChecks c scopes elements))
      (f.arrayElements element aggregateType elementLlvmType index aggregate elements)
      (f.plain.arrayElements element aggregateType elementLlvmType index aggregate elements) := by
  induction elements generalizing index aggregate with
  | nil =>
    rw [arrayElements, arrayElements]
    exact .pure ⟨rfl, by rw [elementChecks]⟩
  | cons first rest ih =>
    rw [arrayElements, arrayElements, elementChecks]
    refine .bind (h first List.mem_cons_self) fun _ _ _ ⟨hlocals, _, hreported⟩ => ?_
    subst hlocals hreported
    refine .seq (.define _) fun temp => ?_
    exact (ih (fun e he => h e (List.mem_cons_of_mem _ he)) _ _).mono
      fun _ _ _ ⟨hlocals, hreported⟩ => ⟨hlocals, by rw [hreported]⟩

theorem structFields_simulates {declaration : StructDecl} {fields : List (FieldInitializer Expr)}
    (h : ∀ initializer ∈ fields, ∃ field,
      declaration.fields.find? (·.name == initializer.name) = some field ∧
      Simulates sources locals (Valued locals (.value field.ty) (exprChecks c scopes initializer.value))
        (f.expressionAs (some field.ty) initializer.value)
        (f.plain.expressionAs (some field.ty) initializer.value))
    (aggregateType : Text) (aggregate : Operand) :
    Simulates sources locals (Reporting locals (initializerChecks c scopes fields))
      (f.structFields declaration aggregateType aggregate fields)
      (f.plain.structFields declaration aggregateType aggregate fields) := by
  induction fields generalizing aggregate with
  | nil =>
    rw [structFields, structFields]
    exact .pure ⟨rfl, by rw [initializerChecks]⟩
  | cons first rest ih =>
    obtain ⟨field, hfield, hvalue⟩ := h first List.mem_cons_self
    obtain ⟨index, hindex⟩ := exists_findField hfield
    obtain ⟨name, init, span⟩ := first
    rw [structFields, structFields, initializerChecks]
    refine .expect fun _ hfound => ?_
    obtain rfl := Option.some.inj (hindex.symm.trans hfound)
    refine .bind hvalue fun _ _ _ ⟨hlocals, _, hreported⟩ => ?_
    subst hlocals hreported
    refine .expect fun _ _ => .seq (.define _) fun temp => ?_
    exact (ih (fun e he => h e (List.mem_cons_of_mem _ he)) _).mono
      fun _ _ _ ⟨hlocals, hreported⟩ => ⟨hlocals, by rw [hreported]⟩

theorem callArguments_simulates {args : List Expr} {params : List ValueType}
    (hlength : args.length = params.length)
    (h : ∀ p ∈ args.zip params, Simulates sources locals
      (Valued locals (.value p.2) (exprChecks c scopes p.1))
      (f.expressionAs (some p.2) p.1) (f.plain.expressionAs (some p.2) p.1)) :
    Simulates sources locals (Reporting locals (elementChecks c scopes args))
      (f.callArguments args params) (f.plain.callArguments args params) := by
  induction args generalizing params with
  | nil =>
    rw [callArguments, callArguments]
    · exact .pure ⟨rfl, by rw [elementChecks]⟩
    all_goals simp
  | cons arg args ih =>
    cases params with
    | nil => cases hlength
    | cons param params =>
      rw [callArguments, callArguments, elementChecks]
      refine .bind (h (arg, param) List.mem_cons_self) fun _ _ _ ⟨hlocals, hty, hreported⟩ => ?_
      subst hlocals hreported
      refine valueType_simulates hty (.expect fun _ _ => ?_)
      refine .after (ih (by simpa using hlength)
        fun p hp => h p (List.mem_cons_of_mem _ hp)) fun _ => ?_
      exact .pure ⟨rfl, by rw [List.append_nil]⟩

/-- The reports of what is typed are its checks. -/
theorem HasType.simulates (hf : f.Locating sources) (hagrees : f.Agrees c)
    (hΓ : scopes.WellFormed c.structs) (hlocals : SameLocals scopes locals) {e : Expr} {r : ReturnType}
    (h : HasType c scopes e r) : SimulatesAs f sources c scopes locals e r := by
  induction h with
  | i32 | f32 | bool =>
    refine .of_value rfl (fun f => by rw [lvalue] <;> simp) ?_
    rw [expression, expressionAs, expression, expressionAs, exprChecks]
    exact .pure ⟨rfl, rfl, rfl⟩
  | @arrayLiteral elements span element helements ih =>
    refine ⟨?_, by rintro ⟨⟩, fun _ => no_lvalue_simulates fun f => by rw [lvalue] <;> simp⟩
    intro ty hty
    obtain rfl := ReturnType.value.inj hty
    rw [expressionAs, expressionAs, exprChecks]
    refine .expect fun _ hfound => ?_
    obtain rfl := Option.some.inj hfound
    refine .expect fun _ _ => .expect fun _ _ => ?_
    refine .after (arrayElements_simulates (fun e he => (ih e he).expected rfl) _ _ _ _) fun _ => ?_
    exact .pure ⟨rfl, rfl, List.append_nil _⟩
  | @structLiteral name fields span declaration hdeclaration _ _ hknown htyped ih =>
    refine .of_value rfl (fun f => by rw [lvalue] <;> simp) ?_
    rw [expression, expressionAs, expression, expressionAs, exprChecks]
    have hplain : f.plain.structs = f.structs := rfl
    rw [hplain, hagrees.structs, hdeclaration]
    refine .expect fun _ hfound => ?_
    obtain rfl := Option.some.inj hfound
    refine .expect fun _ _ => .after (structFields_simulates (fun init hinit => ?_) _ _) fun _ =>
      .pure ⟨rfl, rfl, List.append_nil _⟩
    obtain ⟨field, hfield⟩ := Option.isSome_iff_exists.mp (hknown init hinit)
    exact ⟨field, hfield, (ih init hinit field hfield).expected rfl⟩
  | var hb =>
    refine .of rfl ?_ fun hty => ?_
    · rw [expression, expressionAs, expression, expressionAs, exprChecks]
      exact variableExpression_simulates hagrees hlocals hb
    · rw [lvalue, lvalue, exprChecks, ← ReturnType.value.inj hty]
      refine (findVariable_simulates hagrees hlocals hb).mono ?_
      rintro _ _ _ ⟨hlocals, hreported, ⟨place, hplace, hty⟩ | hnone⟩
      · exact ⟨hlocals, .inl ⟨place, hplace, hty, hreported⟩⟩
      · exact ⟨hlocals, .inr ⟨hnone.1, hreported⟩⟩
  | @index base index span element length hbase htyped hindex ihbase ihindex =>
    have hindexValue := ihindex.expression (hindex.isArrayLiteral rfl)
    have hlvalue : Simulates sources locals (Placed locals element
        (exprChecks c scopes base ++ (exprChecks c scopes index ++ [(.bounds, span)])))
        (f.indexLvalue (f.lvalue base) (f.expression index) span)
        (f.plain.indexLvalue (f.plain.lvalue base) (f.plain.expression index) span) :=
      indexLvalue_simulates hf (ihbase.lvalue rfl) hindexValue
    refine .of rfl ?_ fun hty => ?_
    · rw [expression, expressionAs, expression, expressionAs, exprChecks]
      exact indexExpression_simulates hf hlvalue (ihbase.expression hbase) hindexValue
    · rw [lvalue, lvalue, exprChecks, ← ReturnType.value.inj hty]
      exact hlvalue
  | @field base name nameSpan span structName declaration field htyped hdeclaration hfield ih =>
    have hdeclared : f.structs.lookup structName = some declaration := by
      rw [hagrees.structs, hdeclaration]
    have hlvalue := fieldLvalue_simulates hdeclared hfield (ih.lvalue rfl)
    refine .of rfl ?_ fun hty => ?_
    · rw [expression, expressionAs, expression, expressionAs, exprChecks]
      exact fieldExpression_simulates hdeclared hfield hlvalue
        (ih.expression (htyped.isArrayLiteral rfl))
    · rw [lvalue, lvalue, exprChecks, ← ReturnType.value.inj hty]
      exact hlvalue
  | @minimum operand span hminimum =>
    refine .of_value rfl (fun f => by rw [lvalue] <;> simp) ?_
    have hchecks : exprChecks c scopes (.unary .negate operand span) = [] := by
      rw [exprChecks]
      cases operand <;> first | rfl | cases hminimum
    rw [hchecks, expression, expressionAs, if_pos ⟨rfl, hminimum⟩, expression, expressionAs,
      if_pos ⟨rfl, hminimum⟩]
    exact .pure ⟨rfl, rfl, rfl⟩
  | @unary op operand span ty result hminimum htyped hop ih =>
    refine .of_value rfl (fun f => by rw [lvalue] <;> simp) ?_
    have hnot : ¬ (op = .negate ∧ operand.isMinMagnitude = true) := by simpa using hminimum
    rw [expression, expressionAs, if_neg hnot, expression, expressionAs, if_neg hnot, exprChecks]
    have hscalar : ty.resolvedArray = none := by
      unfold UnaryOp.result at hop
      split at hop <;> first | rfl | cases hop
    exact unary_simulates hop (ih.expression (htyped.isArrayLiteral hscalar))
  | @binary left op right span ty result hleft hright hop ihleft ihright =>
    have hscalar : ty.resolvedArray = none := by
      rcases BinaryOp.scalar_of_result hop with rfl | rfl | rfl <;> rfl
    have hleftValue := ihleft.expression (hleft.isArrayLiteral hscalar)
    have hrightValue := ihright.expression (hright.isArrayLiteral hscalar)
    refine .of_value rfl (fun f => by rw [lvalue] <;> simp) ?_
    rw [expression, expressionAs, expression, expressionAs, exprChecks,
      hleft.inferExpr_value hagrees.wellFormed hΓ (hleft.isArrayLiteral hscalar)]
    split
    · next hlogical =>
      obtain ⟨-, rfl⟩ := BinaryOp.bool_of_isLogical hlogical hop
      have hcheck : Check.ofBinary (some (.value ty)) op = none := by
        unfold Check.ofBinary
        cases op <;> first | exact ite_self none | cases hlogical
      rw [hcheck]
      simpa using logicalExpression_simulates op hleftValue hrightValue
    · next hlogical =>
      refine .bind hleftValue ?_
      rintro left _ _ ⟨rfl, hty, rfl⟩
      refine .bind hrightValue ?_
      rintro right _ _ ⟨rfl, _, rfl⟩
      refine (binary_simulates hf (by simpa using hlogical) hop hty).mono ?_
      rintro _ _ _ ⟨hlocals, hresult, hreported⟩
      exact ⟨hlocals, hresult, by rw [hreported]⟩
  | @call name args span signature hsignature hlength hargs ih =>
    obtain ⟨symbol, hsymbol⟩ := hagrees.functions hsignature
    refine .of_value rfl (fun f => by rw [lvalue] <;> simp) ?_
    have hplain : f.plain.functions = f.functions := rfl
    rw [expression, expressionAs, expression, expressionAs, exprChecks, hplain]
    refine .expect fun _ hfound => ?_
    obtain rfl := Option.some.inj (hsymbol.symm.trans hfound)
    refine .after (callArguments_simulates hlength fun p hp => (ih p hp).expected rfl) fun _ => ?_
    refine (callSignature_simulates (hf.symbols hsymbol) _).mono ?_
    rintro _ _ _ ⟨hlocals, hty, hreported⟩
    exact ⟨hlocals, hty, by rw [hreported, List.append_nil]⟩
  | @conversion target arg span ty htyped hnumeric ih =>
    refine .of_value rfl (fun f => by rw [lvalue] <;> simp) ?_
    rw [expression, expressionAs, expression, expressionAs, exprChecks, elementChecks, elementChecks,
      List.append_nil]
    refine conversion_simulates hnumeric (ih.expression (htyped.isArrayLiteral ?_))
    cases ty <;> first | rfl | cases hnumeric

/-- The reports of an assignment target are its checks. -/
theorem PlaceTyped.simulates (hf : f.Locating sources) (hagrees : f.Agrees c)
    (hΓ : scopes.WellFormed c.structs) (hlocals : SameLocals scopes locals) {e : Expr} {root : Lvalue}
    (h : PlaceTyped c scopes e root) : Simulates sources locals
      (Placed locals root.ty (exprChecks c scopes e)) (f.lvalue e) (f.plain.lvalue e) :=
  (HasType.simulates hf hagrees hΓ hlocals h.hasType).lvalue rfl

end

end FunctionEmitter

end Emitter

end Speck
