import Speck.Emitter
import Speck.Spans
import Speck.Typing

/-!
# The emitter does not fail

What the checker accepts, the emitter emits. The emitter derives types, scopes and array lengths anew ;
where it knows the program and the locals as the checker does (`Agrees`, `Fits`), a typed expression
has its value of the same type (`HasType.emits`), an assignment has its place, and typed statements
leave the locals of the checker behind (`statements_emits`). `Emits` is what is proved of a part of the
emitter : from fitting locals it ends, with fitting locals and a result as stated.
-/

set_option linter.unusedSectionVars false

namespace Speck

namespace Emitter

open EmbeddedData (intText i32Text RuntimeDiagnostics)

/-! ## Types -/

theorem exists_llvmValueType {structs : HashMap StructDecl} {ty : ValueType}
    (h : ty.WellFormed structs) : ∃ text, llvmValueType ty = some text := by
  induction ty with
  | array element length ih =>
    cases length with
    | resolved length =>
      obtain ⟨text, htext⟩ := ih h.1
      exact ⟨_, by rw [llvmValueType, htext]; rfl⟩
    | _ => exact h.elim
  | _ => exact ⟨_, rfl⟩

theorem exists_llvmReturnType {structs : HashMap StructDecl} {ty : ReturnType}
    (h : ty.WellFormed structs) : ∃ text, llvmReturnType ty = some text := by
  cases ty with
  | value ty => exact exists_llvmValueType (h ty rfl)
  | void => exact ⟨_, rfl⟩

/-! ## Fitting states -/

/-- The locals have the names and the types that the checker has for them. -/
def SameLocals : Scopes → List (HashMap Variable) → Prop :=
  List.Forall₂ fun bindings scope => ∀ name,
    (scope.lookup name).map (·.ty) = (bindings.lookup name).map (·.ty)

theorem SameLocals.lookup {scopes : Scopes} {locals : List (HashMap Variable)}
    (h : SameLocals scopes locals) (name : String) :
    (lookupScopes locals name).map (·.ty) = (lookupScopes scopes name).map (·.ty) := by
  induction h with
  | nil => rfl
  | @cons bindings scope scopes locals hscope hrest ih =>
    have hscope := hscope name
    simp only [lookupScopes, List.findSome?_cons] at ih ⊢
    cases hplace : scope.lookup name <;> cases hbinding : bindings.lookup name <;>
      simp_all

/-- The emitter can go on with the locals. -/
structure Fits (scopes : Scopes) (s : State) : Prop where
  locals : SameLocals scopes s.scopes
  header : 2 ≤ s.lines.length

/-- From fitting locals, a part of the emitter does not fail, and ends as stated. -/
def Emits {α : Type} (scopes : Scopes) (m : EmitM α) (scopes' : Scopes) (P : α → Prop) : Prop :=
  ∀ s, Fits scopes s → ∃ a s', m s = some (a, s') ∧ Fits scopes' s' ∧ P a

namespace Emits

variable {α β : Type} {scopes scopes' scopes'' : Scopes} {m : EmitM α} {P P' : α → Prop}

theorem pure {a : α} (h : P a) : Emits scopes (Pure.pure a) scopes P :=
  fun s hs => ⟨a, s, rfl, hs, h⟩

theorem mono (h : Emits scopes m scopes' P) (himp : ∀ a, P a → P' a) :
    Emits scopes m scopes' P' := by
  intro s hs
  obtain ⟨a, s', hm, hs', hP⟩ := h s hs
  exact ⟨a, s', hm, hs', himp a hP⟩

theorem bind {f : α → EmitM β} {R : β → Prop} (hm : Emits scopes m scopes' P)
    (hf : ∀ a, P a → Emits scopes' (f a) scopes'' R) : Emits scopes (m >>= f) scopes'' R := by
  intro s hs
  obtain ⟨a, s', hrun, hs', hP⟩ := hm s hs
  obtain ⟨b, s'', hrun', hs'', hR⟩ := hf a hP s' hs'
  refine ⟨b, s'', ?_, hs'', hR⟩
  change (m s).bind (fun p => f p.1 p.2) = _
  rw [hrun]
  exact hrun'

theorem expect {value : Option α} {a : α} (h : value = some a) :
    Emits scopes (Emitter.expect value) scopes (· = a) := by
  subst h
  exact fun s hs => ⟨a, s, rfl, hs, rfl⟩

theorem get : Emits scopes MonadState.get scopes fun _ : State => True :=
  fun s hs => ⟨s, s, rfl, hs, trivial⟩

/-- A part that appends lines. -/
theorem appends {g : State → α × State} (hm : ∀ s, m s = some (g s))
    (hscopes : ∀ s, (g s).2.scopes = s.scopes)
    (hlines : ∀ s : State, s.lines.length ≤ (g s).2.lines.length) :
    Emits scopes m scopes fun _ => True :=
  fun s hs => ⟨(g s).1, (g s).2, hm s, ⟨by rw [hscopes]; exact hs.locals,
    hs.header.trans (hlines s)⟩, trivial⟩

variable (parts : List Part)

theorem instruction : Emits scopes (Emitter.instruction parts) scopes fun _ => True :=
  appends (fun _ => rfl) (fun _ => rfl) fun s => by simp

theorem define : Emits scopes (Emitter.define parts) scopes fun _ => True :=
  appends (fun _ => rfl) (fun _ => rfl) fun s => by simp

theorem terminate : Emits scopes (Emitter.terminate parts) scopes fun _ => True :=
  appends (fun _ => rfl) (fun _ => rfl) fun s => by simp

theorem label (stage : String) : Emits scopes (Emitter.label stage) scopes fun _ => True :=
  appends (fun _ => rfl) (fun _ => rfl) fun _ => le_rfl

theorem placeLabel (block : Label) : Emits scopes (Emitter.placeLabel block) scopes fun _ => True :=
  appends (fun _ => rfl) (fun _ => rfl) fun s => by simp

theorem entryAlloca (ty : Text) : Emits scopes (Emitter.entryAlloca ty) scopes fun _ => True := by
  intro s hs
  have hrun : Emitter.entryAlloca ty s = some (.temp s.nextTemp, { s with
      nextTemp := s.nextTemp + 1
      lines := s.lines.take 2 ++
        .instruction ⟨some s.nextTemp, ["alloca ", ty]⟩ :: s.lines.drop 2 }) := by
    change (insertLine 2 _ _).bind _ = _
    rw [insertLine, if_pos hs.header]
    rfl
  refine ⟨_, _, hrun, ⟨hs.locals, ?_⟩, trivial⟩
  have := hs.header
  simp
  omega

end Emits

/-! ## Parts of expressions -/

/-- The place of a failure is known. -/
def FunctionEmitter.Knows (f : FunctionEmitter) (span : Span) : Prop :=
  ∃ parts, ∀ s, FunctionEmitter.location f.diagnostics span s = some (parts, s)

namespace FunctionEmitter

variable {f : FunctionEmitter} {structs : HashMap StructDecl} {scopes : Scopes} {span : Span}

theorem Knows.emits (h : f.Knows span) :
    Emits scopes (f.reportLocation span) scopes fun _ => True := by
  obtain ⟨parts, hparts⟩ := h
  refine .bind (P := fun _ => True) (fun s hs => ⟨parts, s, hparts s, hs, trivial⟩) fun parts _ => ?_
  cases parts with
  | some parts => exact .instruction parts
  | none => exact .pure trivial

theorem valueType_emits {value : Value} {ty : ValueType} (h : value.ty = .value ty) :
    Emits scopes (valueType value) scopes (· = ty) :=
  .expect (by rw [h]; rfl)

theorem load_emits {place : Variable} (h : place.ty.WellFormed structs) :
    Emits scopes (load place) scopes fun value => value.ty = .value place.ty := by
  obtain ⟨text, htext⟩ := exists_llvmValueType h
  exact .bind (.expect htext) fun _ _ => .bind (.define _) fun _ _ => .pure rfl

theorem store_emits {ty : ValueType} (h : ty.WellFormed structs) (value pointer : Operand) :
    Emits scopes (store ty value pointer) scopes fun _ => True := by
  obtain ⟨text, htext⟩ := exists_llvmValueType h
  exact .bind (.expect htext) fun _ _ => .instruction _

theorem failureBlock_emits (h : f.Knows span) (failureLabel : Label) (call : List Part) :
    Emits scopes (f.failureBlock failureLabel span call) scopes fun _ => True :=
  .bind (.placeLabel _) fun _ _ => .bind h.emits fun _ _ =>
    .bind (.instruction _) fun _ _ => .terminate _

theorem boundsCheck_emits (h : f.Knows span) (index : Operand) (length : ℕ) :
    Emits scopes (f.boundsCheck index length span) scopes fun _ => True :=
  .bind (.define _) fun _ _ => .bind (.define _) fun _ _ => .bind (.define _) fun _ _ =>
    .bind (.label _) fun _ _ => .bind (.label _) fun _ _ => .bind (.terminate _) fun _ _ =>
    .bind (failureBlock_emits h _ _) fun _ _ => .placeLabel _

theorem elementPointer_emits (h : f.Knows span) {index : EmitM Value} {P : Value → Prop}
    (hindex : Emits scopes index scopes P) (base : Operand) (arrayType : Text)
    (element : ValueType) (length : ℕ) :
    Emits scopes (f.elementPointer base arrayType element length index span) scopes
      fun place => place.ty = element :=
  .bind hindex fun _ _ => .bind (boundsCheck_emits h _ _) fun _ _ =>
    .bind (.define _) fun _ _ => .pure rfl

/-- A place of the type, and one there must be where it is demanded. -/
structure IsPlace (ty : ValueType) (demanded : Prop) (place : Option Variable) : Prop where
  ty : ∀ p ∈ place, p.ty = ty
  isSome : demanded → place.isSome

theorem IsPlace.none {ty : ValueType} {demanded : Prop} (h : ¬ demanded) :
    IsPlace ty demanded Option.none :=
  ⟨nofun, fun hd => absurd hd h⟩

theorem IsPlace.some {place : Variable} {demanded : Prop} :
    IsPlace place.ty demanded (Option.some place) :=
  ⟨fun _ hp => by rw [Option.mem_some_iff.mp hp], fun _ => rfl⟩

theorem indexLvalue_emits (h : f.Knows span) {base : EmitM (Option Variable)} {index : EmitM Value}
    {element : ValueType} {length : ℕ} {demanded : Prop} {P : Value → Prop}
    (hwf : (ValueType.array element (.resolved length)).WellFormed structs)
    (hbase : Emits scopes base scopes (IsPlace (.array element (.resolved length)) demanded))
    (hindex : Emits scopes index scopes P) :
    Emits scopes (f.indexLvalue base index span) scopes (IsPlace element demanded) := by
  refine hbase.bind fun place hplace => ?_
  cases place with
  | none => exact .pure ⟨nofun, hplace.isSome⟩
  | some place =>
    have hty := hplace.ty place rfl
    obtain ⟨text, htext⟩ := exists_llvmValueType hwf
    simp only [hty, ValueType.resolvedArray]
    exact .bind (.expect htext) fun _ _ => .bind (elementPointer_emits h hindex _ _ _ _)
      fun place hplace => .pure (hplace ▸ .some)

theorem find?_zipIdx {fields : List StructField} {name : String} {field : StructField}
    (h : fields.find? (·.name == name) = some field) (start : ℕ) :
    ∃ index, (fields.zipIdx start).find? (fun (field, _) => field.name == name) =
      some (field, index) := by
  induction fields generalizing start with
  | nil => cases h
  | cons first rest ih =>
    rw [List.find?_cons] at h
    rw [List.zipIdx_cons]
    simp only [List.find?_cons]
    cases hname : first.name == name with
    | true =>
      rw [hname] at h
      exact ⟨start, by rw [Option.some.inj h]⟩
    | false =>
      rw [hname] at h
      exact ih h (start + 1)

theorem exists_findField {fields : List StructField} {name : String} {field : StructField}
    (h : fields.find? (·.name == name) = some field) :
    ∃ index, findField fields name = some (index, field) := by
  obtain ⟨index, hindex⟩ := find?_zipIdx h 0
  exact ⟨index, by rw [findField, hindex]; rfl⟩

theorem fieldLvalue_emits {base : EmitM (Option Variable)} {structName name : String}
    {declaration : StructDecl} {field : StructField} {demanded : Prop}
    (hdeclaration : f.structs.lookup structName = some declaration)
    (hfield : declaration.fields.find? (·.name == name) = some field)
    (hbase : Emits scopes base scopes (IsPlace (.struct structName) demanded)) :
    Emits scopes (f.fieldLvalue base name) scopes (IsPlace field.ty demanded) := by
  refine hbase.bind fun place hplace => ?_
  cases place with
  | none => exact .pure ⟨nofun, hplace.isSome⟩
  | some place =>
    obtain ⟨index, hindex⟩ := exists_findField hfield
    simp only [hplace.ty place rfl, hdeclaration, Option.bind_some, hindex]
    exact .bind (.expect rfl) fun _ _ => .bind (.define _) fun temp _ =>
      .pure (@IsPlace.some ⟨field.ty, temp⟩ demanded)

theorem indexExpression_emits (h : f.Knows span) {lvalue : EmitM (Option Variable)}
    {base index : EmitM Value} {element : ValueType} {length : ℕ} {P : Value → Prop}
    (hwf : (ValueType.array element (.resolved length)).WellFormed structs)
    (hlvalue : Emits scopes lvalue scopes (IsPlace element False))
    (hbase : Emits scopes base scopes fun value =>
      value.ty = .value (.array element (.resolved length)))
    (hindex : Emits scopes index scopes P) :
    Emits scopes (f.indexExpression lvalue base index span) scopes
      fun value => value.ty = .value element := by
  refine hlvalue.bind fun place hplace => ?_
  cases place with
  | some place =>
    obtain rfl := hplace.ty place rfl
    exact load_emits hwf.1
  | none =>
    obtain ⟨text, htext⟩ := exists_llvmValueType hwf
    refine hbase.bind fun base hty => .bind (valueType_emits hty) fun _ hbaseType => ?_
    subst hbaseType
    refine .bind (.expect (a := (element, length)) rfl) fun _ heq => ?_
    subst heq
    refine .bind (.expect htext) fun _ _ => .bind (.entryAlloca _) fun _ _ => ?_
    refine .bind (.instruction _) fun _ _ => ?_
    refine .bind (elementPointer_emits h hindex _ _ _ _) fun place hplace => ?_
    obtain rfl := hplace
    exact load_emits hwf.1

theorem fieldExpression_emits {lvalue : EmitM (Option Variable)} {base : EmitM Value}
    {structName name : String} {declaration : StructDecl} {field : StructField}
    (hdeclaration : f.structs.lookup structName = some declaration)
    (hfield : declaration.fields.find? (·.name == name) = some field)
    (hwf : field.ty.WellFormed structs)
    (hlvalue : Emits scopes lvalue scopes (IsPlace field.ty False))
    (hbase : Emits scopes base scopes fun value => value.ty = .value (.struct structName)) :
    Emits scopes (f.fieldExpression lvalue base name) scopes
      fun value => value.ty = .value field.ty := by
  refine hlvalue.bind fun place hplace => ?_
  cases place with
  | some place =>
    have hty := hplace.ty place rfl
    exact hty ▸ load_emits (hty ▸ hwf)
  | none =>
    obtain ⟨index, hindex⟩ := exists_findField hfield
    refine hbase.bind fun base hty => .bind (valueType_emits hty) fun _ hbaseType => ?_
    subst hbaseType
    refine .bind (.expect hdeclaration) fun _ heq => ?_
    subst heq
    refine .bind (.expect hindex) fun _ heq => ?_
    subst heq
    exact .bind (.define _) fun _ _ => .pure rfl

theorem unary_emits {op : UnaryOp} {operand : EmitM Value} {ty result : ValueType}
    (hop : op.result ty = some result)
    (hoperand : Emits scopes operand scopes fun value => value.ty = .value ty) :
    Emits scopes (unary op operand) scopes fun value => value.ty = .value result := by
  refine hoperand.bind fun operand hty => .bind (valueType_emits hty) fun _ heq => ?_
  subst heq
  unfold UnaryOp.result at hop
  split at hop <;> cases hop
  · exact .bind (.define _) fun _ _ => .pure hty
  · exact .bind (.define _) fun _ _ => .pure hty
  · exact .bind (.define _) fun _ _ => .pure hty

theorem checkedI32Division_emits (h : f.Knows span) {op : BinaryOp} (hop : op = .divide ∨ op = .remainder)
    (left right : Operand) : Emits scopes (f.checkedI32Division left op right span) scopes
      fun value => value.ty = .value .i32 := by
  unfold checkedI32Division
  rcases hop with rfl | rfl
  all_goals
    refine .bind (P := fun _ => True) (.pure trivial) fun _ _ => ?_
    exact .bind (.label _) fun _ _ => .bind (.label _) fun _ _ => .bind (.define _) fun _ _ =>
      .bind (.define _) fun _ _ => .bind (.define _) fun _ _ => .bind (.define _) fun _ _ =>
      .bind (.define _) fun _ _ => .bind (.terminate _) fun _ _ =>
      .bind (failureBlock_emits h _ _) fun _ _ => .bind (.placeLabel _) fun _ _ =>
      .bind (.define _) fun _ _ => .pure rfl

/-- An operator without a check has an instruction. -/
theorem binaryInstruction_eq {op : BinaryOp} {ty result : ValueType} (hlogical : op.isLogical = false)
    (hop : op.result ty = some result)
    (hunchecked : ¬ ((op = .divide ∨ op = .remainder) ∧ ty ≠ .f32)) :
    ∃ mnemonic, binaryInstruction op ty = some (mnemonic, result) := by
  cases op <;> simp_all [BinaryOp.isLogical, BinaryOp.result, binaryInstruction]

theorem binary_emits (h : f.Knows span) {left right : Value} {op : BinaryOp}
    {ty result : ValueType} (hlogical : op.isLogical = false) (hop : op.result ty = some result)
    (hwf : ty.WellFormed structs) (hleft : left.ty = .value ty) :
    Emits scopes (f.binary left op right span) scopes fun value => value.ty = .value result := by
  refine .bind (valueType_emits hleft) fun ty heq => ?_
  subst heq
  split
  · next hchecked =>
    obtain ⟨hdivision, hty⟩ := hchecked
    have hresult : result = .i32 := by
      rcases hdivision with rfl | rfl <;> cases ty <;>
        simp_all [BinaryOp.result, ValueType.isNumeric]
    exact hresult ▸ checkedI32Division_emits h hdivision _ _
  · next hunchecked =>
    obtain ⟨mnemonic, hmnemonic⟩ := binaryInstruction_eq hlogical hop hunchecked
    obtain ⟨text, htext⟩ := exists_llvmValueType hwf
    refine .bind (.expect hmnemonic) fun _ heq => ?_
    subst heq
    exact .bind (.expect htext) fun _ _ => .bind (.define _) fun _ _ => .pure rfl

theorem logicalExpression_emits {left right : EmitM Value} (op : BinaryOp) {P P' : Value → Prop}
    (hleft : Emits scopes left scopes P) (hright : Emits scopes right scopes P') :
    Emits scopes (logicalExpression left op right) scopes
      fun value => value.ty = .value .bool := by
  refine hleft.bind fun _ _ => .bind (.label _) fun _ _ => .bind (.label _) fun _ _ => ?_
  refine .bind (.label _) fun _ _ => ?_
  dsimp only
  split
  · exact .bind (.terminate _) fun _ _ => .bind (.placeLabel _) fun _ _ =>
      .bind (.terminate _) fun _ _ => .bind (.placeLabel _) fun _ _ => hright.bind fun _ _ =>
      .bind .get fun _ _ => .bind (.terminate _) fun _ _ => .bind (.placeLabel _) fun _ _ =>
      .bind (.define _) fun _ _ => .pure rfl
  · exact .bind (.terminate _) fun _ _ => .bind (.placeLabel _) fun _ _ =>
      .bind (.terminate _) fun _ _ => .bind (.placeLabel _) fun _ _ => hright.bind fun _ _ =>
      .bind .get fun _ _ => .bind (.terminate _) fun _ _ => .bind (.placeLabel _) fun _ _ =>
      .bind (.define _) fun _ _ => .pure rfl

theorem safeFloatToInt_emits (source : Operand) :
    Emits scopes (safeFloatToInt source) scopes fun value => value.ty = .value .i32 := by
  unfold safeFloatToInt
  repeat first
    | exact .pure rfl
    | refine .bind (.label _) fun _ _ => ?_
    | refine .bind (.define _) fun _ _ => ?_
    | refine .bind (.terminate _) fun _ _ => ?_
    | refine .bind (.placeLabel _) fun _ _ => ?_

theorem conversion_emits {target : NumericType} {source : EmitM Value} {ty : ValueType}
    (hty : ty.isNumeric)
    (hsource : Emits scopes source scopes fun value => value.ty = .value ty) :
    Emits scopes (conversion target.val source) scopes fun value => value.ty = .value target.val := by
  refine hsource.bind fun source hsource => .bind (valueType_emits hsource) fun ty heq => ?_
  subst heq
  obtain ⟨target, htarget⟩ := target
  cases ty <;> simp [ValueType.isNumeric] at hty <;>
    cases target <;> simp [ValueType.isNumeric] at htarget
  · exact .pure hsource
  · exact .bind (.define _) fun _ _ => .pure rfl
  · exact safeFloatToInt_emits _
  · exact .pure hsource

theorem callSignature_emits {signature : Signature}
    (hwf : signature.returnType.WellFormed structs) (arguments : List (List Part)) :
    Emits scopes (callSignature signature arguments) scopes
      fun value => value.ty = signature.returnType := by
  unfold callSignature
  split
  · next hvoid => exact .bind (.instruction _) fun _ _ => .pure hvoid.symm
  · obtain ⟨text, htext⟩ := exists_llvmReturnType hwf
    exact .bind (.expect htext) fun _ _ => .bind (.define _) fun _ _ => .pure rfl

/-! ## Expressions -/

/-- An emitter knows of the program what a checker knows of it. -/
structure Agrees (f : FunctionEmitter) (c : FunctionChecker) : Prop where
  wellFormed : c.WellFormed
  structs : f.structs = c.structs
  returnType : f.function.returnType = c.returnType
  returns : c.returnType.WellFormed c.structs
  functions : ∀ {name signature}, c.functions.lookup name = some signature →
    ∃ symbol, f.functions.lookup name = some ⟨signature.params, signature.returnType, symbol⟩
  globals : ∀ {name ty}, c.globals.lookup name = some ty →
    ∃ pointer, f.globals.lookup name = some ⟨ty, pointer⟩
  constants : ∀ {name ty}, c.globals.lookup name = none → c.constants.lookup name = some ty →
    (∃ pointer, f.globals.lookup name = some ⟨ty, pointer⟩) ∨
      f.globals.lookup name = none ∧ ∃ value text, f.constants.lookup name = some value ∧
        value.ty = ty ∧ llvmConstant value = some text

variable {c : FunctionChecker}

/-- What a name is bound to has a place, or is a constant. -/
theorem Agrees.binding (hagrees : f.Agrees c) {name : String} {b : Binding}
    (hb : c.binding scopes name = some b) {s : State} (hs : Fits scopes s) :
    (∃ place, (lookupScopes s.scopes name).or (f.globals.lookup name) = some place ∧
        place.ty = b.ty) ∨
      b.mutability = .constant ∧
        (lookupScopes s.scopes name).or (f.globals.lookup name) = none ∧
        ∃ value text, f.constants.lookup name = some value ∧ value.ty = b.ty ∧
          llvmConstant value = some text := by
  have hlocals := hs.locals.lookup name
  rcases FunctionChecker.binding_eq_some hb with hlocal | ⟨hlocal, hrest⟩
  · rw [hlocal, Option.map_some, Option.map_eq_some_iff] at hlocals
    obtain ⟨place, hplace, hty⟩ := hlocals
    exact .inl ⟨place, by rw [hplace, Option.some_or], hty⟩
  · rw [hlocal, Option.map_none, Option.map_eq_none_iff] at hlocals
    rw [hlocals, Option.none_or]
    rcases hrest with ⟨ty, hglobal, rfl⟩ | ⟨hglobal, ty, hconstant, rfl⟩
    · obtain ⟨pointer, hpointer⟩ := hagrees.globals hglobal
      exact .inl ⟨_, hpointer, rfl⟩
    · rcases hagrees.constants hglobal hconstant with ⟨pointer, hpointer⟩ | ⟨hnone, hvalue⟩
      · exact .inl ⟨_, hpointer, rfl⟩
      · exact .inr ⟨rfl, hnone, hvalue⟩

theorem findVariable_emits (hagrees : f.Agrees c) {name : String} {b : Binding}
    (hb : c.binding scopes name = some b) :
    Emits scopes (f.findVariable name) scopes (IsPlace b.ty (b.mutability ≠ .constant)) := by
  intro s hs
  refine ⟨_, s, rfl, hs, ?_⟩
  rcases hagrees.binding hb hs with ⟨place, hplace, hty⟩ | ⟨hconstant, hnone, -⟩
  · rw [hplace, ← hty]
    exact .some
  · rw [hnone]
    exact .none (not_not.mpr hconstant)

/-- A variable is loaded from its place, or has the value of a constant. -/
theorem variableExpression_apply (name : String) (s : State) :
    f.variableExpression name s =
      (match (lookupScopes s.scopes name).or (f.globals.lookup name) with
      | some place => load place
      | none => do
        let value ← expect (f.constants.lookup name)
        let constant ← expect (llvmConstant value)
        pure ⟨.value value.ty, .text constant⟩ : EmitM Value) s := rfl

theorem variableExpression_emits (hagrees : f.Agrees c) (hΓ : scopes.WellFormed c.structs)
    {name : String} {b : Binding} (hb : c.binding scopes name = some b) :
    Emits scopes (f.variableExpression name) scopes fun value => value.ty = .value b.ty := by
  intro s hs
  have hwf := hagrees.wellFormed.binding hΓ hb
  rcases hagrees.binding hb hs with ⟨place, hplace, hty⟩ | ⟨-, hnone, value, text, hvalue, hty, htext⟩
  · obtain ⟨value, s', hload, hs', hvalue⟩ := load_emits (hty ▸ hwf) s hs
    refine ⟨value, s', ?_, hs', hty ▸ hvalue⟩
    rw [variableExpression_apply, hplace]
    exact hload
  · refine ⟨⟨.value value.ty, .text text⟩, s, ?_, hs, by rw [hty]⟩
    rw [variableExpression_apply, hnone, hvalue]
    change ((expect (llvmConstant value) >>= fun constant =>
      pure ⟨.value value.ty, .text constant⟩) : EmitM Value) s = _
    rw [htext]
    rfl

/-- A type is expected of an array literal alone. -/
theorem expressionAs_eq {e : Expr} (he : e.isArrayLiteral = false) (expected : Option ValueType) :
    f.expressionAs expected e = f.expression e := by
  cases e with
  | arrayLiteral => cases he
  | conversion target args span => cases args <;> simp only [expression, expressionAs]
  | _ => simp only [expression, expressionAs]

/-- The emitter has a value for an expression of the type. -/
structure EmitsAs (f : FunctionEmitter) (c : FunctionChecker) (scopes : Scopes) (e : Expr)
    (r : ReturnType) : Prop where
  expected : ∀ {ty}, r = .value ty → ty.WellFormed c.structs →
    Emits scopes (f.expressionAs (some ty) e) scopes fun value => value.ty = r
  expression : e.isArrayLiteral = false → Emits scopes (f.expression e) scopes fun value => value.ty = r
  lvalue : ∀ {ty}, r = .value ty → Emits scopes (f.lvalue e) scopes (IsPlace ty False)

theorem EmitsAs.of {e : Expr} {r : ReturnType} (he : e.isArrayLiteral = false)
    (hexpression : Emits scopes (f.expression e) scopes fun value => value.ty = r)
    (hlvalue : ∀ {ty}, r = .value ty → Emits scopes (f.lvalue e) scopes (IsPlace ty False)) :
    EmitsAs f c scopes e r :=
  ⟨fun _ _ => by rw [expressionAs_eq he]; exact hexpression, fun _ => hexpression, hlvalue⟩

/-- What is no place. -/
theorem EmitsAs.of_value {e : Expr} {r : ReturnType} (he : e.isArrayLiteral = false)
    (hexpression : Emits scopes (f.expression e) scopes fun value => value.ty = r)
    (hlvalue : f.lvalue e = pure none) : EmitsAs f c scopes e r :=
  .of he hexpression fun _ => by
    rw [hlvalue]
    exact .pure (.none not_false)

theorem arrayElements_emits {element : ValueType} {elements : List Expr}
    (h : ∀ e ∈ elements, Emits scopes (f.expressionAs (some element) e) scopes
      fun value => value.ty = .value element) (aggregateType elementLlvmType : Text) (index : ℕ)
    (aggregate : Operand) : Emits scopes
      (f.arrayElements element aggregateType elementLlvmType index aggregate elements) scopes
      fun _ => True := by
  induction elements generalizing index aggregate with
  | nil =>
    rw [arrayElements]
    exact .pure trivial
  | cons first rest ih =>
    rw [arrayElements]
    refine (h first List.mem_cons_self).bind fun _ _ => .bind (.define _) fun temp _ => ?_
    exact ih (fun e he => h e (List.mem_cons_of_mem _ he)) _ _

theorem structFields_emits (structs : HashMap StructDecl) {declaration : StructDecl} {fields : List (FieldInitializer Expr)}
    (h : ∀ initializer ∈ fields, ∃ field,
      declaration.fields.find? (·.name == initializer.name) = some field ∧
      field.ty.WellFormed structs ∧
      Emits scopes (f.expressionAs (some field.ty) initializer.value) scopes
        fun value => value.ty = .value field.ty) (aggregateType : Text) (aggregate : Operand) :
    Emits scopes (f.structFields declaration aggregateType aggregate fields) scopes
      fun _ => True := by
  induction fields generalizing aggregate with
  | nil =>
    rw [structFields]
    exact .pure trivial
  | cons first rest ih =>
    obtain ⟨field, hfield, hwf, hvalue⟩ := h first List.mem_cons_self
    obtain ⟨index, hindex⟩ := exists_findField hfield
    obtain ⟨text, htext⟩ := exists_llvmValueType hwf
    obtain ⟨name, init, span⟩ := first
    rw [structFields]
    refine .bind (.expect hindex) fun _ heq => ?_
    subst heq
    refine hvalue.bind fun _ _ => .bind (.expect htext) fun _ _ => .bind (.define _) fun temp _ => ?_
    exact ih (fun e he => h e (List.mem_cons_of_mem _ he)) _

theorem callArguments_emits (structs : HashMap StructDecl) {args : List Expr} {params : List ValueType}
    (h : ∀ p ∈ args.zip params, p.2.WellFormed structs ∧
      Emits scopes (f.expressionAs (some p.2) p.1) scopes fun value => value.ty = .value p.2) :
    Emits scopes (f.callArguments args params) scopes fun _ => True := by
  induction args generalizing params with
  | nil =>
    rw [callArguments]
    · exact .pure trivial
    · simp
  | cons arg args ih =>
    cases params with
    | nil =>
      rw [callArguments]
      · exact .pure trivial
      · simp
    | cons param params =>
      obtain ⟨hwf, hvalue⟩ := h (arg, param) List.mem_cons_self
      obtain ⟨text, htext⟩ := exists_llvmValueType hwf
      rw [callArguments]
      refine hvalue.bind fun _ hty => .bind (valueType_emits hty) fun _ heq => ?_
      subst heq
      refine .bind (.expect htext) fun _ _ => ?_
      exact .bind (ih fun p hp => h p (List.mem_cons_of_mem _ hp)) fun _ _ => .pure trivial

/-- Where the emitter knows the places of the failures, it has a value for what is typed. -/
theorem HasType.emits (hagrees : f.Agrees c) (hΓ : scopes.WellFormed c.structs) {e : Expr}
    {r : ReturnType} (h : HasType c scopes e r) (hspans : ∀ span ∈ e.spans, f.Knows span) :
    EmitsAs f c scopes e r := by
  induction h with
  | i32 | f32 | bool =>
    refine .of_value rfl ?_ (by rw [lvalue] <;> simp)
    rw [expression, expressionAs]
    exact .pure rfl
  | @arrayLiteral elements span element helements ih =>
    refine ⟨fun {ty} hty hwf => ?_, nofun, fun _ => ?_⟩
    · obtain rfl := ReturnType.value.inj hty
      obtain ⟨text, htext⟩ := exists_llvmValueType hwf
      obtain ⟨elementText, helementText⟩ := exists_llvmValueType hwf.1
      rw [expressionAs]
      refine .bind (.expect (a := (element, elements.length)) rfl) fun _ heq => ?_
      subst heq
      refine .bind (.expect htext) fun _ _ => .bind (.expect helementText) fun _ _ => ?_
      refine .bind (arrayElements_emits (fun e he => ?_) _ _ _ _) fun _ _ => .pure rfl
      refine (ih e he fun span hspan => hspans span ?_).expected rfl hwf.1
      rw [Expr.spans, elementSpans_eq]
      exact List.mem_cons_of_mem _ (List.mem_flatMap_of_mem he hspan)
    · rw [lvalue]
      exact .pure (.none not_false)
      all_goals simp
  | @structLiteral name fields span declaration hdeclaration _ _ hknown htyped ih =>
    refine .of_value rfl ?_ (by rw [lvalue] <;> simp)
    rw [expression, expressionAs]
    refine .bind (.expect (by rw [hagrees.structs, hdeclaration])) fun _ heq => ?_
    subst heq
    refine .bind (.expect rfl) fun _ _ => ?_
    refine .bind (structFields_emits c.structs (fun init hinit => ?_) _ _)
      fun _ _ => .pure rfl
    obtain ⟨field, hfield⟩ := Option.isSome_iff_exists.mp (hknown init hinit)
    have hwf := hagrees.wellFormed.fields hdeclaration field (List.mem_of_find?_eq_some hfield)
    refine ⟨field, hfield, hwf, (ih init hinit field hfield fun span hspan =>
      hspans span ?_).expected rfl hwf⟩
    rw [Expr.spans, initializerSpans_eq]
    exact List.mem_cons_of_mem _ (List.mem_flatMap_of_mem hinit (List.mem_cons_of_mem _ hspan))
  | var hb =>
    refine .of rfl ?_ fun hty => ?_
    · rw [expression, expressionAs]
      exact variableExpression_emits hagrees hΓ hb
    · rw [lvalue, ← ReturnType.value.inj hty]
      exact (findVariable_emits hagrees hb).mono fun _ hplace => ⟨hplace.ty, False.elim⟩
  | @index base index span element length hbase htyped hindex ihbase ihindex =>
    have hwf := htyped.wellFormed hagrees.wellFormed hΓ hbase _ rfl
    have hspan : f.Knows span := hspans _ (by simp [Expr.spans])
    have hbaseEmits := ihbase fun span h => hspans span (by simp [Expr.spans, h])
    have hindexEmits := ihindex fun span h => hspans span (by simp [Expr.spans, h])
    have hindexValue := hindexEmits.expression (hindex.isArrayLiteral rfl)
    have hlvalue := indexLvalue_emits hspan hwf (hbaseEmits.lvalue rfl) hindexValue
    refine .of rfl ?_ fun hty => ?_
    · rw [expression, expressionAs]
      exact indexExpression_emits hspan hwf hlvalue (hbaseEmits.expression hbase) hindexValue
    · rw [lvalue, ← ReturnType.value.inj hty]
      exact hlvalue
  | @field base name nameSpan span structName declaration field htyped hdeclaration hfield ih =>
    have hbaseEmits := ih fun span h => hspans span (by simp [Expr.spans, h])
    have hdeclared : f.structs.lookup structName = some declaration := by
      rw [hagrees.structs, hdeclaration]
    have hlvalue := fieldLvalue_emits hdeclared hfield (hbaseEmits.lvalue rfl)
    refine .of rfl ?_ fun hty => ?_
    · rw [expression, expressionAs]
      exact fieldExpression_emits hdeclared hfield
        (hagrees.wellFormed.fields hdeclaration field (List.mem_of_find?_eq_some hfield)) hlvalue
        (hbaseEmits.expression (htyped.isArrayLiteral rfl))
    · rw [lvalue, ← ReturnType.value.inj hty]
      exact hlvalue
  | minimum hminimum =>
    refine .of_value rfl ?_ (by rw [lvalue] <;> simp)
    rw [expression, expressionAs, if_pos ⟨rfl, hminimum⟩]
    exact .pure rfl
  | @unary op operand span ty result hminimum htyped hop ih =>
    refine .of_value rfl ?_ (by rw [lvalue] <;> simp)
    rw [expression, expressionAs, if_neg (by simpa using hminimum)]
    have hscalar : ty.resolvedArray = none := by
      unfold UnaryOp.result at hop
      split at hop <;> first | rfl | cases hop
    exact unary_emits hop ((ih fun span h => hspans span (by simp [Expr.spans, h])).expression
      (htyped.isArrayLiteral hscalar))
  | @binary left op right span ty result hleft hright hop ihleft ihright =>
    have hscalar : ty.resolvedArray = none := by
      rcases BinaryOp.scalar_of_result hop with rfl | rfl | rfl <;> rfl
    have hwf : ty.WellFormed c.structs := by
      rcases BinaryOp.scalar_of_result hop with rfl | rfl | rfl <;> trivial
    have hleftEmits := (ihleft fun span h => hspans span (by simp [Expr.spans, h])).expression
      (hleft.isArrayLiteral hscalar)
    have hrightEmits := (ihright fun span h => hspans span (by simp [Expr.spans, h])).expression
      (hright.isArrayLiteral hscalar)
    refine .of_value rfl ?_ (by rw [lvalue] <;> simp)
    rw [expression, expressionAs]
    split
    · next hlogical =>
      obtain ⟨-, rfl⟩ := BinaryOp.bool_of_isLogical hlogical hop
      exact logicalExpression_emits op hleftEmits hrightEmits
    · next hlogical =>
      refine hleftEmits.bind fun left hty => hrightEmits.bind fun right _ => ?_
      exact binary_emits (hspans _ (by simp [Expr.spans])) (by simpa using hlogical) hop hwf hty
  | @call name args span signature hsignature hlength hargs ih =>
    obtain ⟨symbol, hsymbol⟩ := hagrees.functions hsignature
    refine .of_value rfl ?_ (by rw [lvalue] <;> simp)
    rw [expression, expressionAs]
    refine .bind (.expect hsymbol) fun _ heq => ?_
    subst heq
    refine .bind (callArguments_emits c.structs fun p hp => ?_) fun _ _ =>
      callSignature_emits (hagrees.wellFormed.returns hsignature) _
    have hwf := hagrees.wellFormed.params hsignature p.2 (List.of_mem_zip hp).2
    refine ⟨hwf, (ih p hp fun span hspan => hspans span ?_).expected rfl hwf⟩
    rw [Expr.spans, elementSpans_eq]
    exact List.mem_cons_of_mem _ (List.mem_flatMap_of_mem (List.of_mem_zip hp).1 hspan)
  | @conversion target arg span ty htyped hnumeric ih =>
    refine .of_value rfl ?_ (by rw [lvalue] <;> simp)
    rw [expression, expressionAs]
    refine conversion_emits hnumeric ((ih fun span h => hspans span ?_).expression
      (htyped.isArrayLiteral ?_))
    · simp [Expr.spans, elementSpans, h]
    · cases ty <;> first | rfl | cases hnumeric

/-- The emitter has a place for an assignment target. -/
theorem PlaceTyped.emits (hagrees : f.Agrees c) (hΓ : scopes.WellFormed c.structs) {e : Expr}
    {root : Lvalue} (h : PlaceTyped c scopes e root) (hspans : ∀ span ∈ e.spans, f.Knows span) :
    Emits scopes (f.lvalue e) scopes (IsPlace root.ty (root.mutability ≠ .constant)) := by
  induction h with
  | var hb =>
    rw [lvalue]
    exact findVariable_emits hagrees hb
  | @index base index span root element length hbase hty hindex ih =>
    have hbaseEmits := ih fun span h => hspans span (by simp [Expr.spans, h])
    have hindexEmits := HasType.emits hagrees hΓ hindex fun span h =>
      hspans span (by simp [Expr.spans, h])
    have hwf := hbase.hasType.wellFormed hagrees.wellFormed hΓ hbase.isArrayLiteral _ rfl
    rw [hty] at hbaseEmits hwf
    rw [lvalue]
    exact indexLvalue_emits (hspans _ (by simp [Expr.spans])) hwf hbaseEmits
      (hindexEmits.expression (hindex.isArrayLiteral rfl))
  | field hbase hty hdeclaration hfield ih =>
    have hbaseEmits := ih fun span h => hspans span (by simp [Expr.spans, h])
    rw [hty] at hbaseEmits
    rw [lvalue]
    exact fieldLvalue_emits (by rw [hagrees.structs, hdeclaration]) hfield hbaseEmits

/-! ## Statements -/

/-- What is declared in the innermost scope. -/
theorem declare_eq {bindings : HashMap Binding} {locals : List (HashMap Variable)} {name : String}
    {place : Variable} {b : Binding} (hty : place.ty = b.ty)
    (h : SameLocals (bindings :: scopes) locals) : ∃ locals',
      (∀ s : State, s.scopes = locals → declare name place s = some ((), { s with scopes := locals' })) ∧
      locals'.tail = locals.tail ∧
      SameLocals (FunctionChecker.declare (bindings :: scopes) name b) locals' := by
  cases locals with
  | nil => nomatch h
  | cons scope locals =>
    obtain ⟨hscope, hrest⟩ := List.forall₂_cons.mp h
    refine ⟨scope.insert name place :: locals, fun s hs => by rw [declare, hs], rfl,
      .cons (fun other => ?_) hrest⟩
    by_cases hother : other = name
    · subst hother
      rw [AList.lookup_insert, AList.lookup_insert, Option.map_some, Option.map_some, hty]
    · rw [AList.lookup_insert_ne hother, AList.lookup_insert_ne hother, hscope]

theorem declare_emits {name : String} {place : Variable} {b : Binding} (hty : place.ty = b.ty)
    (hscopes : scopes ≠ []) :
    Emits scopes (declare name place) (FunctionChecker.declare scopes name b) fun _ => True := by
  intro s hs
  obtain ⟨bindings, scopes, rfl⟩ := List.exists_cons_of_ne_nil hscopes
  obtain ⟨locals', hdeclare, -, hlocals'⟩ := declare_eq hty hs.locals
  exact ⟨(), _, hdeclare s rfl, ⟨hlocals', hs.header⟩, trivial⟩

/-- From its locals, a block ends, with locals of its own in the innermost scope. -/
def EmitsBlock (bindings : HashMap Binding) (scopes : Scopes) (block : EmitM Unit) : Prop :=
  ∀ s, Fits (bindings :: scopes) s →
    ∃ s' bindings', block s = some ((), s') ∧ Fits (bindings' :: scopes) s'

theorem nestedBlock_emits {scope : HashMap Variable} {bindings : HashMap Binding}
    {block : EmitM Unit} (hscope : ∀ name,
      (scope.lookup name).map (·.ty) = (bindings.lookup name).map (·.ty))
    (h : EmitsBlock bindings scopes block) :
    Emits scopes (nestedBlock scope block) scopes fun _ => True := by
  intro s hs
  obtain ⟨s', bindings', hblock, hs'⟩ := h { s with scopes := scope :: s.scopes }
    ⟨.cons hscope hs.locals, hs.header⟩
  obtain ⟨inner, locals, hlocals⟩ : ∃ inner locals, s'.scopes = inner :: locals := by
    cases hlocals : s'.scopes with
    | nil => nomatch hlocals ▸ hs'.locals
    | cons inner locals => exact ⟨inner, locals, rfl⟩
  refine ⟨(), { s' with scopes := s'.scopes.tail }, ?_, ⟨?_, hs'.header⟩, trivial⟩
  · change (block { s with scopes := scope :: s.scopes }).bind (fun p => popScope p.2) = _
    rw [hblock]
    rfl
  · rw [hlocals]
    exact (List.forall₂_cons.mp (hlocals ▸ hs'.locals)).2

theorem closeBlock_emits (next : Label) : Emits scopes (closeBlock next) scopes fun _ => True := by
  refine .bind .get fun s _ => ?_
  split
  · exact .pure trivial
  · exact .terminate _

theorem letStatement_emits {name : String} {ty : ValueType} {init : EmitM Value}
    {P : Value → Prop} (hwf : ty.WellFormed structs) (hscopes : scopes ≠ [])
    (hinit : Emits scopes init scopes P) : Emits scopes (letStatement name ty init)
      (FunctionChecker.declare scopes name ⟨ty, .mutable⟩) fun _ => True := by
  obtain ⟨text, htext⟩ := exists_llvmValueType hwf
  exact hinit.bind fun _ _ => .bind (.expect htext) fun _ _ => .bind (.entryAlloca _) fun _ _ =>
    .bind (store_emits hwf _ _) fun _ _ => declare_emits rfl hscopes

/-- The operator of a compound assignment is one on numbers. -/
theorem binaryOp_allowed {op : AssignOp} {binaryOp : BinaryOp} {ty : ValueType}
    (hop : Source.binaryOp op = some binaryOp) (hallowed : op.Allowed ty) :
    binaryOp.isLogical = false ∧ binaryOp.result ty = some ty := by
  unfold AssignOp.Allowed at hallowed
  cases op <;> simp [Source.binaryOp] at hop <;> subst hop <;>
    simp_all [BinaryOp.isLogical, BinaryOp.result]

theorem assignStatement_emits (hagrees : f.Agrees c) (hΓ : scopes.WellFormed c.structs)
    {target value : Expr} {op : AssignOp} {root : Lvalue} (htarget : PlaceTyped c scopes target root)
    (hmutable : root.mutability = .mutable) (hvalue : HasType c scopes value (.value root.ty))
    (hallowed : op.Allowed root.ty) (hspans : ∀ span ∈ target.spans ++ value.spans, f.Knows span) :
    Emits scopes (f.assignStatement target op value) scopes fun _ => True := by
  have htargetEmits := PlaceTyped.emits hagrees hΓ htarget fun span h =>
    hspans span (List.mem_append_left _ h)
  have hvalueEmits := HasType.emits hagrees hΓ hvalue fun span h =>
    hspans span (List.mem_append_right _ h)
  have hwf := htarget.hasType.wellFormed hagrees.wellFormed hΓ htarget.isArrayLiteral _ rfl
  refine htargetEmits.bind fun place hplace => ?_
  obtain ⟨place, rfl⟩ := Option.isSome_iff_exists.mp (hplace.isSome (by simp [hmutable]))
  have hty := hplace.ty place rfl
  refine .bind (.expect rfl) fun _ heq => ?_
  subst heq
  refine .bind (P := fun _ => True) ?_ fun _ _ => store_emits (hty ▸ hwf) _ _
  unfold assignedValue
  cases hop : Source.binaryOp op with
  | none => exact (hty ▸ hvalueEmits.expected rfl hwf).mono fun _ _ => trivial
  | some binaryOp =>
    obtain ⟨hlogical, hresult⟩ := binaryOp_allowed hop hallowed
    have hscalar : root.ty.resolvedArray = none := by
      rcases BinaryOp.scalar_of_result hresult with h | h | h <;> rw [h] <;> rfl
    refine .bind (load_emits (hty ▸ hwf)) fun left hleft => ?_
    refine .bind (hvalueEmits.expression (hvalue.isArrayLiteral hscalar)) fun right _ => ?_
    refine (binary_emits (hspans _ (List.mem_append_left _ target.span_mem)) hlogical hresult hwf
      (hty ▸ hleft)).mono fun _ _ => trivial

theorem ifStatement_emits {condition : EmitM Value} {thenBlock : EmitM Unit} {P : Value → Prop}
    (hcondition : Emits scopes condition scopes P) (hthen : EmitsBlock ∅ scopes thenBlock) :
    Emits scopes (ifStatement condition thenBlock) scopes fun _ => True :=
  hcondition.bind fun _ _ => .bind (.label _) fun _ _ => .bind (.label _) fun _ _ =>
    .bind (.terminate _) fun _ _ => .bind (.placeLabel _) fun _ _ =>
    .bind (nestedBlock_emits (fun _ => rfl) hthen) fun _ _ => .bind (closeBlock_emits _) fun _ _ =>
    .placeLabel _

theorem ifElseStatement_emits {condition : EmitM Value} {thenBlock elseBlock : EmitM Unit}
    {P : Value → Prop} (hcondition : Emits scopes condition scopes P)
    (hthen : EmitsBlock ∅ scopes thenBlock) (helse : EmitsBlock ∅ scopes elseBlock) :
    Emits scopes (ifElseStatement condition thenBlock elseBlock) scopes fun _ => True := by
  refine hcondition.bind fun _ _ => .bind (.label _) fun _ _ => .bind (.label _) fun _ _ => ?_
  refine .bind (.label _) fun _ _ => .bind (.terminate _) fun _ _ => ?_
  refine .bind (.placeLabel _) fun _ _ => .bind (nestedBlock_emits (fun _ => rfl) hthen) fun _ _ => ?_
  refine .bind .get fun _ _ => .bind (closeBlock_emits _) fun _ _ => ?_
  refine .bind (.placeLabel _) fun _ _ => .bind (nestedBlock_emits (fun _ => rfl) helse) fun _ _ => ?_
  refine .bind .get fun _ _ => .bind (closeBlock_emits _) fun _ _ => ?_
  refine .bind (.placeLabel _) fun _ _ => ?_
  split
  · exact .terminate _
  · exact .pure trivial

theorem whileStatement_emits {condition : EmitM Value} {body : EmitM Unit} {P : Value → Prop}
    (hcondition : Emits scopes condition scopes P) (hbody : EmitsBlock ∅ scopes body) :
    Emits scopes (whileStatement condition body) scopes fun _ => True :=
  .bind (.label _) fun _ _ => .bind (.label _) fun _ _ => .bind (.label _) fun _ _ =>
    .bind (.terminate _) fun _ _ => .bind (.placeLabel _) fun _ _ => hcondition.bind fun _ _ =>
    .bind (.terminate _) fun _ _ => .bind (.placeLabel _) fun _ _ =>
    .bind (nestedBlock_emits (fun _ => rfl) hbody) fun _ _ => .bind (closeBlock_emits _) fun _ _ =>
    .placeLabel _

theorem forStep_emits (pointer : Operand) (conditionLabel : Label) :
    Emits scopes (forStep pointer conditionLabel) scopes fun _ => True := by
  refine .bind .get fun s _ => ?_
  split
  · exact .pure trivial
  · exact .bind (.define _) fun _ _ => .bind (.define _) fun _ _ => .bind (.instruction _) fun _ _ =>
      .terminate _

/-- The scope of a loop variable. -/
theorem lookup_loopVariable (name : String) (pointer : Operand) (other : String) :
    ((AList.singleton name ⟨.i32, pointer⟩ : HashMap Variable).lookup other).map (·.ty) =
      ((AList.singleton name ⟨.i32, .loopVariable⟩ : HashMap Binding).lookup other).map (·.ty) :=
  Option.ext fun ty => by
    simp only [Option.map_eq_some_iff, HashMap.lookup_singleton]
    constructor
    · rintro ⟨_, ⟨rfl, rfl⟩, rfl⟩
      exact ⟨_, ⟨rfl, rfl⟩, rfl⟩
    · rintro ⟨_, ⟨rfl, rfl⟩, rfl⟩
      exact ⟨_, ⟨rfl, rfl⟩, rfl⟩

theorem forStatement_emits {name : String} {lower upper : EmitM Value} {body : EmitM Unit}
    {P P' : Value → Prop} (hlower : Emits scopes lower scopes P)
    (hupper : Emits scopes upper scopes P')
    (hbody : EmitsBlock (AList.singleton name ⟨.i32, .loopVariable⟩) scopes body) :
    Emits scopes (forStatement name lower upper body) scopes fun _ => True := by
  refine hlower.bind fun _ _ => hupper.bind fun _ _ => .bind (.entryAlloca _) fun pointer _ => ?_
  refine .bind (.instruction _) fun _ _ => .bind (.label _) fun _ _ => .bind (.label _) fun _ _ => ?_
  refine .bind (.label _) fun _ _ => .bind (.terminate _) fun _ _ => ?_
  refine .bind (.placeLabel _) fun _ _ => .bind (.define _) fun _ _ => .bind (.define _) fun _ _ => ?_
  refine .bind (.terminate _) fun _ _ => .bind (.placeLabel _) fun _ _ => ?_
  exact .bind (nestedBlock_emits (lookup_loopVariable name pointer) hbody) fun _ _ =>
    .bind (forStep_emits _ _) fun _ _ => .placeLabel _

theorem returnValue_emits (hagrees : f.Agrees c) (hΓ : scopes.WellFormed c.structs) {value : Expr}
    {ty : ValueType} (hreturn : c.returnType = .value ty) (hvalue : HasType c scopes value (.value ty))
    (hspans : ∀ span ∈ value.spans, f.Knows span) :
    Emits scopes (f.returnStatement (some value)) scopes fun _ => True := by
  have hwf := hagrees.returns ty hreturn
  obtain ⟨text, htext⟩ := exists_llvmValueType hwf
  refine .bind (.expect (a := ty) (by rw [hagrees.returnType, hreturn]; rfl)) fun _ heq => ?_
  subst heq
  refine .bind ((HasType.emits hagrees hΓ hvalue hspans).expected rfl hwf) fun value hty => ?_
  refine .bind (valueType_emits hty) fun _ heq => ?_
  subst heq
  exact .bind (.expect htext) fun _ _ => .terminate _

theorem exists_scope {bindings : HashMap Binding} {scopes scopes' : Scopes} {statement : Stmt}
    (h : StmtTyped c (bindings :: scopes) statement scopes') :
    ∃ bindings', scopes' = bindings' :: scopes := by
  cases h with
  | letVar => exact ⟨_, rfl⟩
  | _ => exact ⟨_, rfl⟩

/-- Once the block has its terminator, the rest of its statements is left out. -/
theorem statements_emits_of_terminated (block : List Stmt) {s : State} (h : s.terminated = true) :
    f.statements block s = some ((), s) := by
  cases block with
  | nil =>
    rw [statements]
    rfl
  | cons first rest =>
    rw [statements]
    change (if s.terminated = true then pure () else (do f.statement first; f.statements rest) :
      EmitM Unit) s = _
    rw [if_pos h]
    rfl

mutual

theorem statement_emits (hagrees : f.Agrees c) : (statement : Stmt) → ∀ {bindings scopes scopes'},
    Scopes.WellFormed c.structs (bindings :: scopes) →
    StmtTyped c (bindings :: scopes) statement scopes' →
    (∀ span ∈ statement.spans, f.Knows span) →
    Emits (bindings :: scopes) (f.statement statement) scopes' fun _ => True
  | .letVar name ty init span, _, _, _, hΓ, .letVar hwf hinit, hspans => by
    have hinitEmits := HasType.emits hagrees hΓ hinit fun span h =>
      hspans span (by simp [Stmt.spans, h])
    rw [statement]
    exact letStatement_emits hwf (List.cons_ne_nil _ _) (hinitEmits.expected rfl hwf)
  | .assign target op value span, _, _, _, hΓ, .assign htarget hmutable hvalue hallowed, hspans => by
    rw [statement]
    exact assignStatement_emits hagrees hΓ htarget hmutable hvalue hallowed fun span h =>
      hspans span (List.mem_cons_of_mem _ h)
  | .expr e span, _, _, _, hΓ, .expr he htyped, hspans => by
    have heEmits := HasType.emits hagrees hΓ htyped fun span h =>
      hspans span (List.mem_cons_of_mem _ h)
    rw [statement]
    exact (heEmits.expression he).bind fun _ _ => .pure trivial
  | .ifElse condition thenBlock none span, _, _, _, hΓ, .ifElse hcondition hthen _, hspans => by
    have hconditionEmits := HasType.emits hagrees hΓ hcondition fun span h =>
      hspans span (by simp [Stmt.spans, h])
    rw [statement]
    exact ifStatement_emits (hconditionEmits.expression (hcondition.isArrayLiteral rfl))
      (statements_emits hagrees thenBlock hΓ.push hthen fun span h =>
        hspans span (by simp [Stmt.spans, h]))
  | .ifElse condition thenBlock (some elseBlock) span, _, _, _, hΓ,
      .ifElse hcondition hthen helse, hspans => by
    have hconditionEmits := HasType.emits hagrees hΓ hcondition fun span h =>
      hspans span (by simp [Stmt.spans, h])
    rw [statement]
    exact ifElseStatement_emits (hconditionEmits.expression (hcondition.isArrayLiteral rfl))
      (statements_emits hagrees thenBlock hΓ.push hthen fun span h =>
        hspans span (by simp [Stmt.spans, h]))
      (statements_emits hagrees elseBlock hΓ.push (helse elseBlock rfl) fun span h =>
        hspans span (by simp [Stmt.spans, h]))
  | .whileLoop condition body span, _, _, _, hΓ, .whileLoop hcondition hbody, hspans => by
    have hconditionEmits := HasType.emits hagrees hΓ hcondition fun span h =>
      hspans span (by simp [Stmt.spans, h])
    rw [statement]
    exact whileStatement_emits (hconditionEmits.expression (hcondition.isArrayLiteral rfl))
      (statements_emits hagrees body hΓ.push hbody fun span h =>
        hspans span (by simp [Stmt.spans, h]))
  | .forLoop name nameSpan lower upper body span, _, _, _, hΓ, .forLoop hlower hupper hbody,
      hspans => by
    have hlowerEmits := HasType.emits hagrees hΓ hlower fun span h =>
      hspans span (by simp [Stmt.spans, h])
    have hupperEmits := HasType.emits hagrees hΓ hupper fun span h =>
      hspans span (by simp [Stmt.spans, h])
    have hinner : Scopes.WellFormed c.structs
        (AList.singleton name ⟨.i32, .loopVariable⟩ :: _ :: _) := hΓ.cons fun hlookup => by
      obtain ⟨-, rfl⟩ := HashMap.lookup_singleton.mp hlookup
      trivial
    rw [statement]
    exact forStatement_emits (hlowerEmits.expression (hlower.isArrayLiteral rfl))
      (hupperEmits.expression (hupper.isArrayLiteral rfl))
      (statements_emits hagrees body hinner hbody fun span h =>
        hspans span (by simp [Stmt.spans, h]))
  | .ret none span, _, _, _, _, .ret _, _ => by
    rw [statement]
    exact .terminate _
  | .ret (some value) span, _, _, _, hΓ, .retValue hty hvalue, hspans => by
    rw [statement]
    exact returnValue_emits hagrees hΓ hty hvalue fun span h =>
      hspans span (by simpa [Stmt.spans] using .inr h)

theorem statements_emits (hagrees : f.Agrees c) : (block : List Stmt) → ∀ {bindings scopes},
    Scopes.WellFormed c.structs (bindings :: scopes) → BlockTyped c (bindings :: scopes) block →
    (∀ span ∈ blockSpans block, f.Knows span) → EmitsBlock bindings scopes (f.statements block)
  | [], bindings, scopes, _, _, _ => fun s hs => ⟨s, bindings, by rw [statements]; rfl, hs⟩
  | first :: rest, bindings, scopes, hΓ, .cons hfirst hrest, hspans => by
    intro s hs
    by_cases hterminated : s.terminated = true
    · exact ⟨s, bindings, statements_emits_of_terminated _ hterminated, hs⟩
    · obtain ⟨bindings₁, rfl⟩ := exists_scope hfirst
      obtain ⟨_, s₁, hrun₁, hs₁, -⟩ := statement_emits hagrees first hΓ hfirst
        (fun span h => hspans span (by simp [blockSpans, h])) s hs
      obtain ⟨s₂, bindings₂, hrun₂, hs₂⟩ := statements_emits hagrees rest (hfirst.wellFormed hΓ) hrest
        (fun span h => hspans span (by simp [blockSpans, h])) s₁ hs₁
      refine ⟨s₂, bindings₂, ?_, hs₂⟩
      rw [statements]
      change (if s.terminated = true then pure () else (do f.statement first; f.statements rest) :
        EmitM Unit) s = _
      rw [if_neg hterminated]
      change (f.statement first s).bind (fun p => f.statements rest p.2) = _
      rw [hrun₁]
      exact hrun₂

end

end FunctionEmitter

end Emitter

end Speck
