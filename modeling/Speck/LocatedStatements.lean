import Speck.EmittedFlow
import Speck.LocatedExpressions

/-!
# Statements of a development build

The reports of a typed function are the checks of its statements in the order of evaluation, up to
what stands behind a statement that returns (`emitLines_locates`).
-/

set_option linter.unusedSectionVars false

namespace Speck

namespace Emitter

namespace FunctionEmitter

variable {f : FunctionEmitter} {sources : List (Text × Text)} {locals outer : Locals}
  {checks checks' checks'' : List (Check × Span)}

/-! ## Parts of statements -/

/-- The innermost scope ends as that of the checker, and the checks are reported. -/
def Leaves (scopes : Scopes) (outer : Locals) (checks : List (Check × Span)) :
    Unit → Locals → List (Check × Span) → Prop :=
  fun _ locals' reported => locals'.tail = outer ∧ SameLocals scopes locals' ∧ reported = checks

/-- A block that is entered without a terminator. It leaves scopes behind the innermost as they are. -/
def SimulatesBlock (sources : List (Text × Text)) (locals : Locals) (checks : List (Check × Span))
    (block block' : EmitM Unit) : Prop :=
  ∀ opening s lines' reported, s.scopes = locals → s.terminated = false →
    Related sources reported opening s.lines lines' → ∀ a t, block s = some (a, t) → ∃ more',
      block' { s with lines := lines' } = some (a, { t with lines := more' }) ∧
      Related sources (reported ++ checks) opening t.lines more' ∧ t.scopes.tail = locals.tail

theorem declare_simulates {bindings : HashMap Binding} {scopes : Scopes} {name : String}
    {place : Variable} {b : Binding} (hty : place.ty = b.ty)
    (hlocals : SameLocals (bindings :: scopes) locals) : Simulates sources locals
      (Leaves (FunctionChecker.declare (bindings :: scopes) name b) locals.tail [])
      (declare name place) (declare name place) := by
  obtain ⟨locals', hdeclare, htail, hlocals'⟩ := declare_eq hty hlocals
  intro opening s lines' reported hstate hrelated _ t hrun
  rw [hdeclare s hstate] at hrun
  obtain ⟨-, rfl⟩ := Prod.mk.inj (Option.some.inj hrun)
  refine ⟨lines', [], hdeclare _ hstate, ?_, htail, hlocals', rfl⟩
  rwa [List.append_nil]

/-- A block behind its label, with a scope of its own. -/
theorem nestedBlock_simulates {β : Type} {label : Label} {scope : HashMap Variable}
    {block block' : EmitM Unit} {k k' : EmitM β} {Q : β → Locals → List (Check × Span) → Prop}
    (hlabel : isLocationLine (Line.label label).write = false)
    (hblock : SimulatesBlock sources (scope :: locals) checks block block')
    (hk : Simulates sources locals (fun b locals' more => Q b locals' (checks ++ more)) k k') :
    Simulates sources locals Q
      (placeLabel label >>= fun _ => nestedBlock scope block >>= fun _ => k)
      (placeLabel label >>= fun _ => nestedBlock scope block' >>= fun _ => k') := by
  rintro opening s lines' reported rfl hrelated b t hrun
  let enter (s : State) : State := { s with
    lines := s.lines ++ [.label label], currentBlock := label, terminated := false,
    scopes := scope :: s.scopes }
  have hunfold (block : EmitM Unit) (k : EmitM β) (s s₁ : State) (hs₁ : block (enter s) = some ((), s₁)) :
      (placeLabel label >>= fun _ => nestedBlock scope block >>= fun _ => k) s =
        k { s₁ with scopes := s₁.scopes.tail } := by
    change ((block (enter s)).bind (fun p => popScope p.2)).bind (fun p => k p.2) = _
    rw [hs₁]
    rfl
  obtain ⟨s₁, hs₁⟩ : ∃ s₁, block (enter s) = some ((), s₁) := by
    cases hblock : block (enter s) with
    | some p => exact ⟨p.2, rfl⟩
    | none =>
      change ((block (enter s)).bind (fun p => popScope p.2)).bind (fun p => k p.2) = _ at hrun
      rw [hblock] at hrun
      cases hrun
  rw [hunfold block k s s₁ hs₁] at hrun
  obtain ⟨lines₁, hplain₁, hrelated₁, htail⟩ := hblock opening (enter s) (lines' ++ [.label label])
    (reported ++ []) rfl rfl (hrelated.line hlabel) () s₁ hs₁
  rw [List.append_nil] at hrelated₁
  obtain ⟨lines₂, more, hplain₂, hrelated₂, hQ⟩ := hk opening { s₁ with scopes := s₁.scopes.tail }
    lines₁ _ htail hrelated₁ b t hrun
  refine ⟨lines₂, checks ++ more, ?_, List.append_assoc _ _ _ ▸ hrelated₂, hQ⟩
  rw [hunfold block' k' { s with lines := lines' } _ hplain₁]
  exact hplain₂

theorem closeBlock_simulates (next : Label) :
    Simulates sources locals (Reporting locals []) (closeBlock next) (closeBlock next) := by
  refine .get fun s lines' _ _ => ?_
  dsimp only
  split
  · exact .pure ⟨rfl, rfl⟩
  · exact .terminate rfl

theorem letStatement_simulates {bindings : HashMap Binding} {scopes : Scopes} {name : String}
    {ty : ValueType} {r : ReturnType} {init init' : EmitM Value}
    (hlocals : SameLocals (bindings :: scopes) locals)
    (h : Simulates sources locals (Valued locals r checks) init init') : Simulates sources locals
      (Leaves (FunctionChecker.declare (bindings :: scopes) name ⟨ty, .mutable⟩) locals.tail checks)
      (letStatement name ty init) (letStatement name ty init') := by
  refine .bind h fun _ _ _ ⟨hscopes, _, hreported⟩ => ?_
  subst hscopes hreported
  refine .expect fun _ _ => .seq (.entryAlloca _) fun pointer => .seq (store_simulates _ _ _) fun _ => ?_
  refine (declare_simulates (b := ⟨ty, .mutable⟩) rfl hlocals).mono
    fun _ _ _ ⟨htail, hlocals', hreported⟩ => ?_
  exact ⟨htail, hlocals', by rw [hreported, List.append_nil]⟩

theorem ifStatement_simulates {condition condition' : EmitM Value} {thenBlock thenBlock' : EmitM Unit}
    {r : ReturnType}
    (hcondition : Simulates sources locals (Valued locals r checks) condition condition')
    (hthen : SimulatesBlock sources (∅ :: locals) checks' thenBlock thenBlock') :
    Simulates sources locals (Reporting locals (checks ++ checks'))
      (ifStatement condition thenBlock) (ifStatement condition' thenBlock') := by
  refine .bind hcondition fun _ _ _ ⟨hscopes, _, hreported⟩ => ?_
  subst hscopes hreported
  refine .label fun _ => .label fun _ => .seq (.terminate rfl) fun _ => ?_
  refine nestedBlock_simulates rfl hthen (.seq (closeBlock_simulates _) fun _ => ?_)
  exact .last (.placeLabel rfl) fun _ => ⟨rfl, by rw [List.append_nil]⟩

theorem ifElseStatement_simulates {condition condition' : EmitM Value}
    {thenBlock thenBlock' elseBlock elseBlock' : EmitM Unit} {r : ReturnType}
    (hcondition : Simulates sources locals (Valued locals r checks) condition condition')
    (hthen : SimulatesBlock sources (∅ :: locals) checks' thenBlock thenBlock')
    (helse : SimulatesBlock sources (∅ :: locals) checks'' elseBlock elseBlock') :
    Simulates sources locals (Reporting locals (checks ++ (checks' ++ checks'')))
      (ifElseStatement condition thenBlock elseBlock)
      (ifElseStatement condition' thenBlock' elseBlock') := by
  refine .bind hcondition fun _ _ _ ⟨hscopes, _, hreported⟩ => ?_
  subst hscopes hreported
  refine .label fun _ => .label fun _ => .label fun _ => .seq (.terminate rfl) fun _ => ?_
  refine nestedBlock_simulates rfl hthen (.get fun s lines' _ _ => ?_)
  refine .seq (closeBlock_simulates _) fun _ => ?_
  refine nestedBlock_simulates rfl helse (.get fun s lines' _ _ => ?_)
  refine .seq (closeBlock_simulates _) fun _ => .seq (.placeLabel rfl) fun _ => ?_
  dsimp only
  split
  · exact .last (.terminate rfl) fun _ => ⟨rfl, by simp⟩
  · exact .pure ⟨rfl, by simp⟩

theorem whileStatement_simulates {condition condition' : EmitM Value} {body body' : EmitM Unit}
    {r : ReturnType}
    (hcondition : Simulates sources locals (Valued locals r checks) condition condition')
    (hbody : SimulatesBlock sources (∅ :: locals) checks' body body') :
    Simulates sources locals (Reporting locals (checks ++ checks'))
      (whileStatement condition body) (whileStatement condition' body') := by
  refine .label fun _ => .label fun _ => .label fun _ => .seq (.terminate rfl) fun _ => ?_
  refine .seq (.placeLabel rfl) fun _ => .bind hcondition fun _ _ _ ⟨hscopes, _, hreported⟩ => ?_
  subst hscopes hreported
  refine .seq (.terminate rfl) fun _ => nestedBlock_simulates rfl hbody ?_
  refine .seq (closeBlock_simulates _) fun _ => ?_
  exact .last (.placeLabel rfl) fun _ => ⟨rfl, by rw [List.append_nil]⟩

theorem forStep_simulates (pointer : Operand) (conditionLabel : Label) :
    Simulates sources locals (Reporting locals [])
      (forStep pointer conditionLabel) (forStep pointer conditionLabel) := by
  refine .get fun s lines' _ _ => ?_
  dsimp only
  split
  · exact .pure ⟨rfl, rfl⟩
  · exact .seq (.define _) fun _ => .seq (.define _) fun _ => .seq (.instruction rfl) fun _ =>
      .terminate rfl

theorem forStatement_simulates (name : String) {lower lower' upper upper' : EmitM Value}
    {body body' : EmitM Unit} {r r' : ReturnType}
    (hlower : Simulates sources locals (Valued locals r checks) lower lower')
    (hupper : Simulates sources locals (Valued locals r' checks') upper upper')
    (hbody : ∀ pointer, SimulatesBlock sources (AList.singleton name ⟨.i32, pointer⟩ :: locals) checks''
      body body') :
    Simulates sources locals (Reporting locals (checks ++ (checks' ++ checks'')))
      (forStatement name lower upper body) (forStatement name lower' upper' body') := by
  refine .bind hlower fun _ _ _ ⟨hscopes, _, hreported⟩ => ?_
  subst hscopes hreported
  refine .bind hupper fun _ _ _ ⟨hscopes, _, hreported⟩ => ?_
  subst hscopes hreported
  refine .seq (.entryAlloca _) fun pointer => .seq (.instruction rfl) fun _ => ?_
  refine .label fun _ => .label fun _ => .label fun _ => .seq (.terminate rfl) fun _ => ?_
  refine .seq (.placeLabel rfl) fun _ => .seq (.define _) fun _ => .seq (.define _) fun _ => ?_
  refine .seq (.terminate rfl) fun _ => nestedBlock_simulates rfl (hbody pointer) ?_
  refine .seq (forStep_simulates _ _) fun _ => ?_
  exact .last (.placeLabel rfl) fun _ => ⟨rfl, by simp⟩

/-! ## Statements -/

section

variable [F32Primitives] {c : FunctionChecker} {scopes : Scopes}

/-- A compound assignment has its check behind those of its value. -/
theorem assignedValue_simulates (hf : f.Locating sources) (hagrees : f.Agrees c)
    (hΓ : scopes.WellFormed c.structs) (hlocals : SameLocals scopes locals) {place : Variable}
    {target value : Expr} {op : AssignOp} {root : Lvalue} (htarget : PlaceTyped c scopes target root)
    (hplace : place.ty = root.ty) (hvalue : HasType c scopes value (.value root.ty))
    (hallowed : op.Allowed root.ty) : Simulates sources locals
      (Reporting locals (exprChecks c scopes value ++ assignChecks c scopes target op))
      (f.assignedValue place op value target.span) (f.plain.assignedValue place op value target.span) := by
  have hvalueSimulates := HasType.simulates hf hagrees hΓ hlocals hvalue
  unfold assignedValue assignChecks
  cases hop : Source.binaryOp op with
  | none =>
    refine (hplace ▸ hvalueSimulates.expected rfl).mono fun _ _ _ ⟨hscopes, _, hreported⟩ => ?_
    exact ⟨hscopes, by rw [hreported]; simp⟩
  | some binaryOp =>
    obtain ⟨hlogical, hresult⟩ := binaryOp_allowed hop hallowed
    have hscalar : root.ty.resolvedArray = none := by
      rcases BinaryOp.scalar_of_result hresult with h | h | h <;> rw [h] <;> rfl
    refine .bind (load_simulates place) fun left _ _ ⟨hscopes, hleft, hreported⟩ => ?_
    subst hscopes hreported
    refine .bind (hvalueSimulates.expression (hvalue.isArrayLiteral hscalar))
      fun right _ _ ⟨hscopes, _, hreported⟩ => ?_
    subst hscopes hreported
    refine (binary_simulates hf hlogical hresult (hplace ▸ hleft)).mono
      fun _ _ _ ⟨hscopes, _, hreported⟩ => ⟨hscopes, ?_⟩
    rw [hreported, htarget.hasType.inferExpr_value hagrees.wellFormed hΓ htarget.isArrayLiteral]
    rfl

theorem assignStatement_simulates (hf : f.Locating sources) (hagrees : f.Agrees c)
    (hΓ : scopes.WellFormed c.structs) (hlocals : SameLocals scopes locals) {target value : Expr}
    {op : AssignOp} {root : Lvalue} (htarget : PlaceTyped c scopes target root)
    (hvalue : HasType c scopes value (.value root.ty)) (hallowed : op.Allowed root.ty) :
    Simulates sources locals (Reporting locals
        (exprChecks c scopes target ++ (exprChecks c scopes value ++ assignChecks c scopes target op)))
      (f.assignStatement target op value) (f.plain.assignStatement target op value) := by
  refine .bind (PlaceTyped.simulates hf hagrees hΓ hlocals htarget) fun place _ _ ⟨hscopes, hplace⟩ => ?_
  subst hscopes
  refine .expect fun place hfound => ?_
  subst hfound
  rcases hplace with ⟨_, heq, hty, rfl⟩ | ⟨hnone, -⟩
  · obtain rfl := Option.some.inj heq
    refine .after (assignedValue_simulates hf hagrees hΓ hlocals htarget hty hvalue hallowed) fun _ => ?_
    exact .last (store_simulates _ _ _) fun _ => ⟨rfl, by rw [List.append_nil]⟩
  · cases hnone

theorem returnStatement_simulates (hf : f.Locating sources) (hagrees : f.Agrees c)
    (hΓ : scopes.WellFormed c.structs) (hlocals : SameLocals scopes locals) {value : Expr}
    {ty : ValueType} (hreturn : c.returnType = .value ty) (hvalue : HasType c scopes value (.value ty)) :
    Simulates sources locals (Reporting locals (exprChecks c scopes value))
      (f.returnStatement (some value)) (f.plain.returnStatement (some value)) := by
  have hplain : f.plain.function.returnType = f.function.returnType := rfl
  unfold returnStatement
  rw [hplain, hagrees.returnType, hreturn]
  refine .expect fun _ hfound => ?_
  obtain rfl := Option.some.inj hfound
  refine .bind ((HasType.simulates hf hagrees hΓ hlocals hvalue).expected rfl)
    fun _ _ _ ⟨hscopes, hty, hreported⟩ => ?_
  subst hscopes hreported
  refine valueType_simulates hty (.expect fun _ _ => ?_)
  exact .last (.terminate rfl) fun _ => ⟨rfl, by rw [List.append_nil]⟩

theorem scopesAfter_eq {scopes' : Scopes} {statement : Stmt} (h : StmtTyped c scopes statement scopes') :
    scopesAfter scopes statement = scopes' := by
  cases h <;> rfl

/-- What keeps the locals. -/
theorem leaves_of_reporting {m m' : EmitM Unit} (hlocals : SameLocals scopes locals)
    (h : Simulates sources locals (Reporting locals checks) m m') :
    Simulates sources locals (Leaves scopes locals.tail checks) m m' :=
  .last h fun _ => ⟨rfl, hlocals, rfl⟩

mutual

theorem statement_simulates (hf : f.Locating sources) (hfixed : f.Fixed) (hagrees : f.Agrees c) :
    (statement : Stmt) → ∀ {bindings scopes scopes' locals},
    Scopes.WellFormed c.structs (bindings :: scopes) → SameLocals (bindings :: scopes) locals →
    StmtTyped c (bindings :: scopes) statement scopes' →
    Simulates sources locals (Leaves scopes' locals.tail (stmtChecks c (bindings :: scopes) statement))
      (f.statement statement) (f.plain.statement statement)
  | .letVar name ty init span, _, _, _, _, hΓ, hlocals, .letVar hwf hinit => by
    rw [statement, statement, stmtChecks]
    exact letStatement_simulates hlocals ((HasType.simulates hf hagrees hΓ hlocals hinit).expected rfl)
  | .assign target op value span, _, _, _, _, hΓ, hlocals, .assign htarget _ hvalue hallowed => by
    rw [statement, statement, stmtChecks]
    exact leaves_of_reporting hlocals
      (assignStatement_simulates hf hagrees hΓ hlocals htarget hvalue hallowed)
  | .expr e span, _, _, _, _, hΓ, hlocals, .expr he htyped => by
    rw [statement, statement, stmtChecks]
    refine .bind ((HasType.simulates hf hagrees hΓ hlocals htyped).expression he)
      fun _ _ _ ⟨hscopes, _, hreported⟩ => ?_
    subst hscopes hreported
    exact .pure ⟨rfl, hlocals, by rw [List.append_nil]⟩
  | .ifElse condition thenBlock none span, _, _, _, _, hΓ, hlocals, .ifElse hcondition hthen _ => by
    have hconditionSimulates := HasType.simulates hf hagrees hΓ hlocals hcondition
    rw [statement, statement, stmtChecks]
    exact leaves_of_reporting hlocals (ifStatement_simulates
      (hconditionSimulates.expression (hcondition.isArrayLiteral rfl))
      (statements_simulates hf hfixed hagrees thenBlock hΓ.push (.cons (fun _ => rfl) hlocals) hthen))
  | .ifElse condition thenBlock (some elseBlock) span, _, _, _, _, hΓ, hlocals,
      .ifElse hcondition hthen helse => by
    have hconditionSimulates := HasType.simulates hf hagrees hΓ hlocals hcondition
    rw [statement, statement, stmtChecks]
    exact leaves_of_reporting hlocals (ifElseStatement_simulates
      (hconditionSimulates.expression (hcondition.isArrayLiteral rfl))
      (statements_simulates hf hfixed hagrees thenBlock hΓ.push (.cons (fun _ => rfl) hlocals) hthen)
      (statements_simulates hf hfixed hagrees elseBlock hΓ.push (.cons (fun _ => rfl) hlocals)
        (helse elseBlock rfl)))
  | .whileLoop condition body span, _, _, _, _, hΓ, hlocals, .whileLoop hcondition hbody => by
    have hconditionSimulates := HasType.simulates hf hagrees hΓ hlocals hcondition
    rw [statement, statement, stmtChecks]
    exact leaves_of_reporting hlocals (whileStatement_simulates
      (hconditionSimulates.expression (hcondition.isArrayLiteral rfl))
      (statements_simulates hf hfixed hagrees body hΓ.push (.cons (fun _ => rfl) hlocals) hbody))
  | .forLoop name nameSpan lower upper body span, _, _, _, _, hΓ, hlocals,
      .forLoop hlower hupper hbody => by
    have hlowerSimulates := HasType.simulates hf hagrees hΓ hlocals hlower
    have hupperSimulates := HasType.simulates hf hagrees hΓ hlocals hupper
    have hinner : Scopes.WellFormed c.structs
        (AList.singleton name ⟨.i32, .loopVariable⟩ :: _ :: _) := hΓ.cons fun hlookup => by
      obtain ⟨-, rfl⟩ := HashMap.lookup_singleton.mp hlookup
      trivial
    rw [statement, statement, stmtChecks]
    exact leaves_of_reporting hlocals (forStatement_simulates name
      (hlowerSimulates.expression (hlower.isArrayLiteral rfl))
      (hupperSimulates.expression (hupper.isArrayLiteral rfl)) fun pointer =>
      statements_simulates hf hfixed hagrees body hinner
        (.cons (lookup_loopVariable name pointer) hlocals) hbody)
  | .ret none span, _, _, _, _, _, hlocals, .ret _ => by
    rw [statement, statement, stmtChecks]
    exact leaves_of_reporting hlocals (.terminate rfl)
  | .ret (some value) span, _, _, _, _, hΓ, hlocals, .retValue hty hvalue => by
    rw [statement, statement, stmtChecks]
    exact leaves_of_reporting hlocals (returnStatement_simulates hf hagrees hΓ hlocals hty hvalue)

theorem statements_simulates (hf : f.Locating sources) (hfixed : f.Fixed) (hagrees : f.Agrees c) :
    (block : List Stmt) → ∀ {bindings scopes locals},
    Scopes.WellFormed c.structs (bindings :: scopes) → SameLocals (bindings :: scopes) locals →
    BlockTyped c (bindings :: scopes) block →
    SimulatesBlock sources locals (blockChecks c (bindings :: scopes) block)
      (f.statements block) (f.plain.statements block)
  | [], _, _, _, _, _, _ => by
    rintro opening s lines' reported rfl _ hrelated _ _ hrun
    rw [statements] at hrun
    obtain ⟨-, rfl⟩ := Prod.mk.inj (Option.some.inj hrun)
    refine ⟨lines', by rw [statements]; rfl, ?_, rfl⟩
    rwa [blockChecks, List.append_nil]
  | first :: rest, bindings, scopes, _, hΓ, hlocals, .cons hfirst hrest => by
    rintro opening s lines' reported rfl hrunning hrelated _ t hrun
    have hcons (f : FunctionEmitter) (s : State) (hrunning : s.terminated = false) :
        f.statements (first :: rest) s = (f.statement first s).bind fun p => f.statements rest p.2 := by
      rw [statements]
      change (if s.terminated = true then pure () else (do f.statement first; f.statements rest) :
        EmitM Unit) s = _
      rw [hrunning]
      rfl
    rw [hcons f s hrunning] at hrun
    obtain ⟨⟨_, s₁⟩, hrun₁, hrun₂⟩ := Option.bind_eq_some_iff.mp hrun
    obtain ⟨lines₁, _, hplain₁, hrelated₁, htail₁, hlocals₁, rfl⟩ :=
      statement_simulates hf hfixed hagrees first hΓ hlocals hfirst opening s lines' reported rfl hrelated
        () s₁ hrun₁
    have hterminated := statement_terminated hfixed hrunning hrun₁
    rw [hcons f.plain { s with lines := lines' } hrunning, hplain₁, blockChecks]
    cases hreturns : first.returns with
    | true =>
      rw [hreturns] at hterminated
      change f.statements rest s₁ = _ at hrun₂
      rw [statements_of_terminated hterminated] at hrun₂
      obtain ⟨-, rfl⟩ := Prod.mk.inj (Option.some.inj hrun₂)
      refine ⟨lines₁, statements_of_terminated hterminated, ?_, htail₁⟩
      rwa [if_pos rfl, List.append_nil]
    | false =>
      rw [hreturns] at hterminated
      obtain ⟨bindings₁, rfl⟩ := exists_scope hfirst
      obtain ⟨lines₂, hplain₂, hrelated₂, htail₂⟩ := statements_simulates hf hfixed hagrees rest
        (hfirst.wellFormed hΓ) hlocals₁ hrest opening s₁ lines₁ _ rfl hterminated hrelated₁ () t hrun₂
      refine ⟨lines₂, hplain₂, ?_, htail₂.trans htail₁⟩
      rw [if_neg Bool.false_ne_true, scopesAfter_eq hfirst, ← List.append_assoc]
      exact hrelated₂

end

/-! ## Functions -/

theorem params_simulates (index : ℕ) (params : List Param) {bindings : HashMap Binding}
    (hlocals : SameLocals (bindings :: scopes) locals) : Simulates sources locals
      (Leaves (bindings.extend (params.map fun param => (param.name, ⟨param.ty, .mutable⟩)) :: scopes)
        locals.tail []) (FunctionEmitter.params index params) (FunctionEmitter.params index params) := by
  induction params generalizing index bindings locals with
  | nil => exact .pure ⟨rfl, hlocals, rfl⟩
  | cons param rest ih =>
    refine .expect fun _ _ => .seq (.define _) fun pointer => .seq (.instruction rfl) fun _ => ?_
    refine .bind (declare_simulates (b := ⟨param.ty, .mutable⟩) rfl hlocals)
      fun _ locals' _ ⟨htail, hlocals', hreported⟩ => ?_
    subst hreported
    rw [← htail]
    exact ih (index + 1) hlocals'

theorem declare_terminated {name : String} {place : Variable} {s t : State}
    {a : Unit} (h : declare name place s = some (a, t)) : t.terminated = s.terminated := by
  unfold declare at h
  split at h
  · cases h
  · obtain ⟨-, rfl⟩ := Prod.mk.inj (Option.some.inj h)
    rfl

/-- The parameters put no terminator. -/
theorem params_terminated {index : ℕ} {params : List Param} {s t : State}
    (h : FunctionEmitter.params index params s = some ((), t)) : t.terminated = s.terminated := by
  induction params generalizing index s with
  | nil =>
    obtain ⟨-, rfl⟩ := Prod.mk.inj (Option.some.inj h)
    rfl
  | cons param rest ih =>
    obtain ⟨ty, -, h⟩ := exists_of_expect_bind h
    obtain ⟨⟨_, s₁⟩, hdeclare, hrest⟩ := Option.bind_eq_some_iff.mp h
    have hsame := declare_terminated hdeclare
    exact (ih hrest).trans hsame

/-- The lines of a function for a development build and those for a plain build. -/
theorem emitLines_locates (hf : f.Locating sources) (hfixed : f.Fixed) (hagrees : f.Agrees c)
    (hparams : ∀ param ∈ f.function.params, param.ty.WellFormed c.structs)
    (hbody : BlockTyped c [paramScope f.function.params] f.function.body) {titleLength : ℕ} {s : State}
    (h : f.emitLines titleLength .new = some ((), s)) :
    ∃ s', f.plain.emitLines titleLength .new = some ((), s') ∧
      Locates sources (blockChecks c [paramScope f.function.params] f.function.body)
        (s.lines.map Line.write) (s'.lines.map Line.write) := by
  let close (f : FunctionEmitter) : EmitM Unit := do
    if (← get).terminated then pure ()
    else if f.function.returnType = .void then terminate ["ret void"]
    else terminate ["unreachable"]
    pushLine .close
  have hclose (locals : Locals) : Simulates sources locals (Reporting locals []) (close f)
      (close f.plain) := by
    refine .get fun s lines' _ _ => ?_
    dsimp only
    split
    · exact .pushLine rfl
    · have hplain : f.plain.function.returnType = f.function.returnType := rfl
      rw [hplain]
      split
      · exact .seq (.terminate rfl) fun _ => .pushLine rfl
      · exact .seq (.terminate rfl) fun _ => .pushLine rfl
  let rest (f : FunctionEmitter) : EmitM Unit := do
    params 0 f.function.params
    f.statements f.function.body
    close f
  have hrest : SimulatesBlock sources [∅]
      (blockChecks c [paramScope f.function.params] f.function.body) (rest f) (rest f.plain) := by
    intro opening s lines' reported hscopes hrunning hrelated _ t hrun
    obtain ⟨⟨_, s₁⟩, hrun₁, hrun⟩ := Option.bind_eq_some_iff.mp hrun
    obtain ⟨⟨_, s₂⟩, hrun₂, hrun₃⟩ := Option.bind_eq_some_iff.mp hrun
    have hlocals : SameLocals [∅] [∅] := .cons (fun _ => rfl) .nil
    obtain ⟨lines₁, _, hplain₁, hrelated₁, htail₁, hlocals₁, rfl⟩ := params_simulates 0
      f.function.params hlocals opening s lines' reported hscopes hrelated () s₁ hrun₁
    obtain ⟨lines₂, hplain₂, hrelated₂, htail₂⟩ := statements_simulates hf hfixed hagrees f.function.body
      (paramScope_wellFormed hparams) hlocals₁ hbody opening s₁ lines₁ _ rfl
      ((params_terminated hrun₁).trans hrunning) hrelated₁ () s₂ hrun₂
    obtain ⟨lines₃, _, hplain₃, hrelated₃, hscopes₃, rfl⟩ :=
      hclose s₂.scopes opening s₂ lines₂ _ rfl hrelated₂ () t hrun₃
    refine ⟨lines₃, ?_, by simpa using hrelated₃, by rw [hscopes₃, htail₂, htail₁]⟩
    change (params 0 f.function.params { s with lines := lines' }).bind (fun p =>
      (f.plain.statements f.function.body p.2).bind fun p => close f.plain p.2) = _
    rw [hplain₁, Option.bind_some, hplain₂, Option.bind_some]
    exact hplain₃
  let body (f : FunctionEmitter) : EmitM Unit :=
    if f.function.kind = .start then
      instruction ["call void @crumb_storage_init(ptr @spk_storage_identity_data, i64 ",
        decimalText titleLength, ")"] >>= fun _ => rest f
    else rest f
  have hbody' : SimulatesBlock sources [∅]
      (blockChecks c [paramScope f.function.params] f.function.body) (body f) (body f.plain) := by
    have hkind : f.plain.function.kind = f.function.kind := rfl
    dsimp only [body]
    rw [hkind]
    split
    · intro opening s lines' reported hscopes hrunning hrelated a t hrun
      let init : Line := .instruction ⟨none,
        ["call void @crumb_storage_init(ptr @spk_storage_identity_data, i64 ",
          decimalText titleLength, ")"]⟩
      have hline : Related sources (reported ++ []) opening (s.lines ++ [init]) (lines' ++ [init]) :=
        hrelated.line rfl
      rw [List.append_nil] at hline
      exact hrest opening { s with lines := s.lines ++ [init] } _ _ hscopes hrunning hline a t hrun
    · exact hrest
  unfold emitLines at h
  obtain ⟨header, hheader, h⟩ := exists_of_expect_bind h
  obtain ⟨returnType, hreturnType, h⟩ := exists_of_expect_bind h
  let opening : List Line := [.define ("define ".toList ++ returnType ++ " @".toList ++ f.symbol ++
    "(".toList ++ header ++ ") \x7b".toList), .label .entry]
  have hopened : Related sources [] opening (opening ++ []) (opening ++ []) := .of_append rfl .nil
  obtain ⟨lines', hplain, hrelated, -⟩ := hbody' opening { State.new with lines := opening } opening []
    rfl rfl hopened () s h
  refine ⟨{ s with lines := lines' }, ?_, ?_⟩
  · have hplainParams : f.plain.function.params = f.function.params := rfl
    have hplainReturn : f.plain.function.returnType = f.function.returnType := rfl
    unfold emitLines
    rw [hplainParams, hplainReturn, hheader, hreturnType]
    exact hplain
  · rw [hrelated.eq]
    change Locates sources _ _ (lines'.map Line.write)
    rw [hrelated.eq', List.map_append, List.map_append]
    exact Locates.append (.append (.line rfl) (.line rfl)) hrelated.locates

end

end FunctionEmitter

end Emitter

end Speck
