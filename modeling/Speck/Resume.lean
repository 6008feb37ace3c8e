import Speck.ConstantEval

/-!
# What a suspended evaluation has left

`Expr.demand` evaluates a constant expression by recursion on it, as a computation that
asks for each constant it refers to. It is the specification of `Evaluation` : the
stack machine, wherever it is suspended, has some computation left (`Evaluation.demand`),
and `resume_spec` says that resuming runs that computation against the lookup. A machine
that stops at a reference has exactly the question and its continuation left, so what
was evaluated before is not evaluated again.
-/

namespace Speck

open Demand

/-- A computation over constants. -/
abbrev ConstantDemand (A : Type) := Demand String Span ConstantValue Diagnostic A

/-- The values of a struct literal's fields in declaration order, from what its
initializers compute. A field without an initializer is reported before any is evaluated. -/
def fieldDemands (initializers : List (String × (Option ValueType → ConstantDemand ConstantValue)))
    (name : String) (span : Span) :
    List StructField → Except Diagnostic (ConstantDemand (List ConstantValue))
  | [] => .ok (done [])
  | field :: rest =>
    match initializers.lookup field.name with
    | none => .error (missingInitializer field.name name span)
    | some demand =>
      (fieldDemands initializers name span rest).map fun values => do
        let value ← demand (some field.ty)
        let values ← values
        return value :: values

section

variable [F32Primitives] (structs : HashMap StructDecl)

mutual

/-- The direct recursive evaluation of a constant expression. -/
def Expr.demand : Expr → Option ValueType → ConstantDemand ConstantValue
  | .i32 value span, _ =>
    if i32InRange value then done (.i32 (BitVec.ofInt 32 value))
    else fail ⟨"integer literal does not fit in `i32`", span⟩
  | .f32 value span, _ =>
    if value.isFinite then done (.f32 value)
    else fail ⟨"floating-point constant must be finite", span⟩
  | .bool value _, _ => done (.bool value)
  | .arrayLiteral elements span, expected =>
    match expected.bind ValueType.resolvedArray with
    | none => fail ⟨"array literal requires an explicit array type annotation", span⟩
    | some (element, length) =>
      if elements.length ≠ length then
        fail ⟨s!"expected array length {length}, found {elements.length} elements", span⟩
      else do
        let values ← elementDemands elements (some element)
        let _ ← ofExcept (checkAggregateDepth values span)
        return .array element values
  | .structLiteral name fields span, expected =>
    match expected with
    | some (.struct expectedName) =>
      if name ≠ expectedName then
        fail ⟨s!"expected struct `{expectedName}`, found struct literal `{name}`", span⟩
      else
        match structs.lookup name with
        | none => fail ⟨s!"unknown struct type `{name}`", span⟩
        | some declaration =>
          match fieldDemands (initializerDemands fields) name span declaration.fields with
          | .error d => fail d
          | .ok values => do
            let values ← values
            let _ ← ofExcept (checkAggregateDepth values span)
            return .struct name ((declaration.fields.map (·.name)).zip values)
    | _ => fail ⟨"struct literal requires a matching struct type annotation", span⟩
  | .var name span, _ => ask name span done
  | .index base index span, _ => do
    let base ← base.demand none
    let index ← index.demand none
    ofExcept (indexValue base index span)
  | .field base name _ span, _ => do
    let base ← base.demand none
    ofExcept (fieldValue base name span)
  | .call name _ span, _ => fail ⟨s!"constant expressions cannot call function `{name}`", span⟩
  | .conversion target args span, _ =>
    match args with
    | [arg] => do
      let value ← arg.demand none
      ofExcept (withSpan arg.span (convertConstant target.val value))
    | _ => fail ⟨s!"conversion to `{target.val.name}` expects 1 argument, but received {args.length}",
        span⟩
  | .unary op operand span, _ =>
    if op = .negate && operand.isMinMagnitude then done (.i32 (BitVec.intMin 32))
    else do
      let value ← operand.demand none
      ofExcept (withSpan span (unaryValue op value))
  | .binary left op right span, _ => do
    let left ← left.demand none
    if op.isLogical then
      match left with
      | .bool value =>
        if value == (op == .logicalOr) then return .bool value
        else
          match ← right.demand none with
          | .bool value => return .bool value
          | _ => fail (booleanError op span)
      | _ => fail (booleanError op span)
    else
      let right ← right.demand none
      ofExcept (withSpan span (evaluateBinary left op right))

/-- The elements of an array literal, left to right. -/
def elementDemands : List Expr → Option ValueType → ConstantDemand (List ConstantValue)
  | [], _ => done []
  | e :: es, expected => do
    let value ← e.demand expected
    let values ← elementDemands es expected
    return value :: values

def initializerDemands :
    List (FieldInitializer Expr) → List (String × (Option ValueType → ConstantDemand ConstantValue))
  | [] => []
  | ⟨name, value, _⟩ :: fields => (name, value.demand) :: initializerDemands fields

end

/-! ## Tasks as computations -/

/-- What a task does to the operands, up to and including the tasks it leaves. -/
def Task.demand : Task → List ConstantValue → ConstantDemand (List ConstantValue)
  | .expression e expected, values => do
    let value ← e.demand structs expected
    return value :: values
  | .binaryLeft op right span, values =>
    match Evaluation.branchLeft op right span values with
    | .error d => fail d
    | .ok ([], values) => done values
    | .ok (_ :: _, values) => do
      let value ← right.demand structs none
      ofExcept (Evaluation.operate
        (if op.isLogical then .booleanRight op span else .binaryFinish op span) (value :: values))
  | task, values => ofExcept (Evaluation.operate task values)

def tasksDemand : List Task → List ConstantValue → ConstantDemand (List ConstantValue)
  | [], values => done values
  | task :: tasks, values => do
    let values ← task.demand structs values
    tasksDemand tasks values

/-- The value an evaluation without tasks ends in. -/
def topValue : List ConstantValue → ConstantDemand ConstantValue
  | value :: _ => done value
  | [] => fail unbalanced

/-- What is left of an evaluation. -/
def Evaluation.demand (ev : Evaluation) : ConstantDemand ConstantValue := do
  let values ← tasksDemand structs ev.tasks ev.values
  topValue values

theorem tasksDemand_append (tasks tasks' : List Task) (values : List ConstantValue) :
    tasksDemand structs (tasks ++ tasks') values =
      tasksDemand structs tasks values >>= tasksDemand structs tasks' := by
  induction tasks generalizing values with
  | nil => rfl
  | cons task tasks ih => simp only [List.cons_append, tasksDemand, ih, Demand.bind_assoc]

/-- The tasks of an array literal's elements push their values in order. -/
theorem tasksDemand_elements (elements : List Expr) (expected : Option ValueType)
    (values : List ConstantValue) :
    tasksDemand structs (elements.map (Task.expression · expected)) values =
      elementDemands structs elements expected >>= fun vs => done (vs.reverse ++ values) := by
  induction elements generalizing values with
  | nil => rfl
  | cons e es ih =>
    simp only [List.map_cons, tasksDemand, Task.demand, elementDemands, Demand.bind_assoc,
      pure_eq, done_bind, ih, List.reverse_cons, List.append_assoc, List.singleton_append]

theorem lookup_initializerDemands (fields : List (FieldInitializer Expr)) (name : String) :
    (initializerDemands structs fields).lookup name =
      (initializerOf fields name).map fun initializer => initializer.value.demand structs := by
  induction fields with
  | nil => rfl
  | cons field fields ih =>
    rw [initializerDemands, List.lookup_cons, initializerOf, List.find?_cons]
    by_cases h : field.name = name
    · simp [h]
    · have h' : (name == field.name) = false := by simpa using Ne.symm h
      simp only [h', beq_eq_false_iff_ne.mpr h]
      exact ih

/-- The tasks of a struct literal's initializers push the values of its fields in
declaration order, or the same initializer is missing. -/
theorem structChildren_demand (name : String) (fields : List (FieldInitializer Expr)) (span : Span)
    (declared : List StructField) :
    match structChildren name fields span declared,
      fieldDemands (initializerDemands structs fields) name span declared with
    | .ok children, .ok demand => ∀ values, tasksDemand structs children values =
        demand >>= fun vs => done (vs.reverse ++ values)
    | .error d, .error d' => d = d'
    | _, _ => False := by
  induction declared with
  | nil =>
    intro values
    rfl
  | cons field rest ih =>
    rw [structChildren, fieldDemands, lookup_initializerDemands]
    cases initializerOf fields field.name with
    | none => rfl
    | some initializer =>
      revert ih
      cases structChildren name fields span rest <;>
        cases fieldDemands (initializerDemands structs fields) name span rest <;>
        simp only [Except.map, Option.map_some, imp_self]
      intro ih values
      simp only [tasksDemand, Task.demand, Demand.bind_assoc, pure_eq, done_bind, ih,
        List.reverse_cons, List.append_assoc, List.singleton_append]

omit [F32Primitives] in
theorem splitOff_append (vs values : List ConstantValue) :
    splitOff (vs.reverse ++ values) values.length = (vs, values) := by
  simp [splitOff]

/-- Expanding an expression leaves the same computation. -/
theorem expand_demand {e : Expr} (hvar : ¬e.isVar) (expected : Option ValueType)
    (ev : Evaluation) :
    match ev.expand structs e expected with
    | .ok ev' => tasksDemand structs (.expression e expected :: ev.tasks) ev.values =
        tasksDemand structs ev'.tasks ev'.values
    | .error d => e.demand structs expected = fail d := by
  cases e with
  | i32 value span =>
    rw [Evaluation.expand]
    by_cases h : i32InRange value = true
    · simp [tasksDemand, Task.demand, Expr.demand, h]
    · simp [Expr.demand, h]
  | f32 value span =>
    rw [Evaluation.expand]
    by_cases h : value.isFinite = true
    · simp [tasksDemand, Task.demand, Expr.demand, h]
    · simp [Expr.demand, h]
  | bool value span => rfl
  | arrayLiteral elements span =>
    rw [Evaluation.expand]
    cases h : expected.bind ValueType.resolvedArray with
    | none => simp [Expr.demand, h]
    | some p =>
      obtain ⟨element, length⟩ := p
      by_cases hlen : elements.length ≠ length
      · simp only [if_pos hlen, Expr.demand, h]
      · simp only [if_neg hlen, tasksDemand, Task.demand, Expr.demand, h, tasksDemand_append,
          tasksDemand_elements, Demand.bind_assoc, pure_eq, done_bind, Evaluation.operate,
          splitOff_append]
        congr 1
        funext vs
        cases checkAggregateDepth vs span <;> rfl
  | structLiteral name fields span =>
    rcases expected with _ | ty
    · rfl
    cases ty
    case struct expectedName =>
      rw [Evaluation.expand]
      by_cases hne : name ≠ expectedName
      · simp only [if_pos hne, Expr.demand]
      · simp only [if_neg hne]
        cases hd : structs.lookup name with
        | none => simp only [Expr.demand, if_neg hne, hd]
        | some declaration =>
          have hc := structChildren_demand structs name fields span declaration.fields
          revert hc
          simp only [Expr.demand, if_neg hne, hd, tasksDemand, Task.demand]
          cases structChildren name fields span declaration.fields <;>
            cases fieldDemands (initializerDemands structs fields) name span declaration.fields <;>
            simp only [Except.map, false_implies]
          · rintro rfl
            rfl
          · intro hc
            simp only [tasksDemand_append, hc, Demand.bind_assoc, done_bind, tasksDemand,
              Task.demand, Evaluation.operate, splitOff_append, pure_eq]
            congr 1
            funext vs
            cases checkAggregateDepth vs span <;> rfl
    all_goals rfl
  | var name span => simp [Expr.isVar] at hvar
  | index base index span =>
    simp only [Evaluation.expand, tasksDemand, Task.demand, Expr.demand, Demand.bind_assoc,
      pure_eq, done_bind, Evaluation.operate]
    congr 1
    funext b
    congr 1
    funext i
    cases indexValue b i span <;> rfl
  | field base name nameSpan span =>
    simp only [Evaluation.expand, tasksDemand, Task.demand, Expr.demand, Demand.bind_assoc,
      pure_eq, done_bind, Evaluation.operate]
    congr 1
    funext b
    cases fieldValue b name span <;> rfl
  | unary op operand span =>
    rw [Evaluation.expand]
    by_cases h : (op = .negate && operand.isMinMagnitude) = true
    · simp only [if_pos h, tasksDemand, Task.demand, Expr.demand, done_bind, pure_eq]
    · simp only [if_neg h, tasksDemand, Task.demand, Expr.demand, Demand.bind_assoc,
        pure_eq, done_bind, Evaluation.operate]
      congr 1
      funext v
      cases withSpan span (unaryValue op v) <;> rfl
  | binary left op right span =>
    simp only [Evaluation.expand, tasksDemand, Task.demand, Expr.demand, Demand.bind_assoc,
      pure_eq, done_bind, Evaluation.branchLeft]
    congr 1
    funext l
    by_cases hop : op.isLogical = true
    · simp only [if_pos hop]
      cases l with
      | bool value =>
        by_cases hv : (value == (op == BinaryOp.logicalOr)) = true
        · simp only [if_pos hv, done_bind]
        · simp only [if_neg hv, Demand.bind_assoc]
          congr 1
          funext r
          cases r <;> rfl
      | _ => rfl
    · simp only [if_neg hop, Demand.bind_assoc, Evaluation.operate]
      congr 1
      funext r
      cases withSpan span (evaluateBinary l op r) <;> rfl
  | call name args span => rfl
  | conversion target args span =>
    rcases args with _ | ⟨arg, _ | ⟨second, rest⟩⟩
    · rfl
    · simp only [Evaluation.expand, tasksDemand, Task.demand, Expr.demand, Demand.bind_assoc,
        pure_eq, done_bind, Evaluation.operate]
      congr 1
      funext v
      cases withSpan arg.span (convertConstant target.val v) <;> rfl
    · rfl

/-- A task that is neither an expression nor the left of a binary operation leaves none. -/
def Task.isOperator : Task → Bool
  | .expression _ _ | .binaryLeft _ _ _ => false
  | _ => true

omit [F32Primitives] in
theorem branchLeft_tasks {op : BinaryOp} {right : Expr} {span : Span}
    {values values' : List ConstantValue} {tasks : List Task}
    (h : Evaluation.branchLeft op right span values = .ok (tasks, values')) :
    tasks = [] ∨ tasks = [.expression right none,
      if op.isLogical then .booleanRight op span else .binaryFinish op span] := by
  unfold Evaluation.branchLeft at h
  split at h
  · split at h
    · split at h
      · exact .inl (by simp_all)
      · exact .inr (by simp_all)
    · cases h
    · cases h
  · exact .inr (by simp_all)

section Step

variable {E : Type} [FromDiagnostic E] (lookup : String → Span → Except E ConstantValue)

/-- What one step may do : the same run is left, or the computation fails by itself, or its
question is refused and left as it was. -/
def StepDemand (task : Task) (ev : Evaluation) (result : Evaluation × Except E Unit) : Prop :=
  match result with
  | (ev', .ok ()) => run lookup (Evaluation.demand structs ⟨task :: ev.tasks, ev.values⟩) =
      run lookup (ev'.demand structs)
  | (ev', .error e) =>
    (∃ d, run lookup (Evaluation.demand structs ⟨task :: ev.tasks, ev.values⟩) = .fail d ∧
      e = FromDiagnostic.ofDiagnostic d) ∨
    (∃ n s k, run lookup (Evaluation.demand structs ⟨task :: ev.tasks, ev.values⟩) =
      .stop n s k e ∧ ev'.demand structs = ask n s k)

variable {structs} {lookup}

theorem stepDemand_fail {task : Task} {ev ev' : Evaluation} {d : Diagnostic}
    (h : task.demand structs ev.values = fail d) :
    StepDemand structs lookup task ev (ev', .error (FromDiagnostic.ofDiagnostic d)) := by
  refine Or.inl ⟨d, ?_, rfl⟩
  simp [Evaluation.demand, tasksDemand, h, run]

theorem step_demand_var (name : String) (span : Span) (expected : Option ValueType)
    (ev : Evaluation) : StepDemand structs lookup (.expression (.var name span) expected) ev
      (Evaluation.step structs lookup (.expression (.var name span) expected) ev) := by
  have hask : Evaluation.demand structs ⟨.expression (.var name span) expected :: ev.tasks,
      ev.values⟩ = ask name span fun value =>
        Evaluation.demand structs ⟨ev.tasks, value :: ev.values⟩ := by
    simp [Evaluation.demand, tasksDemand, Task.demand, Expr.demand]
  simp only [Evaluation.step]
  cases hl : lookup name span with
  | ok value => simp [StepDemand, hask, run, hl]
  | error e =>
    refine Or.inr ⟨name, span, _, ?_, hask⟩
    simp only [hask, run, hl]

/-- An expression other than a variable is expanded. -/
theorem step_expression {e : Expr} (hvar : ¬e.isVar) (expected : Option ValueType)
    (ev : Evaluation) : Evaluation.step structs lookup (.expression e expected) ev =
      match ev.expand structs e expected with
      | .ok ev' => (ev', .ok ())
      | .error d => (ev, .error (FromDiagnostic.ofDiagnostic d)) := by
  cases e <;> first | rfl | simp [Expr.isVar] at hvar

theorem step_operator {task : Task} (htask : task.isOperator) (ev : Evaluation) :
    Evaluation.step structs lookup task ev =
      match Evaluation.operate task ev.values with
      | .ok values => (⟨ev.tasks, values⟩, .ok ())
      | .error d => (ev, .error (FromDiagnostic.ofDiagnostic d)) := by
  cases task <;> first | rfl | simp [Task.isOperator] at htask

theorem step_demand_expression {e : Expr} (hvar : ¬e.isVar) (expected : Option ValueType)
    (ev : Evaluation) : StepDemand structs lookup (.expression e expected) ev
      (Evaluation.step structs lookup (.expression e expected) ev) := by
  have h := expand_demand structs hvar expected ev
  rw [step_expression hvar]
  revert h
  cases ev.expand structs e expected with
  | ok ev' =>
    intro h
    simp only [StepDemand, Evaluation.demand, h]
  | error d =>
    intro h
    exact stepDemand_fail (by simp [Task.demand, h])

theorem step_demand_binaryLeft (op : BinaryOp) (right : Expr) (span : Span) (ev : Evaluation) :
    StepDemand structs lookup (.binaryLeft op right span) ev
      (Evaluation.step structs lookup (.binaryLeft op right span) ev) := by
  simp only [Evaluation.step]
  cases h : Evaluation.branchLeft op right span ev.values with
  | error d => exact stepDemand_fail (by simp [Task.demand, h])
  | ok p =>
    obtain ⟨tasks, values⟩ := p
    rcases branchLeft_tasks h with rfl | rfl
    · simp [StepDemand, Evaluation.demand, tasksDemand, Task.demand, h]
    · simp only [StepDemand, Evaluation.demand, tasksDemand, Task.demand, h, Demand.bind_assoc,
        pure_eq, done_bind, List.cons_append, List.nil_append]
      by_cases hop : op.isLogical = true <;> simp [hop]

theorem step_demand_operator {task : Task} (htask : task.isOperator) (ev : Evaluation) :
    StepDemand structs lookup task ev (Evaluation.step structs lookup task ev) := by
  have hdemand : task.demand structs ev.values = ofExcept (Evaluation.operate task ev.values) := by
    cases task <;> first | rfl | simp [Task.isOperator] at htask
  rw [step_operator htask]
  cases h : Evaluation.operate task ev.values with
  | ok values => simp [StepDemand, Evaluation.demand, tasksDemand, hdemand, h]
  | error d => exact stepDemand_fail (by simp [hdemand, h])

variable (structs lookup) in
/-- One step runs what is left up to the next question. -/
theorem step_demand (task : Task) (ev : Evaluation) :
    StepDemand structs lookup task ev (Evaluation.step structs lookup task ev) := by
  cases task with
  | expression e expected =>
    by_cases hvar : e.isVar = true
    · cases e <;> simp [Expr.isVar] at hvar
      exact step_demand_var _ _ _ _
    · exact step_demand_expression hvar expected ev
  | binaryLeft op right span => exact step_demand_binaryLeft op right span ev
  | _ => exact step_demand_operator rfl ev

/-! ## Resuming -/

theorem resume_done (value : ConstantValue) (values : List ConstantValue) :
    Evaluation.resume structs lookup ⟨[], value :: values⟩ = (⟨[], values⟩, .ok value) := by
  rw [Evaluation.resume]

theorem resume_unbalanced : Evaluation.resume structs lookup ⟨[], []⟩ =
    (⟨[], []⟩, .error (FromDiagnostic.ofDiagnostic unbalanced)) := by
  rw [Evaluation.resume]

theorem resume_ok {task : Task} {tasks : List Task} {values : List ConstantValue}
    {ev' : Evaluation} (h : Evaluation.step structs lookup task ⟨tasks, values⟩ = (ev', .ok ())) :
    Evaluation.resume structs lookup ⟨task :: tasks, values⟩ =
      Evaluation.resume structs lookup ev' := by
  rw [Evaluation.resume]
  split
  · next ht => cases ht
  · next ht =>
    obtain ⟨rfl, rfl⟩ := List.cons.inj ht
    split
    · next hs =>
      obtain ⟨rfl, -⟩ := Prod.mk.inj (h.symm.trans hs)
      rfl
    · next hs => cases (Prod.mk.inj (h.symm.trans hs)).2

theorem resume_error {task : Task} {tasks : List Task} {values : List ConstantValue}
    {ev' : Evaluation} {e : E}
    (h : Evaluation.step structs lookup task ⟨tasks, values⟩ = (ev', .error e)) :
    Evaluation.resume structs lookup ⟨task :: tasks, values⟩ = (ev', .error e) := by
  rw [Evaluation.resume]
  split
  · next ht => cases ht
  · next ht =>
    obtain ⟨rfl, rfl⟩ := List.cons.inj ht
    split
    · next hs => cases (Prod.mk.inj (h.symm.trans hs)).2
    · next hs =>
      obtain ⟨rfl, he⟩ := Prod.mk.inj (h.symm.trans hs)
      obtain rfl := Except.error.inj he
      rfl

variable (structs lookup) in
/-- Resuming an evaluation runs what is left of it : it ends with the same value or the
same diagnostic, or stops at the same reference with the rest of the computation left. -/
theorem resume_spec (ev : Evaluation) :
    match run lookup (ev.demand structs) with
    | .done value => (ev.resume structs lookup).2 = .ok value
    | .fail d => (ev.resume structs lookup).2 = .error (FromDiagnostic.ofDiagnostic d)
    | .stop n s k e => (ev.resume structs lookup).2 = .error e ∧
        (ev.resume structs lookup).1.demand structs = ask n s k := by
  induction ev using Evaluation.resume.induct structs lookup with
  | case1 ev ht value values hv =>
    obtain ⟨tasks, vs⟩ := ev
    obtain rfl : tasks = [] := ht
    obtain rfl : vs = value :: values := hv
    simp [resume_done, Evaluation.demand, tasksDemand, topValue, run]
  | case2 ev ht hv =>
    obtain ⟨tasks, vs⟩ := ev
    obtain rfl : tasks = [] := ht
    obtain rfl : vs = [] := hv
    simp [resume_unbalanced, Evaluation.demand, tasksDemand, topValue, run]
  | case3 ev task tasks ht ev' hs ih =>
    obtain ⟨ts, vs⟩ := ev
    obtain rfl : ts = task :: tasks := ht
    have hstep := step_demand structs lookup task ⟨tasks, vs⟩
    rw [hs] at hstep
    simp only [StepDemand] at hstep
    rw [hstep, resume_ok hs]
    exact ih
  | case4 ev task tasks ht ev' e hs =>
    obtain ⟨ts, vs⟩ := ev
    obtain rfl : ts = task :: tasks := ht
    have hstep := step_demand structs lookup task ⟨tasks, vs⟩
    rw [hs] at hstep
    rw [resume_error hs]
    rcases hstep with ⟨d, hrun, rfl⟩ | ⟨n, s, k, hrun, hleft⟩
    · simp only at hrun
      simp [hrun]
    · simp only at hrun
      simp [hrun, hleft]

end Step

/-- A new evaluation has the whole direct evaluation left. -/
theorem demand_new (e : Expr) (expected : Option ValueType) :
    (Evaluation.new e expected).demand structs = e.demand structs expected := by
  simp [Evaluation.new, Evaluation.demand, tasksDemand, Task.demand, topValue,
    Demand.bind_assoc, Demand.bind_done]

/-- A new evaluation ends in a value exactly when the direct evaluation does. -/
theorem resume_new_eq_ok {E : Type} [FromDiagnostic E]
    {lookup : String → Span → Except E ConstantValue} {e : Expr} {expected : Option ValueType}
    {v : ConstantValue} : ((Evaluation.new e expected).resume structs lookup).2 = .ok v ↔
      run lookup (e.demand structs expected) = .done v := by
  have h := resume_spec structs lookup (.new e expected)
  rw [demand_new] at h
  revert h
  cases run lookup (e.demand structs expected) with
  | done w =>
    intro h
    rw [h]
    simp
  | fail d =>
    intro h
    rw [h]
    simp
  | stop n s k e =>
    intro h
    rw [h.1]
    simp

end

end Speck
