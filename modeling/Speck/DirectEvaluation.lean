import Speck.Bytes
import Speck.ConstantValues

/-!
# Direct evaluation

`Expr.value` evaluates a constant expression by recursion on it, in an environment that gives
every reference its value or its diagnostic. `Expr.demand`, the computation that the suspended
evaluations are compared with, has this outcome when the environment answers its questions
(`outcome_demand`).
-/

set_option linter.unusedSectionVars false

namespace Speck

open Demand

/-- What the references of an expression stand for. -/
abbrev Environment := String → Span → Except Diagnostic ConstantValue

/-- The values of the fields of a struct literal, in declaration order. -/
def fieldValues
    (initializers : List (String × (Option ValueType → Except Diagnostic ConstantValue)))
    (name : String) (span : Span) : List StructField → Except Diagnostic (List ConstantValue)
  | [] => .ok []
  | field :: rest =>
    match initializers.lookup field.name with
    | none => .error (missingInitializer field.name name span)
    | some initializer => do
      let value ← initializer (some field.ty)
      let values ← fieldValues initializers name span rest
      return value :: values

section

variable [F32Primitives] (structs : HashMap StructDecl) (env : Environment)

mutual

/-- The direct recursive evaluation of a constant expression, for an expected type. -/
def Expr.value : Expr → Option ValueType → Except Diagnostic ConstantValue
  | .i32 value span, _ =>
    if i32InRange value then .ok (.i32 (BitVec.ofInt 32 value))
    else .error ⟨"integer literal does not fit in `i32`", span⟩
  | .f32 value span, _ =>
    if value.isFinite then .ok (.f32 value)
    else .error ⟨"floating-point constant must be finite", span⟩
  | .bool value _, _ => .ok (.bool value)
  | .arrayLiteral elements span, expected =>
    match expected.bind ValueType.resolvedArray with
    | none => .error ⟨"array literal requires an explicit array type annotation", span⟩
    | some (element, length) =>
      if elements.length ≠ length then
        .error ⟨s!"expected array length {length}, found {elements.length} elements", span⟩
      else do
        let values ← elementValues elements (some element)
        checkAggregateDepth values span
        return .array element values
  | .structLiteral name fields span, expected =>
    match expected with
    | some (.struct expectedName) =>
      if name ≠ expectedName then
        .error ⟨s!"expected struct `{expectedName}`, found struct literal `{name}`", span⟩
      else
        match structs.lookup name with
        | none => .error ⟨s!"unknown struct type `{name}`", span⟩
        | some declaration =>
          -- no initializer is evaluated when one is missing
          match declaration.fields.find? fun field => (initializerOf fields field.name).isNone with
          | some field => .error (missingInitializer field.name name span)
          | none => do
            let values ← fieldValues (initializerValues fields) name span declaration.fields
            checkAggregateDepth values span
            return .struct name ((declaration.fields.map (·.name)).zip values)
    | _ => .error ⟨"struct literal requires a matching struct type annotation", span⟩
  | .var name span, _ => env name span
  | .index base index span, _ => do
    let base ← base.value none
    let index ← index.value none
    indexValue base index span
  | .field base name _ span, _ => do
    let base ← base.value none
    fieldValue base name span
  | .call name _ span, _ => .error ⟨s!"constant expressions cannot call function `{name}`", span⟩
  | .conversion target args span, _ =>
    match args with
    | [arg] => do
      let value ← arg.value none
      withSpan arg.span (convertConstant target.val value)
    | _ => .error
      ⟨s!"conversion to `{target.val.name}` expects 1 argument, but received {args.length}", span⟩
  | .unary op operand span, _ =>
    if op = .negate && operand.isMinMagnitude then .ok (.i32 (BitVec.intMin 32))
    else do
      let value ← operand.value none
      withSpan span (unaryValue op value)
  | .binary left op right span, _ => do
    let left ← left.value none
    if op.isLogical then
      match left with
      | .bool value =>
        if value == (op == .logicalOr) then return .bool value
        else
          match ← right.value none with
          | .bool value => return .bool value
          | _ => .error (booleanError op span)
      | _ => .error (booleanError op span)
    else
      let right ← right.value none
      withSpan span (evaluateBinary left op right)

/-- The elements of an array literal, left to right. -/
def elementValues : List Expr → Option ValueType → Except Diagnostic (List ConstantValue)
  | [], _ => .ok []
  | e :: es, expected => do
    let value ← e.value expected
    let values ← elementValues es expected
    return value :: values

/-- The initializers by name; a lookup finds the first one of a name. -/
def initializerValues : List (FieldInitializer Expr) →
    List (String × (Option ValueType → Except Diagnostic ConstantValue))
  | [] => []
  | ⟨name, value, _⟩ :: fields => (name, value.value) :: initializerValues fields

end

/-! ## The outcome of a computation -/

/-- Answer every question of a computation. -/
def outcome {A : Type} : ConstantDemand A → Except Diagnostic A
  | done a => .ok a
  | fail d => .error d
  | ask name span k =>
    match env name span with
    | .ok value => outcome (k value)
    | .error d => .error d

section Outcome

variable {structs} {A B : Type}

@[simp] theorem outcome_done (a : A) : outcome env (done a) = .ok a := rfl

@[simp] theorem outcome_fail (d : Diagnostic) :
    outcome env (fail d : ConstantDemand A) = .error d := rfl

@[simp] theorem outcome_ofExcept (r : Except Diagnostic A) : outcome env (ofExcept r) = r := by
  cases r <;> rfl

@[simp] theorem outcome_bind (t : ConstantDemand A) (f : A → ConstantDemand B) :
    outcome env (t >>= f) = outcome env t >>= fun a => outcome env (f a) := by
  induction t with
  | done a => rfl
  | fail d => rfl
  | ask name span k ih =>
    simp only [ask_bind, outcome]
    cases env name span with
    | ok value => exact ih value
    | error d => rfl

theorem outcome_elements {elements : List Expr}
    (h : ∀ e ∈ elements, ∀ expected,
      outcome env (e.demand structs expected) = e.value structs env expected)
    (expected : Option ValueType) :
    outcome env (elementDemands structs elements expected) =
      elementValues structs env elements expected := by
  induction elements with
  | nil => rfl
  | cons e rest ih =>
    obtain ⟨he, hrest⟩ := List.forall_mem_cons.mp h
    simp only [elementDemands, elementValues, outcome_bind, he, ih hrest]
    rfl

theorem lookup_initializerValues (fields : List (FieldInitializer Expr)) (name : String) :
    (initializerValues structs env fields).lookup name =
      (initializerOf fields name).map fun initializer => initializer.value.value structs env := by
  induction fields with
  | nil => rfl
  | cons field fields ih =>
    rw [initializerValues, List.lookup_cons, initializerOf, List.find?_cons]
    by_cases h : field.name = name
    · simp [h]
    · have h' : (name == field.name) = false := by simpa using Ne.symm h
      simp only [h', beq_eq_false_iff_ne.mpr h]
      exact ih

/-- The initializers of the declared fields : the first missing one, or their values. -/
theorem outcome_fields {fields : List (FieldInitializer Expr)}
    (h : ∀ f ∈ fields, ∀ expected,
      outcome env (f.value.demand structs expected) = f.value.value structs env expected)
    (name : String) (span : Span) (declared : List StructField) :
    match declared.find? fun field => (initializerOf fields field.name).isNone,
      fieldDemands (initializerDemands structs fields) name span declared with
    | some field, .error d => d = missingInitializer field.name name span
    | none, .ok values => outcome env values =
        fieldValues (initializerValues structs env fields) name span declared
    | _, _ => False := by
  induction declared with
  | nil => rfl
  | cons field rest ih =>
    rw [List.find?_cons, fieldDemands, fieldValues, lookup_initializerDemands,
      lookup_initializerValues]
    cases hfield : initializerOf fields field.name with
    | none => rfl
    | some initializer =>
      have hmem : initializer ∈ fields := List.mem_of_find?_eq_some hfield
      simp only [Option.isNone_some, Option.map_some]
      revert ih
      cases rest.find? fun field => (initializerOf fields field.name).isNone <;>
        cases fieldDemands (initializerDemands structs fields) name span rest <;>
        simp only [Except.map, imp_self]
      intro ih
      simp only [outcome_bind, h initializer hmem, ih]
      rfl

/-- The computation of an expression has the outcome of its direct evaluation. -/
theorem outcome_demand (e : Expr) (expected : Option ValueType) :
    outcome env (e.demand structs expected) = e.value structs env expected := by
  induction e generalizing expected with
  | i32 value span =>
    simp only [Expr.demand, Expr.value]
    split <;> rfl
  | f32 value span =>
    simp only [Expr.demand, Expr.value]
    split <;> rfl
  | bool value span => simp only [Expr.demand, Expr.value, outcome_done]
  | arrayLiteral elements span ih =>
    simp only [Expr.demand, Expr.value]
    cases expected.bind ValueType.resolvedArray with
    | none => rfl
    | some array =>
      obtain ⟨element, length⟩ := array
      by_cases hlength : elements.length ≠ length
      · simp only [if_pos hlength, outcome_fail]
      · simp only [if_neg hlength, outcome_bind, outcome_elements env ih, outcome_ofExcept]
        rfl
  | structLiteral name fields span ih =>
    simp only [Expr.demand, Expr.value]
    rcases expected with _ | ty
    · rfl
    cases ty
    case struct expectedName =>
      by_cases hname : name ≠ expectedName
      · simp only [if_pos hname, outcome_fail]
      simp only [if_neg hname]
      cases structs.lookup name with
      | none => rfl
      | some declaration =>
        have hfields := outcome_fields env ih name span declaration.fields
        revert hfields
        dsimp only
        cases declaration.fields.find? fun field => (initializerOf fields field.name).isNone <;>
          cases fieldDemands (initializerDemands structs fields) name span declaration.fields <;>
          simp only [false_implies]
        · intro hfields
          simp only [outcome_bind, hfields, outcome_ofExcept]
          rfl
        · rintro rfl
          rfl
    all_goals rfl
  | var name span =>
    simp only [Expr.demand, Expr.value, outcome]
    cases env name span <;> rfl
  | index base index span hbase hindex =>
    simp only [Expr.demand, Expr.value, outcome_bind, hbase, hindex, outcome_ofExcept]
  | field base name nameSpan span hbase =>
    simp only [Expr.demand, Expr.value, outcome_bind, hbase, outcome_ofExcept]
  | unary op operand span hoperand =>
    simp only [Expr.demand, Expr.value]
    split
    · rfl
    · simp only [outcome_bind, hoperand, outcome_ofExcept]
  | binary left op right span hleft hright =>
    simp only [Expr.demand, Expr.value, outcome_bind, hleft]
    congr 1
    funext value
    by_cases hop : op.isLogical = true
    · simp only [if_pos hop]
      cases value with
      | bool value =>
        by_cases hvalue : (value == (op == BinaryOp.logicalOr)) = true
        · simp only [if_pos hvalue]
          rfl
        · simp only [if_neg hvalue, outcome_bind, hright]
          congr 1
          funext other
          cases other <;> rfl
      | _ => rfl
    · simp only [if_neg hop, outcome_bind, hright, outcome_ofExcept]
  | call name args span => simp only [Expr.demand, Expr.value, outcome_fail]
  | conversion target args span ih =>
    rcases args with _ | ⟨arg, _ | ⟨second, rest⟩⟩
    · simp only [Expr.demand, Expr.value, outcome_fail]
    · simp only [Expr.demand, Expr.value, outcome_bind, ih arg (by simp), outcome_ofExcept]
    · simp only [Expr.demand, Expr.value, outcome_fail]

/-- Running a computation against the environment finds its outcome. -/
theorem run_environment (t : ConstantDemand A) :
    (match run env t with
      | .done a => .ok a
      | .fail d => .error d
      | .stop _ _ _ d => .error d) = outcome env t := by
  induction t with
  | done a => rfl
  | fail d => rfl
  | ask name span k ih =>
    simp only [run, outcome]
    cases env name span with
    | ok value => exact ih value
    | error d => rfl

/-- An evaluation that is resumed in the environment ends in the outcome of what is left. -/
theorem resume_environment (ev : Evaluation) :
    (ev.resume structs env).2 = outcome env (ev.demand structs) := by
  have h := resume_spec structs env ev
  rw [← run_environment]
  revert h
  cases run env (ev.demand structs) with
  | done value => exact id
  | fail d => exact id
  | stop name span k d => exact And.left

end Outcome

end

end Speck
