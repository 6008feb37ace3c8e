import Speck.ConstantValues

/-!
# The constant phase

The `ConstantEvaluator` of `sema/constants.rs`, and the evaluation of an initializer or an
expression on its own. `constantSystem` is the lazy meaning of the declared constants, and
`constantPhase_refines` says that the phase evaluates it.
-/

namespace Speck

open Demand

/-- A set of names, `std::collections::HashSet<String>`. -/
abbrev HashSet := List String

def validateConstantType (name : String) (definition : ConstantDefinition) (ty : ValueType)
    (value : ConstantValue) : Except Diagnostic ConstantValue :=
  if value.ty = ty then .ok value
  else .error ⟨s!"constant `{name}` has declared type `{ty.name}`, but its initializer evaluates to `{value.ty.name}`",
    definition.init.span⟩

def invalidInitializer (name : String) (definition : ConstantDefinition) : Diagnostic :=
  ⟨s!"constant `{name}` has an invalid initializer", definition.span⟩

/-- The diagnostic of a reference to a mutable global in a constant expression. -/
def refuseGlobal (globals : HashMap ValueType) (name : String) (span : Span) : Option Diagnostic :=
  if name ∈ globals then
    some ⟨s!"constant expressions cannot reference mutable global `{name}`", span⟩
  else none

section

variable [F32Primitives]

/-- What `evaluate_named` hands to the scheduler. -/
def constantPhase (definitions : HashMap ConstantDefinition) (globals : HashMap ValueType)
    (structs : HashMap StructDecl) (invalid : HashSet) : Evaluator Evaluation where
  definitions := definitions
  phase := .constant
  initialState definition := Evaluation.new definition.init (some definition.ty)
  initializer name definition evaluation cache :=
    if name ∈ invalid then (evaluation, .error (.diagnostic (invalidInitializer name definition)))
    else
      let run := evaluation.resume structs fun name span =>
        match refuseGlobal globals name span with
        | some d => .error (.diagnostic d)
        | none => cache.lookup name span
      match run.2 with
      | .ok value =>
        match validateConstantType name definition definition.ty value with
        | .ok value => (run.1, .ok value)
        | .error d => (run.1, .error (.diagnostic d))
      | .error e => (run.1, .error e)

structure ConstantEvaluator where
  definitions : HashMap ConstantDefinition
  globals : HashMap ValueType
  structs : HashMap StructDecl
  invalid : HashSet
  cache : ConstantValues

namespace ConstantEvaluator

def new (definitions : HashMap ConstantDefinition) (globals : HashMap ValueType)
    (structs : HashMap StructDecl) (invalid : HashSet) (resolution : Resolution) :
    ConstantEvaluator :=
  ⟨definitions, globals, structs, invalid, .new resolution⟩

/-- `none` stands for a panic : a name without a definition. -/
def evaluateNamed (ev : ConstantEvaluator) (name : String) :
    Option (ConstantEvaluator × Except Diagnostic ConstantValue) := do
  let definition ← ev.definitions.lookup name
  let (cache, result) ← ConstantValues.evaluate
    (constantPhase ev.definitions ev.globals ev.structs ev.invalid) ev.cache name definition.span
  return ({ ev with cache }, result)

end ConstantEvaluator

/-- The value of a global's initializer, or the message of its diagnostic. -/
def evaluateInitializer (expression : Expr) (expected : ValueType)
    (constants : HashMap ConstantValue) (globals : HashMap ValueType)
    (structs : HashMap StructDecl) : Except String ConstantValue :=
  let lookup : String → Span → Except Diagnostic ConstantValue := fun name span =>
    match constants.lookup name with
    | some value => .ok value
    | none =>
      if name ∈ globals then
        .error ⟨s!"global initializers cannot reference mutable global `{name}`", span⟩
      else .error ⟨s!"`{name}` is not a compile-time constant", span⟩
  match ((Evaluation.new expression (some expected)).resume structs lookup).2 with
  | .ok value => .ok value
  | .error d => .error d.message

/-- The value of an expression that no type is expected of. -/
def evaluateExpression {E : Type} [FromDiagnostic E] (expression : Expr)
    (lookup : String → Span → Except E ConstantValue) : Except E ConstantValue :=
  ((Evaluation.new expression none).resume ∅ lookup).2

/-! ## The meaning of the declared constants -/

/-- What an initializer computes, and what its constant makes of the value. -/
def constantDemand (globals : HashMap ValueType)
    (invalid : HashSet) (name : String) (definition : ConstantDefinition)
    (initializer : ConstantDemand ConstantValue) : ConstantDemand ConstantValue :=
  if name ∈ invalid then fail (invalidInitializer name definition)
  else restrict (refuseGlobal globals) initializer >>= fun value =>
    ofExcept (validateConstantType name definition definition.ty value)

/-- The computation of every predefined and every declared constant. -/
def constantSystem (definitions : HashMap ConstantDefinition) (globals : HashMap ValueType)
    (structs : HashMap StructDecl) (invalid : HashSet) (resolution : Resolution)
    (name : String) : Option (ConstantDemand ConstantValue) :=
  match (predefinedValues resolution).lookup name with
  | some value => some (done value)
  | none => (definitions.lookup name).map fun definition =>
    constantDemand globals invalid name definition
      (definition.init.demand structs (some definition.ty))

omit [F32Primitives] in
/-- Running against a lookup that refuses some names is running the guarded computation. -/
theorem run_restrict {A : Type} (refuse : String → Span → Option Diagnostic)
    (cache : ConstantValues) (t : ConstantDemand A) :
    match run (fun name span =>
      match refuse name span with
      | some d => Except.error (EvaluationError.diagnostic d)
      | none => cache.lookup name span) t with
    | .done a => run cache.lookup (restrict refuse t) = .done a
    | .fail d => run cache.lookup (restrict refuse t) = .fail d
    | .stop n s k e =>
      (∃ d, refuse n s = some d ∧ e = .diagnostic d ∧ run cache.lookup (restrict refuse t) = .fail d) ∨
      (refuse n s = none ∧
        run cache.lookup (restrict refuse t) = .stop n s (fun v => restrict refuse (k v)) e) := by
  induction t with
  | done a => rfl
  | fail d => rfl
  | ask n s k ih =>
    simp only [run, restrict]
    cases hr : refuse n s with
    | some d => exact .inl ⟨d, hr, rfl, rfl⟩
    | none =>
      simp only [run]
      cases hl : cache.lookup n s with
      | ok v => exact ih v
      | error e => exact .inr ⟨hr, rfl⟩

theorem constantPhase_refines (definitions : HashMap ConstantDefinition)
    (globals : HashMap ValueType) (structs : HashMap StructDecl) (invalid : HashSet)
    (resolution : Resolution) :
    (constantPhase definitions globals structs invalid).Refines (predefinedValues resolution)
      (constantSystem definitions globals structs invalid resolution)
      fun name definition evaluation =>
        constantDemand globals invalid name definition (evaluation.demand structs) where
  predefined {n v} h := by simp only [constantSystem, h]
  undefined {n} hb hd := by
    have hd : definitions.lookup n = none := hd
    simp only [constantSystem, hb, hd, Option.map_none]
  initial {n definition} hb hd := by
    have hd : definitions.lookup n = some definition := hd
    simp only [constantSystem, hb, hd, Option.map_some, constantPhase, demand_new]
  resumes name definition evaluation cache := by
    simp only [constantPhase, constantDemand]
    by_cases hinv : name ∈ invalid
    · simp [hinv, run]
    · simp only [if_neg hinv]
      set lookup : String → Span → Except EvaluationError ConstantValue := fun name span =>
        match refuseGlobal globals name span with
        | some d => .error (.diagnostic d)
        | none => cache.lookup name span with hlookup
      have hresume := resume_spec structs lookup evaluation
      have hrestrict := run_restrict (refuseGlobal globals) cache (evaluation.demand structs)
      rw [← hlookup] at hrestrict
      rw [run_bind]
      revert hresume hrestrict
      generalize evaluation.resume structs lookup = result
      obtain ⟨evaluation', result⟩ := result
      cases run lookup (evaluation.demand structs) with
      | done v =>
        intro hresume hrestrict
        obtain rfl : result = _ := hresume
        rw [hrestrict]
        simp only [Halt.bind]
        cases validateConstantType name definition definition.ty v <;> simp [run]
      | fail d =>
        intro hresume hrestrict
        obtain rfl : result = _ := hresume
        rw [hrestrict]
        rfl
      | stop n s k e =>
        rintro ⟨hresume, hleft⟩ hrestrict
        obtain rfl : result = _ := hresume
        have hleft : evaluation'.demand structs = ask n s k := hleft
        rcases hrestrict with ⟨d, -, rfl, hrun⟩ | ⟨hnone, hrun⟩
        · rw [hrun]
          rfl
        · rw [hrun]
          simp only [Halt.bind, hleft, restrict, hnone, ask_bind, and_self]

end

end Speck
