import Speck.ConstantEvaluator
import Speck.Worklist

/-!
# The array-length phase

`sema/type_resolution.rs` resolves the declared array lengths before anything else is
checked. A length may be a constant whose own aggregate type needs further lengths, so
this phase evaluates constants on demand, over a snapshot of the program : `PreparedTypes`
collects and resolves what the type of one constant reaches, and `LengthEvaluation` is an
initializer suspended during that preparation or after it.

`lengthPhase_refines` is the counterpart of `constantPhase_refines` : the phase evaluates
`lengthSystem`, the lazy meaning of the declared constants with prepared types.
-/

namespace Speck

open Demand

def positiveArrayLength (value : ℤ) (span : Span) : Except Diagnostic ℕ :=
  if value ≤ 0 then .error ⟨s!"array length must be positive, found {value}", span⟩
  else if value > 2147483647 then
    .error ⟨"array length exceeds the maximum i32 index range", span⟩
  else .ok value.toNat

theorem positiveArrayLength_eq_ok {value : ℤ} {span : Span} {length : ℕ} :
    positiveArrayLength value span = .ok length ↔
      value = length ∧ 1 ≤ length ∧ length ≤ 2147483647 := by
  unfold positiveArrayLength
  split
  · simp only [reduceCtorEq, false_iff]
    omega
  · split
    · simp only [reduceCtorEq, false_iff]
      omega
    · simp only [Except.ok.injEq]
      omega

def requireLengthType (name : String) (span : Span) (definitions : HashMap ConstantDefinition) :
    Except Diagnostic Unit :=
  match definitions.lookup name with
  | some definition =>
    if definition.ty ≠ .i32 then
      .error ⟨s!"array length constant `{name}` must have type `i32`", span⟩
    else .ok ()
  | none => .ok ()

def lengthValue (value : ConstantValue) (name : String) (span : Span) : Except Diagnostic I32 :=
  match value with
  | .i32 value => .ok value
  | _ => .error ⟨s!"array length constant `{name}` must evaluate to `i32`", span⟩

namespace ValueType

/-- The lengths of an array type, innermost first. -/
def collectLengths : ValueType → List ArrayLength
  | array element length => element.collectLengths ++ [length]
  | _ => []

/-- The struct that a type is made of, under its array dimensions. -/
def structName : ValueType → Option String
  | array element _ => element.structName
  | struct name => some name
  | _ => none

end ValueType

/-! ## Cached lengths -/

section Cached

variable (constant : String → Span → Except EvaluationError I32)

/-- `positive_array_length` with the errors of an evaluation. -/
def positiveLength (value : ℤ) (span : Span) : Except EvaluationError ℕ :=
  match positiveArrayLength value span with
  | .ok length => .ok length
  | .error d => .error (.diagnostic d)

/-- The length of a resolved dimension. -/
def resolveLength : ArrayLength → Except EvaluationError ArrayLength
  | .literal value span => (positiveLength value span).map .resolved
  | .constant name span =>
    match constant name span with
    | .ok value => (positiveLength value.toInt span).map .resolved
    | .error e => .error e
  | length => .ok length

/-- Demand the lengths that are left. -/
def checkLengths : List ArrayLength → ℕ → ℕ × Except EvaluationError Unit
  | [], cursor => (cursor, .ok ())
  | length :: rest, cursor =>
    match resolveLength constant length with
    | .ok _ => checkLengths rest (cursor + 1)
    | .error e => (cursor, .error e)

/-- Apply cached lengths to a type in place. -/
def resolveCachedType : ValueType → ValueType × Except EvaluationError Unit
  | .array element length =>
    match resolveCachedType element with
    | (element, .error e) => (.array element length, .error e)
    | (element, .ok ()) =>
      match resolveLength constant length with
      | .ok length => (.array element length, .ok ())
      | .error e => (.array element length, .error e)
  | ty => (ty, .ok ())

def resolveCachedFields : List StructField → List StructField × Except EvaluationError Unit
  | [] => ([], .ok ())
  | field :: rest =>
    match resolveCachedType constant field.ty with
    | (ty, .error e) => ({ field with ty } :: rest, .error e)
    | (ty, .ok ()) =>
      let result := resolveCachedFields rest
      ({ field with ty } :: result.1, result.2)

/-- Every declaration of the table, in its iteration order. -/
def resolveCachedStructs : List (Sigma fun _ : String => StructDecl) →
    List (Sigma fun _ : String => StructDecl) × Except EvaluationError Unit
  | [] => ([], .ok ())
  | ⟨name, declaration⟩ :: rest =>
    match resolveCachedFields constant declaration.fields with
    | (fields, .error e) => (⟨name, { declaration with fields }⟩ :: rest, .error e)
    | (fields, .ok ()) =>
      let result := resolveCachedStructs rest
      (⟨name, { declaration with fields }⟩ :: result.1, result.2)

theorem keys_resolveCachedStructs (entries : List (Sigma fun _ : String => StructDecl)) :
    (resolveCachedStructs constant entries).1.keys = entries.keys := by
  induction entries with
  | nil => rfl
  | cons entry rest ih =>
    simp only [resolveCachedStructs]
    split
    · rfl
    · simp [ih]

end Cached

/-! ## Prepared types -/

/-- The type of a constant with the declarations it reaches, being resolved. The lengths
before the cursor have been demanded. -/
structure PreparedTypes where
  ty : ValueType
  structs : HashMap StructDecl
  lengths : List ArrayLength
  cursor : ℕ
  ready : Bool

namespace PreparedTypes

/-- The worklist of `PreparedTypes::new` : the declarations and the lengths reached from the
pending types. -/
def collect (declarations : HashMap StructDecl) (pending : List ValueType) (seen : HashSet)
    (structs : HashMap StructDecl) (lengths : List ArrayLength) :
    HashMap StructDecl × List ArrayLength :=
  match pending with
  | [] => (structs, lengths)
  | ty :: pending =>
    let lengths := lengths ++ ty.collectLengths
    match ty.structName with
    | none => collect declarations pending seen structs lengths
    | some name =>
      if name ∈ seen then collect declarations pending seen structs lengths
      else
        match _h : declarations.lookup name with
        | none => collect declarations pending (name :: seen) structs lengths
        | some declaration =>
          collect declarations (declaration.fields.map (·.ty) ++ pending) (name :: seen)
            (structs.insert name declaration) lengths
termination_by pending.length + unseenWeight declarations.keys (fieldCount declarations) seen
decreasing_by
  · simp
  · simp
  · have hkeys : name ∉ declarations.keys := AList.lookup_eq_none.mp _h
    have hsame : unseenWeight declarations.keys (fieldCount declarations) (name :: seen) =
        unseenWeight declarations.keys (fieldCount declarations) seen := by
      unfold unseenWeight
      congr 2
      refine List.filter_congr fun k hk => ?_
      have : k ≠ name := fun h => hkeys (h ▸ hk)
      simp [this]
    simp only [List.length_cons, hsame]
    omega
  · have hkeys : name ∈ declarations.keys := AList.lookup_isSome.mp (by simp [_h])
    have := unseenWeight_cons declarations.keys_nodup (fieldCount declarations) ‹_› hkeys
    simp only [fieldCount, _h] at this
    simp only [List.length_append, List.length_map, List.length_cons]
    omega

def new (ty : ValueType) (declarations : HashMap StructDecl) : PreparedTypes :=
  let collected := collect declarations [ty] [] ∅ []
  ⟨ty, collected.1, collected.2, 0, false⟩

/-- A cached length constant. -/
def cachedLength (definitions : HashMap ConstantDefinition) (cache : ConstantValues)
    (name : String) (span : Span) : Except EvaluationError I32 :=
  match requireLengthType name span definitions with
  | .error d => .error (.diagnostic d)
  | .ok () =>
    match cache.lookup name span with
    | .error e => .error e
    | .ok value =>
      match lengthValue value name span with
      | .error d => .error (.diagnostic d)
      | .ok value => .ok value

def resolveStructs (constant : String → Span → Except EvaluationError I32)
    (structs : HashMap StructDecl) : HashMap StructDecl :=
  ⟨(resolveCachedStructs constant structs.entries).1, by
    rw [List.NodupKeys, keys_resolveCachedStructs]
    exact structs.nodupKeys⟩

def resume (types : PreparedTypes) (definitions : HashMap ConstantDefinition)
    (cache : ConstantValues) : PreparedTypes × Except EvaluationError Unit :=
  if types.ready then (types, .ok ())
  else
    let constant := cachedLength definitions cache
    match checkLengths constant (types.lengths.drop types.cursor) types.cursor with
    | (cursor, .error e) => ({ types with cursor }, .error e)
    | (cursor, .ok ()) =>
      match resolveCachedType constant types.ty with
      | (ty, .error e) => ({ types with cursor, ty }, .error e)
      | (ty, .ok ()) =>
        let structs := resolveStructs constant types.structs
        match (resolveCachedStructs constant types.structs.entries).2 with
        | .error e => ({ types with cursor, ty, structs }, .error e)
        | .ok () => ({ types with cursor, ty, structs, ready := true }, .ok ())

end PreparedTypes

/-! ## Suspended initializers -/

structure LengthEvaluation where
  init : Expr
  types : PreparedTypes
  evaluation : Option Evaluation

section

variable [F32Primitives]

namespace LengthEvaluation

def new (definition : ConstantDefinition) (structs : HashMap StructDecl) : LengthEvaluation :=
  ⟨definition.init, .new definition.ty structs, none⟩

def resume (state : LengthEvaluation) (definitions : HashMap ConstantDefinition)
    (cache : ConstantValues) : LengthEvaluation × Except EvaluationError ConstantValue :=
  match state.types.resume definitions cache with
  | (types, .error e) => ({ state with types }, .error e)
  | (types, .ok ()) =>
    let run := (state.evaluation.getD (.new state.init (some types.ty))).resume types.structs
      cache.lookup
    ({ state with types, evaluation := some run.1 }, run.2)

end LengthEvaluation

/-- What `LengthConstantEvaluator::evaluate` hands to the scheduler. -/
def lengthPhase (definitions : HashMap ConstantDefinition) (structs : HashMap StructDecl) :
    Evaluator LengthEvaluation where
  definitions := definitions
  phase := .arrayLength
  initialState definition := .new definition structs
  initializer name definition state cache :=
    let run := state.resume definitions cache
    match run.2 with
    | .ok value =>
      match validateConstantType name definition run.1.types.ty value with
      | .ok value => (run.1, .ok value)
      | .error d => (run.1, .error (.diagnostic d))
    | .error e => (run.1, .error e)

end

/-! ## The meaning of prepared constants -/

section Prepared

variable (definitions : HashMap ConstantDefinition)

/-- The resolved length of a dimension, asking for a constant. -/
def lengthDemand : ArrayLength → ConstantDemand ArrayLength
  | .literal value span => do
    let length ← ofExcept (positiveArrayLength value span)
    return .resolved length
  | .constant name span => do
    ofExcept (requireLengthType name span definitions)
    let value ← ask name span done
    let value ← ofExcept (lengthValue value name span)
    let length ← ofExcept (positiveArrayLength value.toInt span)
    return .resolved length
  | length => done length

def lengthDemands : List ArrayLength → ConstantDemand Unit
  | [] => done ()
  | length :: rest => do
    let _ ← lengthDemand definitions length
    lengthDemands rest

/-- A type with its lengths resolved. -/
def typeDemand : ValueType → ConstantDemand ValueType
  | .array element length => do
    let element ← typeDemand element
    let length ← lengthDemand definitions length
    return .array element length
  | ty => done ty

def fieldTypeDemands : List StructField → ConstantDemand (List StructField)
  | [] => done []
  | field :: rest => do
    let ty ← typeDemand definitions field.ty
    let rest ← fieldTypeDemands rest
    return { field with ty } :: rest

def structDemands : List (Sigma fun _ : String => StructDecl) →
    ConstantDemand (List (Sigma fun _ : String => StructDecl))
  | [] => done []
  | ⟨name, declaration⟩ :: rest => do
    let fields ← fieldTypeDemands definitions declaration.fields
    let rest ← structDemands rest
    return ⟨name, { declaration with fields }⟩ :: rest

/-- What is left of a preparation : the type and the declarations it ends with. -/
def PreparedTypes.demand (types : PreparedTypes) :
    ConstantDemand (ValueType × List (Sigma fun _ : String => StructDecl)) :=
  if types.ready then done (types.ty, types.structs.entries)
  else do
    lengthDemands definitions (types.lengths.drop types.cursor)
    let ty ← typeDemand definitions types.ty
    let structs ← structDemands definitions types.structs.entries
    return (ty, structs)

variable [F32Primitives]

/-- What is left of a constant of the length phase. -/
def LengthEvaluation.demand (name : String) (definition : ConstantDefinition)
    (state : LengthEvaluation) : ConstantDemand ConstantValue := do
  let (ty, structs) ← state.types.demand definitions
  let value ← (state.evaluation.getD (.new state.init (some ty))).demand structs.toAList
  ofExcept (validateConstantType name definition ty value)

/-- The computation of every predefined constant, and of every declared one with its type
prepared first. -/
def lengthSystem (structs : HashMap StructDecl) (resolution : Resolution) (name : String) :
    Option (ConstantDemand ConstantValue) :=
  match (predefinedValues resolution).lookup name with
  | some value => some (done value)
  | none => (definitions.lookup name).map fun definition =>
    (LengthEvaluation.new definition structs).demand definitions name definition

end Prepared

/-! ## Refinement -/

section Refinement

variable {definitions : HashMap ConstantDefinition} {cache : ConstantValues}

/-- A function that updates its argument in place does what the computation `d` of the
updated one says; interrupted at a question, it has the question left. -/
def Updates {A : Type} (cache : ConstantValues) (result : A × Except EvaluationError Unit)
    (left : A → ConstantDemand A) (d : ConstantDemand A) : Prop :=
  match run cache.lookup d with
  | .done a => result = (a, .ok ()) ∧ left a = done a
  | .fail e => result.2 = .error (.diagnostic e)
  | .stop n s k e => result.2 = .error e ∧ left result.1 = ask n s k

/-- Update one part, then another one unless that fails. -/
def updateBoth {A B C : Type} (mk : A → B → C) (b : B) (first : A × Except EvaluationError Unit)
    (second : B × Except EvaluationError Unit) : C × Except EvaluationError Unit :=
  match first with
  | (a, .error e) => (mk a b, .error e)
  | (a, .ok ()) => (mk a second.1, second.2)

theorem updates_both {A B C : Type} {mk : A → B → C} {b : B}
    {first : A × Except EvaluationError Unit} {second : B × Except EvaluationError Unit}
    {leftA : A → ConstantDemand A} {leftB : B → ConstantDemand B} {left : C → ConstantDemand C}
    {dA : ConstantDemand A} (hA : Updates cache first leftA dA)
    (hB : Updates cache second leftB (leftB b))
    (hleft : ∀ a b, left (mk a b) = leftA a >>= fun a => leftB b >>= fun b => done (mk a b)) :
    Updates cache (updateBoth mk b first second) left
      (dA >>= fun a => leftB b >>= fun b => done (mk a b)) := by
  obtain ⟨a', first⟩ := first
  obtain ⟨b', second⟩ := second
  rw [Updates] at hA hB
  rw [Updates, run_bind]
  revert hA
  cases run cache.lookup dA with
  | done a =>
    rintro ⟨heq, hdone⟩
    obtain ⟨rfl, rfl⟩ := Prod.mk.inj heq
    simp only [Halt.bind, run_bind, updateBoth]
    revert hB
    cases run cache.lookup (leftB b) with
    | done c =>
      rintro ⟨heq, hdone'⟩
      obtain ⟨rfl, rfl⟩ := Prod.mk.inj heq
      simp [run, hleft, hdone, hdone']
    | fail e => exact id
    | stop n s k e =>
      rintro ⟨h, hask⟩
      have hask : leftB b' = ask n s k := hask
      exact ⟨h, by simp [hleft, hdone, hask]⟩
  | fail e =>
    intro h
    obtain rfl : first = _ := h
    rfl
  | stop n s k e =>
    rintro ⟨h, hask⟩
    obtain rfl : first = _ := h
    have hask : leftA a' = ask n s k := hask
    exact ⟨rfl, by simp [updateBoth, hleft, hask]⟩

/-- A dimension, resolved in place. -/
def updateLength (constant : String → Span → Except EvaluationError I32) (length : ArrayLength) :
    ArrayLength × Except EvaluationError Unit :=
  match resolveLength constant length with
  | .ok length => (length, .ok ())
  | .error e => (length, .error e)

@[simp] theorem lengthDemand_resolved (length : ℕ) :
    lengthDemand definitions (.resolved length) = done (.resolved length) := rfl

variable (definitions cache) in
theorem updates_length (length : ArrayLength) :
    Updates cache (updateLength (PreparedTypes.cachedLength definitions cache) length)
      (lengthDemand definitions) (lengthDemand definitions length) := by
  cases length with
  | literal value span =>
    simp only [lengthDemand, Updates, updateLength, resolveLength, positiveLength]
    cases positiveArrayLength value span <;> simp [run, Except.map]
  | constant name span =>
    simp only [lengthDemand, Updates, updateLength, resolveLength, PreparedTypes.cachedLength]
    cases hr : requireLengthType name span definitions with
    | error d => simp [run]
    | ok u =>
      simp only [ofExcept_ok, done_bind, ask_bind, run]
      cases cache.lookup name span with
      | error e => simp [hr]
      | ok value =>
        simp only
        cases lengthValue value name span with
        | error d => simp [run]
        | ok value =>
          simp only [ofExcept_ok, done_bind, positiveLength]
          cases positiveArrayLength value.toInt span <;>
            simp [run, Except.map]
  | resolved length => exact ⟨rfl, rfl⟩
  | invalid => exact ⟨rfl, rfl⟩

theorem resolveCachedType_array (constant : String → Span → Except EvaluationError I32)
    (element : ValueType) (length : ArrayLength) :
    resolveCachedType constant (.array element length) = updateBoth .array length
      (resolveCachedType constant element) (updateLength constant length) := by
  simp only [resolveCachedType, updateBoth, updateLength]
  rcases resolveCachedType constant element with ⟨element', _ | _⟩
  · rfl
  · cases resolveLength constant length <;> rfl

theorem resolveCachedFields_cons (constant : String → Span → Except EvaluationError I32)
    (field : StructField) (rest : List StructField) :
    resolveCachedFields constant (field :: rest) =
      updateBoth (fun ty rest => { field with ty } :: rest) rest
        (resolveCachedType constant field.ty) (resolveCachedFields constant rest) := by
  simp only [resolveCachedFields, updateBoth]
  rcases resolveCachedType constant field.ty with ⟨ty, _ | _⟩ <;> rfl

theorem resolveCachedStructs_cons (constant : String → Span → Except EvaluationError I32)
    (name : String) (declaration : StructDecl)
    (rest : List (Sigma fun _ : String => StructDecl)) :
    resolveCachedStructs constant (⟨name, declaration⟩ :: rest) =
      updateBoth (fun fields rest => ⟨name, { declaration with fields }⟩ :: rest) rest
        (resolveCachedFields constant declaration.fields) (resolveCachedStructs constant rest) := by
  simp only [resolveCachedStructs, updateBoth]
  rcases resolveCachedFields constant declaration.fields with ⟨fields, _ | _⟩ <;> rfl

variable (definitions cache) in
theorem updates_type (ty : ValueType) :
    Updates cache (resolveCachedType (PreparedTypes.cachedLength definitions cache) ty)
      (typeDemand definitions) (typeDemand definitions ty) := by
  induction ty with
  | array element length ih =>
    rw [resolveCachedType_array]
    exact updates_both ih (updates_length definitions cache length) fun _ _ => rfl
  | _ => exact ⟨rfl, rfl⟩

variable (definitions cache) in
theorem updates_fields (fields : List StructField) :
    Updates cache (resolveCachedFields (PreparedTypes.cachedLength definitions cache) fields)
      (fieldTypeDemands definitions) (fieldTypeDemands definitions fields) := by
  induction fields with
  | nil => exact ⟨rfl, rfl⟩
  | cons field rest ih =>
    rw [resolveCachedFields_cons]
    exact updates_both (updates_type definitions cache field.ty) ih fun _ _ => rfl

variable (definitions cache) in
theorem updates_structs (entries : List (Sigma fun _ : String => StructDecl)) :
    Updates cache (resolveCachedStructs (PreparedTypes.cachedLength definitions cache) entries)
      (structDemands definitions) (structDemands definitions entries) := by
  induction entries with
  | nil => exact ⟨rfl, rfl⟩
  | cons entry rest ih =>
    rw [resolveCachedStructs_cons]
    exact updates_both (updates_fields definitions cache entry.2.fields) ih fun _ _ => rfl

variable (definitions cache) in
/-- Advancing the cursor leaves the lengths from there on. -/
theorem run_lengthDemands (lengths : List ArrayLength) (cursor : ℕ) :
    match run cache.lookup (lengthDemands definitions lengths) with
    | .done _ => checkLengths (PreparedTypes.cachedLength definitions cache) lengths cursor =
        (cursor + lengths.length, .ok ())
    | .fail d => (checkLengths (PreparedTypes.cachedLength definitions cache) lengths cursor).2 =
        .error (.diagnostic d)
    | .stop n s k e => ∃ i, checkLengths (PreparedTypes.cachedLength definitions cache) lengths
        cursor = (cursor + i, .error e) ∧ lengthDemands definitions (lengths.drop i) = ask n s k := by
  induction lengths generalizing cursor with
  | nil => rfl
  | cons length rest ih =>
    have hlength := updates_length definitions cache length
    rw [Updates, updateLength] at hlength
    simp only [lengthDemands, run_bind, checkLengths]
    revert hlength
    cases resolveLength (PreparedTypes.cachedLength definitions cache) length with
    | ok l =>
      cases run cache.lookup (lengthDemand definitions length) with
      | done l' =>
        intro _
        have hrest := ih (cursor + 1)
        simp only [Halt.bind]
        revert hrest
        cases run cache.lookup (lengthDemands definitions rest) with
        | done u =>
          intro h
          simp [h, Nat.add_assoc, Nat.add_comm 1]
        | fail d => exact id
        | stop n s k e =>
          rintro ⟨i, hi, hleft⟩
          exact ⟨i + 1, by rw [hi, Nat.add_assoc, Nat.add_comm 1], by simpa using hleft⟩
      | fail d => exact fun h => by cases h
      | stop n s k e => exact fun h => by cases h.1
    | error e' =>
      cases run cache.lookup (lengthDemand definitions length) with
      | done l' => exact fun h => by cases (Prod.mk.inj h.1).2
      | fail d =>
        intro h
        simpa [Halt.bind] using h
      | stop n s k e =>
        rintro ⟨h, hleft⟩
        obtain rfl : e' = e := by simpa using h
        refine ⟨0, rfl, ?_⟩
        have hleft : lengthDemand definitions length = ask n s k := hleft
        simp [lengthDemands, hleft]

variable (definitions cache) in
/-- Resuming a preparation runs what is left of it. -/
theorem resume_prepared (types : PreparedTypes) :
    match run cache.lookup (types.demand definitions) with
    | .done (ty, structs) => ∃ types', types.resume definitions cache = (types', .ok ()) ∧
        types'.ty = ty ∧ types'.structs.entries = structs ∧ types'.ready = true
    | .fail d => (types.resume definitions cache).2 = .error (.diagnostic d)
    | .stop n s k e => (types.resume definitions cache).2 = .error e ∧
        (types.resume definitions cache).1.demand definitions = ask n s k := by
  obtain ⟨ty, structs, lengths, cursor, ready⟩ := types
  by_cases hready : ready = true
  · subst hready
    exact ⟨_, rfl, rfl, rfl, rfl⟩
  obtain rfl : ready = false := by simpa using hready
  have hlengths := run_lengthDemands definitions cache
    (lengths.drop cursor) cursor
  simp only [PreparedTypes.demand, PreparedTypes.resume, Bool.false_eq_true, if_false, run_bind]
  revert hlengths
  cases run cache.lookup (lengthDemands definitions (lengths.drop cursor)) with
  | fail d =>
    intro h
    simp only [Halt.bind]
    split
    · next heq => simpa [heq] using h
    · next heq => simp [heq] at h
  | stop n s k e =>
    rintro ⟨i, hi, hleft⟩
    rw [List.drop_drop] at hleft
    simp [hi, Halt.bind, hleft]
  | done u =>
    intro h
    have hnil : lengthDemands definitions
        (lengths.drop (cursor + (lengths.drop cursor).length)) = done () := by
      rw [List.drop_eq_nil_iff.mpr (by simp only [List.length_drop]; omega)]
      rfl
    have hty := updates_type definitions cache ty
    rw [Updates] at hty
    simp only [h, Halt.bind, run_bind]
    revert hty
    generalize resolveCachedType (PreparedTypes.cachedLength definitions cache) ty = result
    obtain ⟨ty', result⟩ := result
    cases run cache.lookup (typeDemand definitions ty) with
    | fail d =>
      intro h
      obtain rfl : result = _ := h
      rfl
    | stop n s k e =>
      rintro ⟨h, hleft⟩
      obtain rfl : result = _ := h
      have hleft : typeDemand definitions ty' = ask n s k := hleft
      refine ⟨rfl, ?_⟩
      simp only [hnil, hleft, done_bind, ask_bind]
      rfl
    | done a =>
      rintro ⟨heq, hdone⟩
      obtain ⟨rfl, rfl⟩ := Prod.mk.inj heq
      have hstructs := updates_structs definitions cache structs.entries
      rw [Updates] at hstructs
      simp only
      revert hstructs
      cases run cache.lookup (structDemands definitions structs.entries) with
      | fail d =>
        intro h
        simp [h]
      | stop n s k e =>
        rintro ⟨h, hleft⟩
        simp only [h, hnil, hdone, PreparedTypes.resolveStructs, hleft, done_bind, ask_bind]
        exact ⟨trivial, rfl⟩
      | done entries =>
        rintro ⟨heq, -⟩
        simp only [heq]
        exact ⟨_, rfl, rfl, by simp [PreparedTypes.resolveStructs, heq], rfl⟩

theorem toAList_entries (structs : HashMap StructDecl) : structs.entries.toAList = structs := by
  refine AList.ext ?_
  rw [AList.entries_toAList]
  have hnodup := structs.nodupKeys
  generalize structs.entries = entries at hnodup ⊢
  induction entries with
  | nil => rfl
  | cons entry rest ih =>
    obtain ⟨hkey, hrest⟩ := List.nodupKeys_cons.mp hnodup
    rw [List.dedupKeys_cons, ih hrest, List.kinsert_def, List.kerase_of_notMem_keys hkey]

variable [F32Primitives]

theorem lengthPhase_refines (definitions : HashMap ConstantDefinition)
    (structs : HashMap StructDecl) (resolution : Resolution) :
    (lengthPhase definitions structs).Refines (predefinedValues resolution)
      (lengthSystem definitions structs resolution)
      fun name definition state => state.demand definitions name definition where
  predefined {n v} h := by simp only [lengthSystem, h]
  undefined {n} hb hd := by
    have hd : definitions.lookup n = none := hd
    simp only [lengthSystem, hb, hd, Option.map_none]
  initial {n definition} hb hd := by
    have hd : definitions.lookup n = some definition := hd
    simp only [lengthSystem, hb, hd, Option.map_some, lengthPhase]
  resumes name definition state cache := by
    have htypes := resume_prepared definitions cache state.types
    simp only [lengthPhase, LengthEvaluation.demand, LengthEvaluation.resume, run_bind]
    revert htypes
    generalize hres : state.types.resume definitions cache = result
    obtain ⟨types', result⟩ := result
    cases run cache.lookup (state.types.demand definitions) with
    | fail d =>
      intro h
      obtain rfl : result = _ := h
      rfl
    | stop n s k e =>
      rintro ⟨h, hleft⟩
      obtain rfl : result = _ := h
      have hleft : types'.demand definitions = ask n s k := hleft
      exact ⟨rfl, by simp [hleft]⟩
    | done p =>
      obtain ⟨ty, entries⟩ := p
      rintro ⟨types'', heq, rfl, rfl, hready⟩
      obtain ⟨rfl, rfl⟩ := Prod.mk.inj heq
      simp only [Halt.bind, run_bind, toAList_entries]
      have hev := resume_spec types'.structs cache.lookup
        (state.evaluation.getD (.new state.init (some types'.ty)))
      revert hev
      generalize (state.evaluation.getD (.new state.init (some types'.ty))).resume
        types'.structs cache.lookup = run'
      obtain ⟨evaluation', result'⟩ := run'
      cases run cache.lookup
          ((state.evaluation.getD (.new state.init (some types'.ty))).demand types'.structs) with
      | done v =>
        intro h
        obtain rfl : result' = _ := h
        simp only
        cases validateConstantType name definition types'.ty v <;> simp [run]
      | fail d =>
        intro h
        obtain rfl : result' = _ := h
        rfl
      | stop n s k e =>
        rintro ⟨h, hleft⟩
        obtain rfl : result' = _ := h
        have hleft : evaluation'.demand types'.structs = ask n s k := hleft
        simp [PreparedTypes.demand, hready, toAList_entries, hleft]

end Refinement

/-! ## Both phases -/

/-- The two phases that run the scheduler : over the checked declarations, or over the
snapshot that array lengths are resolved from. -/
inductive ConstantPhase where
  | constant (definitions : HashMap ConstantDefinition) (globals : HashMap ValueType)
      (structs : HashMap StructDecl) (invalid : HashSet)
  | arrayLength (definitions : HashMap ConstantDefinition) (structs : HashMap StructDecl)

namespace ConstantPhase

variable [F32Primitives]

def State : ConstantPhase → Type
  | constant .. => Evaluation
  | arrayLength .. => LengthEvaluation

def evaluator : (phase : ConstantPhase) → Evaluator phase.State
  | constant definitions globals structs invalid => constantPhase definitions globals structs invalid
  | arrayLength definitions structs => lengthPhase definitions structs

/-- The lazy meaning of the constants of a phase. -/
def system : ConstantPhase → Resolution → String → Option (ConstantDemand ConstantValue)
  | constant definitions globals structs invalid =>
    constantSystem definitions globals structs invalid
  | arrayLength definitions structs => lengthSystem definitions structs

theorem refines (phase : ConstantPhase) (resolution : Resolution) :
    ∃ left, phase.evaluator.Refines (predefinedValues resolution) (phase.system resolution) left := by
  cases phase with
  | constant definitions globals structs invalid =>
    exact ⟨_, constantPhase_refines definitions globals structs invalid resolution⟩
  | arrayLength definitions structs => exact ⟨_, lengthPhase_refines definitions structs resolution⟩

/-- The values and the failing names of the cache after a sequence of requests. -/
def SameOutcome (cache cache' : ConstantValues) : Prop :=
  (∀ n, cache.values.lookup n = cache'.values.lookup n) ∧
    ∀ n, n ∈ cache.failures ↔ n ∈ cache'.failures

/-- The scheduler answers every sequence of requests with the lazy values, keeps exactly
what the requests demand, and does not depend on their order. -/
theorem requests_lazily (phase : ConstantPhase) (resolution : Resolution)
    (requests : List (String × Span)) :
    ∃ cache results,
      ConstantValues.evaluateAll phase.evaluator (.new resolution) requests = some (cache, results) ∧
      ComputesLazily phase.evaluator.definitions phase.evaluator.phase (predefinedValues resolution)
        (phase.system resolution) requests cache results ∧
      ∀ requests', (requests'.map (·.1)).Perm (requests.map (·.1)) →
        ∃ cache' results', ConstantValues.evaluateAll phase.evaluator (.new resolution) requests' =
          some (cache', results') ∧ SameOutcome cache cache' := by
  obtain ⟨left, R⟩ := phase.refines resolution
  obtain ⟨cache, results, hall, h⟩ := ConstantValues.requests_spec R requests
  refine ⟨cache, results, hall, h, fun requests' hperm => ?_⟩
  obtain ⟨cache', results', hall', h'⟩ := ConstantValues.requests_spec R requests'
  -- both caches are the one determined by the set of names requested
  have hreach : ∀ n, (∃ r ∈ requests,
      Relation.ReflTransGen (Demands (phase.system resolution)) r.1 n) ↔
      ∃ r ∈ requests', Relation.ReflTransGen (Demands (phase.system resolution)) r.1 n := by
    intro n
    have hset : ∀ requests : List (String × Span), (∃ r ∈ requests,
        Relation.ReflTransGen (Demands (phase.system resolution)) r.1 n) ↔
        ∃ m ∈ requests.map (·.1),
          Relation.ReflTransGen (Demands (phase.system resolution)) m n := by
      simp
    rw [hset, hset]
    simp only [hperm.mem_iff]
  refine ⟨cache', results', hall', fun n => ?_, fun n => ?_⟩
  · apply Option.ext
    intro v
    rw [h.values, h'.values, hreach]
  · rw [h.failing, h'.failing, hreach]

end ConstantPhase

end Speck
