import Speck.Checker
import Speck.ResolvedTypes

/-!
# Typing

The type system that the checker decides. `HasType` is the typing of an expression in its
scopes, `PlaceTyped` the typing of an assignment target, `StmtTyped` and `BlockTyped` the
typing of statements. Over well-formed declarations, an expression or a block that is
checked without a diagnostic is typed (`inferExpr_clean`, `checkStatements_clean`), and the
type that `inferExpr` gives is the type of the expression (`HasType.inferExpr_value`).
-/

namespace Speck

/-! ## Types of the operators -/

/-- The type of a unary operation on an operand of type `ty`. -/
def UnaryOp.result : UnaryOp → ValueType → Option ValueType
  | .negate, .i32 => some .i32
  | .negate, .f32 => some .f32
  | .not, .bool => some .bool
  | _, _ => none

/-- The type of a binary operation on two operands of type `ty`. -/
def BinaryOp.result (op : BinaryOp) (ty : ValueType) : Option ValueType :=
  match op with
  | .logicalAnd | .logicalOr => if ty = .bool then some .bool else none
  | .add | .subtract | .multiply | .divide => if ty.isNumeric then some ty else none
  | .remainder => if ty = .i32 then some .i32 else none
  | .less | .lessEqual | .greater | .greaterEqual => if ty.isNumeric then some .bool else none
  | .equal | .notEqual => if ty = .i32 ∨ ty = .f32 ∨ ty = .bool then some .bool else none

theorem BinaryOp.scalar_of_result {op : BinaryOp} {ty result : ValueType}
    (h : op.result ty = some result) : ty = .i32 ∨ ty = .f32 ∨ ty = .bool := by
  cases op <;> cases ty <;> simp_all [BinaryOp.result, ValueType.isNumeric]

theorem BinaryOp.bool_of_isLogical {op : BinaryOp} {ty result : ValueType} (hop : op.isLogical)
    (h : op.result ty = some result) : ty = .bool ∧ result = .bool := by
  cases op <;> simp [BinaryOp.isLogical] at hop <;> simpa [BinaryOp.result, eq_comm] using h

/-- The names of the fields tell them apart. -/
theorem find?_name_of_mem {fields : List StructField} {field : StructField}
    (hnodup : (fields.map (·.name)).Nodup) (h : field ∈ fields) :
    fields.find? (·.name == field.name) = some field :=
  find?_key_of_mem (·.name) hnodup h

/-! ## Well-formed types -/

/-- Every length is resolved, to a positive `i32`, and every struct is declared. -/
def ValueType.WellFormed (structs : HashMap StructDecl) : ValueType → Prop
  | .array element (.resolved length) =>
    element.WellFormed structs ∧ 1 ≤ length ∧ length ≤ 2147483647
  | .array _ _ => False
  | .struct name => name ∈ structs
  | _ => True

def ReturnType.WellFormed (structs : HashMap StructDecl) (returnType : ReturnType) : Prop :=
  ∀ ty, returnType = .value ty → ty.WellFormed structs

theorem ValueType.WellFormed.hasInvalidArrayLength {structs : HashMap StructDecl} {ty : ValueType}
    (h : ty.WellFormed structs) : ty.hasInvalidArrayLength = false := by
  induction ty with
  | array element length ih =>
    cases length with
    | resolved length => simpa [ValueType.hasInvalidArrayLength] using ih h.1
    | _ => exact h.elim
  | _ => rfl

theorem ValueType.eq_of_resolvedArray {ty element : ValueType} {length : ℕ}
    (h : ty.resolvedArray = some (element, length)) : ty = .array element (.resolved length) := by
  unfold ValueType.resolvedArray at h
  split at h <;> cases h
  rfl

/-- Every type that the checker knows is well formed, and no struct has two fields of one
name. -/
structure FunctionChecker.WellFormed (c : FunctionChecker) : Prop where
  globals : ∀ {name ty}, c.globals.lookup name = some ty → ty.WellFormed c.structs
  constants : ∀ {name ty}, c.constants.lookup name = some ty → ty.WellFormed c.structs
  fields : ∀ {name declaration}, c.structs.lookup name = some declaration →
    ∀ field ∈ declaration.fields, field.ty.WellFormed c.structs
  fieldNames : ∀ {name declaration}, c.structs.lookup name = some declaration →
    (declaration.fields.map (·.name)).Nodup
  params : ∀ {name signature}, c.functions.lookup name = some signature →
    ∀ ty ∈ signature.params, ty.WellFormed c.structs
  returns : ∀ {name signature}, c.functions.lookup name = some signature →
    signature.returnType.WellFormed c.structs

/-- Every local has a well-formed type. -/
def Scopes.WellFormed (structs : HashMap StructDecl) (scopes : Scopes) : Prop :=
  ∀ scope ∈ scopes, ∀ {name binding}, scope.lookup name = some binding →
    binding.ty.WellFormed structs

section

variable {α : Type}

theorem exists_of_lookupScopes {scopes : List (HashMap α)} {name : String} {a : α}
    (h : lookupScopes scopes name = some a) : ∃ scope ∈ scopes, scope.lookup name = some a :=
  List.exists_of_findSome?_eq_some h

end

namespace FunctionChecker

variable {c : FunctionChecker} {scopes : Scopes}

theorem binding_eq_some {name : String} {b : Binding} (h : c.binding scopes name = some b) :
    lookupScopes scopes name = some b ∨
      lookupScopes scopes name = none ∧
        ((∃ ty, c.globals.lookup name = some ty ∧ b = ⟨ty, .mutable⟩) ∨
          c.globals.lookup name = none ∧
            ∃ ty, c.constants.lookup name = some ty ∧ b = ⟨ty, .constant⟩) := by
  unfold binding at h
  cases hs : lookupScopes scopes name with
  | some b' => simp_all
  | none =>
    cases hg : c.globals.lookup name with
    | some ty => simp_all
    | none =>
      simp only [hs, hg, Option.map_none, Option.none_or, Option.map_eq_some_iff] at h
      obtain ⟨ty, hty, rfl⟩ := h
      exact .inr ⟨rfl, .inr ⟨rfl, ty, hty, rfl⟩⟩

theorem WellFormed.binding (hc : c.WellFormed) (hΓ : scopes.WellFormed c.structs) {name : String}
    {b : Binding} (h : c.binding scopes name = some b) : b.ty.WellFormed c.structs := by
  rcases binding_eq_some h with h | ⟨-, ⟨ty, hty, rfl⟩ | ⟨-, ty, hty, rfl⟩⟩
  · obtain ⟨scope, hmem, hlookup⟩ := exists_of_lookupScopes h
    exact hΓ scope hmem hlookup
  · exact hc.globals hty
  · exact hc.constants hty

end FunctionChecker

/-! ## Expressions -/

/-- An expression has a type in the scopes. An array literal has every array type that its
elements fit : the checker reads its type off the place where it stands. -/
inductive HasType (c : FunctionChecker) (scopes : Scopes) : Expr → ReturnType → Prop
  | i32 {value span} : i32InRange value → HasType c scopes (.i32 value span) (.value .i32)
  | f32 {value span} : value.isFinite → HasType c scopes (.f32 value span) (.value .f32)
  | bool {value span} : HasType c scopes (.bool value span) (.value .bool)
  | arrayLiteral {elements span element} :
    (∀ e ∈ elements, HasType c scopes e (.value element)) →
    HasType c scopes (.arrayLiteral elements span)
      (.value (.array element (.resolved elements.length)))
  | structLiteral {name fields span declaration} :
    c.structs.lookup name = some declaration →
    (fields.map (·.name)).Nodup →
    (∀ field ∈ declaration.fields, field.name ∈ fields.map (·.name)) →
    (∀ f ∈ fields, (declaration.fields.find? (·.name == f.name)).isSome) →
    (∀ f ∈ fields, ∀ field, declaration.fields.find? (·.name == f.name) = some field →
      HasType c scopes f.value (.value field.ty)) →
    HasType c scopes (.structLiteral name fields span) (.value (.struct name))
  | var {name span b} : c.binding scopes name = some b →
    HasType c scopes (.var name span) (.value b.ty)
  | index {base index span element length} :
    base.isArrayLiteral = false →
    HasType c scopes base (.value (.array element (.resolved length))) →
    HasType c scopes index (.value .i32) →
    HasType c scopes (.index base index span) (.value element)
  | field {base name nameSpan span structName declaration field} :
    HasType c scopes base (.value (.struct structName)) →
    c.structs.lookup structName = some declaration →
    declaration.fields.find? (·.name == name) = some field →
    HasType c scopes (.field base name nameSpan span) (.value field.ty)
  | minimum {operand span} : operand.isMinMagnitude →
    HasType c scopes (.unary .negate operand span) (.value .i32)
  | unary {op operand span ty result} :
    (op = .negate && operand.isMinMagnitude) = false →
    HasType c scopes operand (.value ty) → op.result ty = some result →
    HasType c scopes (.unary op operand span) (.value result)
  | binary {left op right span ty result} :
    HasType c scopes left (.value ty) → HasType c scopes right (.value ty) →
    op.result ty = some result →
    HasType c scopes (.binary left op right span) (.value result)
  | call {name args span signature} :
    c.functions.lookup name = some signature →
    args.length = signature.params.length →
    (∀ p ∈ args.zip signature.params, HasType c scopes p.1 (.value p.2)) →
    HasType c scopes (.call name args span) signature.returnType
  | conversion {target arg span ty} :
    HasType c scopes arg (.value ty) → ty.isNumeric →
    HasType c scopes (.conversion target [arg] span) (.value target.val)

theorem HasType.arrayLiteral_inv {c : FunctionChecker} {scopes : Scopes} {elements : List Expr}
    {span : Span} {r : ReturnType} (h : HasType c scopes (.arrayLiteral elements span) r) :
    ∃ element, r = .value (.array element (.resolved elements.length)) ∧
      ∀ e ∈ elements, HasType c scopes e (.value element) := by
  generalize he : Expr.arrayLiteral elements span = e at h
  cases h with
  | arrayLiteral helements =>
    cases he
    exact ⟨_, rfl, helements⟩
  | _ => cases he

/-- No array literal has another type than an array type. -/
theorem HasType.isArrayLiteral {c : FunctionChecker} {scopes : Scopes} {e : Expr} {ty : ValueType}
    (h : HasType c scopes e (.value ty)) (hty : ty.resolvedArray = none) :
    e.isArrayLiteral = false := by
  cases e with
  | arrayLiteral elements span =>
    obtain ⟨element, heq, -⟩ := h.arrayLiteral_inv
    obtain rfl := ReturnType.value.inj heq
    cases hty
  | _ => rfl

/-- The type of anything but an array literal is well formed. -/
theorem HasType.wellFormed {c : FunctionChecker} {scopes : Scopes} (hc : c.WellFormed)
    (hΓ : scopes.WellFormed c.structs) {e : Expr} {r : ReturnType} (h : HasType c scopes e r)
    (he : e.isArrayLiteral = false) : r.WellFormed c.structs := by
  rintro ty rfl
  generalize hr : ReturnType.value ty = r at h
  induction h generalizing ty with
  | arrayLiteral => cases he
  | structLiteral hd =>
    obtain rfl := ReturnType.value.inj hr
    exact AList.lookup_isSome.mp (by rw [hd]; rfl)
  | var hb =>
    obtain rfl := ReturnType.value.inj hr
    exact hc.binding hΓ hb
  | index hbase _ _ ih =>
    obtain rfl := ReturnType.value.inj hr
    exact (ih hbase _ rfl).1
  | field _ hd hf =>
    obtain rfl := ReturnType.value.inj hr
    exact hc.fields hd _ (List.mem_of_find?_eq_some hf)
  | unary _ _ hop =>
    obtain rfl := ReturnType.value.inj hr
    unfold UnaryOp.result at hop
    split at hop <;> cases hop <;> trivial
  | @binary _ op _ _ operand _ _ _ hop =>
    obtain rfl := ReturnType.value.inj hr
    cases op <;> cases operand <;> simp [BinaryOp.result, ValueType.isNumeric] at hop <;>
      subst hop <;> trivial
  | call hf => exact hc.returns hf _ hr.symm
  | @conversion target =>
    obtain rfl := ReturnType.value.inj hr
    obtain ⟨target, htarget⟩ := target
    cases target <;> trivial
  | _ =>
    obtain rfl := ReturnType.value.inj hr
    trivial

/-! ### Checked expressions -/

section Clean

open Logged

theorem UnaryOp.result_of_clean {op : UnaryOp} {ty : ValueType} {span : Span}
    (h : (FunctionChecker.unaryType op ty span).Clean) :
    ∃ result, op.result ty = some result ∧
      (FunctionChecker.unaryType op ty span).value = some (.value result) := by
  unfold FunctionChecker.unaryType at h ⊢
  split at h <;> first | exact ⟨_, rfl, rfl⟩ | simp at h

theorem BinaryOp.result_of_clean {op : BinaryOp} {left right : ValueType} {span : Span}
    (h : (FunctionChecker.binaryType left op right span).Clean) :
    left = right ∧ ∃ result, op.result left = some result ∧
      (FunctionChecker.binaryType left op right span).value = some (.value result) := by
  unfold FunctionChecker.binaryType at h ⊢
  by_cases heq : left = right
  · subst heq
    refine ⟨rfl, ?_⟩
    cases op <;> cases left <;>
      simp_all [BinaryOp.isLogical, BinaryOp.result, ValueType.isNumeric]
  · cases op <;> simp [BinaryOp.isLogical, heq] at h
    all_goals exact absurd (h.1.trans h.2.symm) heq

namespace FunctionChecker

theorem requireValue_clean {inferred : Logged (Option ReturnType)} {span : Span}
    {description : String} (h : (requireValue inferred span description).Clean) :
    inferred.Clean ∧ inferred.value ≠ some .void ∧
      (requireValue inferred span description).value =
        inferred.value.bind ReturnType.valueType := by
  simp only [requireValue, clean_bind, bind_value] at h ⊢
  obtain ⟨hclean, h⟩ := h
  rcases hvalue : inferred.value with _ | _ | _
  · exact ⟨hclean, by simp, rfl⟩
  · exact ⟨hclean, by simp, rfl⟩
  · simp [hvalue] at h

theorem missingFields_clean {name : String} {seen : HashSet} {span : Span}
    {fields : List StructField} (h : (missingFields name seen span fields).Clean) :
    ∀ field ∈ fields, field.name ∈ seen := by
  induction fields with
  | nil => simp
  | cons field rest ih =>
    simp only [missingFields, clean_bind, clean_errorIf, decide_eq_false_iff_not, not_not] at h
    simpa using ⟨h.1, ih h.2⟩

theorem fieldType_clean {c : FunctionChecker} {baseType : ValueType} {baseSpan nameSpan : Span}
    {name : String} (h : (c.fieldType baseType baseSpan name nameSpan).Clean) :
    ∃ structName declaration field, baseType = .struct structName ∧
      c.structs.lookup structName = some declaration ∧
      declaration.fields.find? (·.name == name) = some field ∧
      (c.fieldType baseType baseSpan name nameSpan).value = some field.ty := by
  unfold fieldType at h ⊢
  cases baseType with
  | struct structName =>
    cases hd : c.structs.lookup structName with
    | none => simp [hd] at h
    | some declaration =>
      cases hf : declaration.fields.find? (·.name == name) with
      | none => simp [hd, hf] at h
      | some field => exact ⟨_, _, _, rfl, hd, hf, by simp [hd, hf]⟩
  | _ => simp at h

theorem conversionType_clean {target : ValueType} {r : ReturnType} {span : Span}
    (h : (conversionType target (some r) span).Clean) :
    ∃ ty, r = .value ty ∧ ty.isNumeric ∧
      (conversionType target (some r) span).value = some (.value target) := by
  unfold conversionType at h ⊢
  split at h <;> first | (rename_i heq; cases heq; exact ⟨_, rfl, rfl, rfl⟩) | simp_all

variable [F32Primitives] {c : FunctionChecker} {scopes : Scopes}

/-- Without a diagnostic, the inference gives the expression a type. -/
def Infers (c : FunctionChecker) (scopes : Scopes) (e : Expr) : Prop :=
  (c.inferExpr scopes e).Clean → e.isArrayLiteral = false ∧
    ∃ r, (c.inferExpr scopes e).value = some r ∧ HasType c scopes e r

/-- The same with a type that the place of the expression asks for. -/
def Checks (c : FunctionChecker) (scopes : Scopes) (e : Expr) : Prop :=
  ∀ expected description, expected.WellFormed c.structs →
    (c.requireValueAs scopes e expected description).Clean →
      ∃ ty, (c.requireValueAs scopes e expected description).value = some ty ∧
        HasType c scopes e (.value ty)

theorem Infers.value {e : Expr} {span : Span} {description : String} (h : Infers c scopes e)
    (hclean : (requireValue (c.inferExpr scopes e) span description).Clean) :
    e.isArrayLiteral = false ∧
      ∃ ty, (requireValue (c.inferExpr scopes e) span description).value = some ty ∧
        HasType c scopes e (.value ty) := by
  obtain ⟨hclean, hvoid, hvalue⟩ := requireValue_clean hclean
  obtain ⟨hnot, r, hr, htype⟩ := h hclean
  rcases r with ty | _
  · exact ⟨hnot, ty, by rw [hvalue, hr]; rfl, htype⟩
  · exact absurd hr hvoid

/-- Without an array literal, the type asked for does not change the inference. -/
theorem Infers.checks {e : Expr} (h : Infers c scopes e) (he : e.isArrayLiteral = false) :
    Checks c scopes e := by
  intro expected description hwf hclean
  have heq : c.requireValueAs scopes e expected description =
      requireValue (c.inferExpr scopes e) e.span description := by
    unfold requireValueAs
    rw [hwf.hasInvalidArrayLength]
    cases e <;> first | rfl | cases he
  rw [heq] at hclean ⊢
  exact (h.value hclean).2

/-- A checked value of exactly the type asked for. -/
theorem Checks.typed {e : Expr} {expected : ValueType} {description message : String} {span : Span}
    (h : Checks c scopes e) (hwf : expected.WellFormed c.structs)
    (hclean : (c.requireValueAs scopes e expected description).Clean)
    (heq : (errorIf ((c.requireValueAs scopes e expected description).value.any (· != expected))
      message span).Clean) : HasType c scopes e (.value expected) := by
  obtain ⟨ty, hvalue, htype⟩ := h expected description hwf hclean
  obtain rfl : ty = expected := by simpa [hvalue] using heq
  exact htype

theorem checkElements_clean {element : ValueType} (hwf : element.WellFormed c.structs)
    {elements : List Expr} (ih : ∀ e ∈ elements, Checks c scopes e)
    (h : (c.checkElements scopes element elements).Clean) :
    ∀ e ∈ elements, HasType c scopes e (.value element) := by
  induction elements with
  | nil => simp
  | cons e rest ihrest =>
    rw [checkElements] at h
    simp only [clean_bind] at h
    simp only [List.forall_mem_cons] at ih ⊢
    exact ⟨ih.1.typed hwf h.1 h.2.1, ihrest ih.2 h.2.2⟩

theorem checkArgs_clean {name : String} {args : List Expr} {index : ℕ} {params : List ValueType}
    (hlen : args.length = params.length) (hwf : ∀ ty ∈ params, ty.WellFormed c.structs)
    (ih : ∀ e ∈ args, Checks c scopes e) (h : (c.checkArgs scopes name index params args).Clean) :
    ∀ p ∈ args.zip params, HasType c scopes p.1 (.value p.2) := by
  induction args generalizing index params with
  | nil => simp
  | cons arg rest ihrest =>
    obtain _ | ⟨expected, params⟩ := params
    · cases hlen
    rw [checkArgs] at h
    simp only [clean_bind] at h
    simp only [List.forall_mem_cons] at ih hwf
    simp only [List.zip_cons_cons, List.forall_mem_cons]
    exact ⟨ih.1.typed hwf.1 h.1 h.2.1, ihrest (by simpa using hlen) hwf.2 ih.2 h.2.2⟩

/-- Initializers without a diagnostic are of distinct declared fields, each of its type. -/
theorem checkInitializers_clean {name : String} {declaration : StructDecl} {seen : HashSet}
    (hwf : ∀ field ∈ declaration.fields, field.ty.WellFormed c.structs)
    {fields : List (FieldInitializer Expr)} (ih : ∀ f ∈ fields, Checks c scopes f.value)
    (h : (c.checkInitializers scopes name declaration seen fields).Clean) :
    (fields.map (·.name)).Nodup ∧ (∀ f ∈ fields, f.name ∉ seen) ∧
      (∀ n, n ∈ (c.checkInitializers scopes name declaration seen fields).value ↔
        n ∈ seen ∨ n ∈ fields.map (·.name)) ∧
      ∀ f ∈ fields, ∃ field, declaration.fields.find? (·.name == f.name) = some field ∧
        HasType c scopes f.value (.value field.ty) := by
  induction fields generalizing seen with
  | nil => simp [checkInitializers]
  | cons f rest ihrest =>
    rw [checkInitializers] at h ⊢
    by_cases hseen : f.name ∈ seen
    · simp [hseen] at h
    rw [if_neg hseen] at h ⊢
    cases hfind : declaration.fields.find? (·.name == f.name) with
    | none => simp [hfind] at h
    | some field =>
      simp only [hfind, clean_bind] at h
      simp only [List.forall_mem_cons] at ih ⊢
      have hfield := ih.1.typed (hwf field (List.mem_of_find?_eq_some hfind)) h.1 h.2.1
      obtain ⟨hnodup, hnew, hvalue, hrest⟩ := ihrest ih.2 h.2.2
      refine ⟨?_, ⟨hseen, fun g hg hmem => hnew g hg (List.mem_cons_of_mem _ hmem)⟩, fun n => ?_,
        ⟨field, hfind, hfield⟩, hrest⟩
      · rw [List.map_cons, List.nodup_cons]
        refine ⟨fun hmem => ?_, hnodup⟩
        obtain ⟨g, hg, heq⟩ := List.mem_map.mp hmem
        exact hnew g hg (heq ▸ List.mem_cons_self)
      · simp only [bind_value]
        rw [hvalue, List.mem_cons, List.map_cons, List.mem_cons]
        tauto

theorem infers_and_checks (hc : c.WellFormed) (hΓ : scopes.WellFormed c.structs) (e : Expr) :
    Infers c scopes e ∧ Checks c scopes e := by
  -- away from array literals the checked type follows from the inferred one
  have hboth : ∀ e : Expr, e.isArrayLiteral = false → Infers c scopes e →
      Infers c scopes e ∧ Checks c scopes e := fun e he h => ⟨h, h.checks he⟩
  induction e with
  | i32 value span =>
    refine hboth _ rfl fun h => ?_
    rw [inferExpr] at h ⊢
    exact ⟨rfl, _, rfl, .i32 (by simpa using h)⟩
  | f32 value span =>
    refine hboth _ rfl fun h => ?_
    rw [inferExpr] at h ⊢
    exact ⟨rfl, _, rfl, .f32 (by simpa using h)⟩
  | bool value span =>
    refine hboth _ rfl fun _ => ?_
    rw [inferExpr]
    exact ⟨rfl, _, rfl, .bool⟩
  | arrayLiteral elements span ih =>
    refine ⟨fun h => ?_, fun expected description hwf h => ?_⟩
    · rw [inferExpr] at h
      simp at h
    · rw [requireValueAs, hwf.hasInvalidArrayLength] at h ⊢
      cases expected with
      | array element length =>
        cases length with
        | resolved length =>
          simp only [Bool.false_eq_true, if_false, ValueType.resolvedArray, clean_bind] at h
          obtain ⟨hlen, helements, -⟩ := h
          obtain rfl : elements.length = length := by simpa using hlen
          exact ⟨_, rfl, .arrayLiteral
            (checkElements_clean hwf.1 (fun e he => (ih e he).2) helements)⟩
        | _ => exact hwf.elim
      | _ => simp [ValueType.resolvedArray] at h
  | structLiteral name fields span ih =>
    refine hboth _ rfl fun h => ?_
    rw [inferExpr] at h ⊢
    cases hd : c.structs.lookup name with
    | none => simp [hd] at h
    | some declaration =>
      simp only [hd, clean_bind] at h
      obtain ⟨hnodup, -, hseen, hfields⟩ := checkInitializers_clean (hc.fields hd)
        (fun f hf => (ih f hf).2) h.1
      refine ⟨rfl, _, rfl, .structLiteral hd hnodup (fun field hfield => ?_) (fun f hf => ?_)
        fun f hf field hfield => ?_⟩
      · simpa using (hseen field.name).mp (missingFields_clean h.2.1 field hfield)
      · obtain ⟨field, hfield, -⟩ := hfields f hf
        simp [hfield]
      · obtain ⟨field', hfield', htype⟩ := hfields f hf
        obtain rfl := Option.some.inj (hfield'.symm.trans hfield)
        exact htype
  | var name span =>
    refine hboth _ rfl fun h => ?_
    rw [inferExpr] at h ⊢
    cases hb : c.binding scopes name with
    | none => simp [hb] at h
    | some b => exact ⟨rfl, _, rfl, .var hb⟩
  | index base index span ihbase ihindex =>
    refine hboth _ rfl fun h => ?_
    rw [inferExpr] at h ⊢
    simp only [inferIndex, clean_bind, bind_value] at h ⊢
    obtain ⟨⟨hbase, h⟩, -⟩ := h
    obtain ⟨hnot, baseType, hvalue, hbaseType⟩ := ihbase.1.value hbase
    have hwf := hbaseType.wellFormed hc hΓ hnot _ rfl
    simp only [hvalue, clean_bind, clean_errorIf, bind_value, hwf.hasInvalidArrayLength] at h ⊢
    obtain ⟨hindex, hi32, h⟩ := h
    obtain ⟨-, indexType, hindexValue, hindexType⟩ := ihindex.1.value hindex
    obtain rfl : indexType = .i32 := by simpa [hindexValue] using hi32
    cases hresolved : baseType.resolvedArray with
    | none => simp [hresolved] at h
    | some p =>
      obtain ⟨element, length⟩ := p
      obtain rfl := ValueType.eq_of_resolvedArray hresolved
      exact ⟨rfl, _, rfl, .index hnot hbaseType hindexType⟩
  | field base name nameSpan span ih =>
    refine hboth _ rfl fun h => ?_
    rw [inferExpr] at h ⊢
    simp only [clean_bind, bind_value] at h ⊢
    obtain ⟨hbase, h⟩ := h
    obtain ⟨hnot, baseType, hvalue, hbaseType⟩ := ih.1.value hbase
    simp only [hvalue, clean_bind, bind_value] at h ⊢
    obtain ⟨structName, declaration, field, rfl, hd, hf, hty⟩ := fieldType_clean h.1
    rw [hty]
    exact ⟨rfl, _, rfl, .field hbaseType hd hf⟩
  | unary op operand span ih =>
    refine hboth _ rfl fun h => ?_
    rw [inferExpr] at h ⊢
    by_cases hmin : (op = .negate && operand.isMinMagnitude) = true
    · rw [if_pos hmin]
      obtain ⟨hop, hmagnitude⟩ := Bool.and_eq_true_iff.mp hmin
      obtain rfl : op = .negate := by simpa using hop
      exact ⟨rfl, _, rfl, .minimum hmagnitude⟩
    · rw [if_neg hmin] at h ⊢
      simp only [clean_bind, bind_value] at h ⊢
      obtain ⟨hoperand, h⟩ := h
      obtain ⟨-, ty, hvalue, htype⟩ := ih.1.value hoperand
      simp only [hvalue] at h ⊢
      obtain ⟨result, hresult, hrvalue⟩ := UnaryOp.result_of_clean h
      exact ⟨rfl, _, hrvalue, .unary (by simpa using hmin) htype hresult⟩
  | binary left op right span ihleft ihright =>
    refine hboth _ rfl fun h => ?_
    rw [inferExpr] at h ⊢
    simp only [clean_bind, bind_value] at h ⊢
    obtain ⟨hleft, hright, h⟩ := h
    obtain ⟨-, leftType, hlvalue, hltype⟩ := ihleft.1.value hleft
    obtain ⟨-, rightType, hrvalue, hrtype⟩ := ihright.1.value hright
    simp only [hlvalue, hrvalue] at h ⊢
    obtain ⟨rfl, result, hresult, hvalue⟩ := BinaryOp.result_of_clean h
    exact ⟨rfl, _, hvalue, .binary hltype hrtype hresult⟩
  | call name args span ih =>
    refine hboth _ rfl fun h => ?_
    rw [inferExpr] at h ⊢
    cases hf : c.functions.lookup name with
    | none => simp [hf] at h
    | some signature =>
      simp only [hf, clean_bind, clean_errorIf] at h
      have hlen : args.length = signature.params.length := by simpa using h.1
      exact ⟨rfl, _, rfl, .call hf hlen
        (checkArgs_clean hlen (hc.params hf) (fun e he => (ih e he).2) h.2.1)⟩
  | conversion target args span ih =>
    refine hboth _ rfl fun h => ?_
    obtain _ | ⟨arg, _ | ⟨arg', rest⟩⟩ := args
    · rw [inferExpr] at h
      · simp at h
      · simp
    · rw [inferExpr] at h ⊢
      simp only [clean_bind, bind_value] at h ⊢
      obtain ⟨hclean, h⟩ := h
      obtain ⟨-, r, hr, htype⟩ := (ih arg List.mem_cons_self).1 hclean
      rw [hr] at h ⊢
      obtain ⟨ty, rfl, hnumeric, hvalue⟩ := conversionType_clean h
      exact ⟨rfl, _, hvalue, .conversion htype hnumeric⟩
    · rw [inferExpr] at h
      · simp at h
      · simp

/-- An expression that is inferred without a diagnostic is typed. -/
theorem inferExpr_clean (hc : c.WellFormed) (hΓ : scopes.WellFormed c.structs) {e : Expr}
    (h : (c.inferExpr scopes e).Clean) :
    e.isArrayLiteral = false ∧ ∃ r, (c.inferExpr scopes e).value = some r ∧ HasType c scopes e r :=
  (infers_and_checks hc hΓ e).1 h

/-- A checked value is typed. -/
theorem requireValueAs_clean (hc : c.WellFormed) (hΓ : scopes.WellFormed c.structs) {e : Expr} :
    Checks c scopes e :=
  (infers_and_checks hc hΓ e).2

end FunctionChecker

end Clean

section Inferred

theorem requireValue_value {inferred : Logged (Option ReturnType)} {ty : ValueType} {span : Span}
    {description : String} (h : inferred.value = some (.value ty)) :
    (FunctionChecker.requireValue inferred span description).value = some ty := by
  simp [FunctionChecker.requireValue, h]

variable [F32Primitives] {c : FunctionChecker} {scopes : Scopes}

/-- The checker infers the type of a typed expression. -/
theorem HasType.inferExpr_value (hc : c.WellFormed) (hΓ : scopes.WellFormed c.structs) {e : Expr}
    {r : ReturnType} (h : HasType c scopes e r) (he : e.isArrayLiteral = false) :
    (c.inferExpr scopes e).value = some r := by
  induction h with
  | arrayLiteral => cases he
  | i32 | f32 | bool =>
    rw [FunctionChecker.inferExpr]
    rfl
  | structLiteral hd =>
    rw [FunctionChecker.inferExpr, hd]
    rfl
  | var hb =>
    rw [FunctionChecker.inferExpr, hb]
    rfl
  | @index base index span element length hnot hbase hindex ihbase ihindex =>
    have hwf := hbase.wellFormed hc hΓ hnot _ rfl
    rw [FunctionChecker.inferExpr]
    simp [FunctionChecker.inferIndex, requireValue_value (ihbase hnot), hwf.hasInvalidArrayLength,
      ValueType.resolvedArray]
  | @field base name nameSpan span structName declaration field hbase hd hf ih =>
    have hnot := hbase.isArrayLiteral rfl
    rw [FunctionChecker.inferExpr]
    simp [requireValue_value (ih hnot), FunctionChecker.fieldType, hd, hf]
  | minimum hmin =>
    rw [FunctionChecker.inferExpr, if_pos (by simpa using hmin)]
    rfl
  | @unary op operand span ty result hmin hoperand hop ih =>
    have hnot := hoperand.isArrayLiteral (by cases op <;> cases ty <;> first | rfl | cases hop)
    rw [FunctionChecker.inferExpr, if_neg (by simp [hmin])]
    simp only [Logged.bind_value, requireValue_value (ih hnot)]
    unfold UnaryOp.result at hop
    split at hop <;> cases hop <;> rfl
  | @binary left op right span ty result hleft hright hop ihleft ihright =>
    have hscalar : ty.resolvedArray = none := by
      obtain rfl | rfl | rfl := BinaryOp.scalar_of_result hop <;> rfl
    have hlnot := hleft.isArrayLiteral hscalar
    have hrnot := hright.isArrayLiteral hscalar
    rw [FunctionChecker.inferExpr]
    simp only [Logged.bind_value, requireValue_value (ihleft hlnot),
      requireValue_value (ihright hrnot)]
    cases op <;> cases ty <;>
      simp_all [FunctionChecker.binaryType, BinaryOp.isLogical, BinaryOp.result,
        ValueType.isNumeric]
  | call hf =>
    rw [FunctionChecker.inferExpr, hf]
    rfl
  | @conversion target arg span ty harg hnumeric ih =>
    have hnot := harg.isArrayLiteral (by cases ty <;> first | rfl | cases hnumeric)
    rw [FunctionChecker.inferExpr]
    simp only [Logged.bind_value, ih hnot]
    cases ty <;> first | rfl | cases hnumeric

/-- The checker gives a typed expression the type that its place asks for. -/
theorem HasType.requireValueAs_value (hc : c.WellFormed) (hΓ : scopes.WellFormed c.structs)
    {e : Expr} {expected : ValueType} {description : String} (h : HasType c scopes e (.value expected))
    (hwf : expected.WellFormed c.structs) :
    (c.requireValueAs scopes e expected description).value = some expected := by
  unfold FunctionChecker.requireValueAs
  rw [hwf.hasInvalidArrayLength]
  cases e with
  | arrayLiteral elements span =>
    obtain ⟨element, heq, -⟩ := h.arrayLiteral_inv
    obtain rfl := ReturnType.value.inj heq
    rfl
  | _ => exact requireValue_value (h.inferExpr_value hc hΓ rfl)

end Inferred

/-! ## Assignment targets -/

/-- A target names a place : a type, and the root variable with its mutability. -/
inductive PlaceTyped (c : FunctionChecker) (scopes : Scopes) : Expr → Lvalue → Prop
  | var {name span b} : c.binding scopes name = some b →
    PlaceTyped c scopes (.var name span) ⟨b.ty, b.mutability, name⟩
  | index {base index span root element length} : PlaceTyped c scopes base root →
    root.ty = .array element (.resolved length) → HasType c scopes index (.value .i32) →
    PlaceTyped c scopes (.index base index span) { root with ty := element }
  | field {base name nameSpan span root structName declaration field} :
    PlaceTyped c scopes base root → root.ty = .struct structName →
    c.structs.lookup structName = some declaration →
    declaration.fields.find? (·.name == name) = some field →
    PlaceTyped c scopes (.field base name nameSpan span) { root with ty := field.ty }

theorem PlaceTyped.isArrayLiteral {c : FunctionChecker} {scopes : Scopes} {e : Expr} {root : Lvalue}
    (h : PlaceTyped c scopes e root) : e.isArrayLiteral = false := by
  cases h <;> rfl

/-- Read as an expression, a place has the type of the place. -/
theorem PlaceTyped.hasType {c : FunctionChecker} {scopes : Scopes} {e : Expr} {root : Lvalue}
    (h : PlaceTyped c scopes e root) : HasType c scopes e (.value root.ty) := by
  induction h with
  | var hb => exact .var hb
  | index hbase hty hindex ih => exact .index hbase.isArrayLiteral (hty ▸ ih) hindex
  | field hbase hty hd hf ih => exact .field (hty ▸ ih) hd hf

/-! ## Statements -/

/-- A compound assignment to a place of type `ty`. -/
def AssignOp.Allowed (op : AssignOp) (ty : ValueType) : Prop :=
  op = .set ∨ ty.isNumeric ∧ (op = .remainder → ty = .i32)

mutual

/-- A statement is typed in the scopes before it, and leaves the scopes after it. -/
inductive StmtTyped (c : FunctionChecker) : Scopes → Stmt → Scopes → Prop
  | letVar {scopes name ty init span} : ty.WellFormed c.structs → HasType c scopes init (.value ty) →
    StmtTyped c scopes (.letVar name ty init span)
      (FunctionChecker.declare scopes name ⟨ty, .mutable⟩)
  | assign {scopes target op value span root} : PlaceTyped c scopes target root →
    root.mutability = .mutable → HasType c scopes value (.value root.ty) → op.Allowed root.ty →
    StmtTyped c scopes (.assign target op value span) scopes
  | expr {scopes expression span r} : expression.isArrayLiteral = false →
    HasType c scopes expression r → StmtTyped c scopes (.expr expression span) scopes
  | ifElse {scopes condition thenBlock elseBlock span} : HasType c scopes condition (.value .bool) →
    BlockTyped c (∅ :: scopes) thenBlock →
    (∀ block, elseBlock = some block → BlockTyped c (∅ :: scopes) block) →
    StmtTyped c scopes (.ifElse condition thenBlock elseBlock span) scopes
  | whileLoop {scopes condition body span} : HasType c scopes condition (.value .bool) →
    BlockTyped c (∅ :: scopes) body → StmtTyped c scopes (.whileLoop condition body span) scopes
  | forLoop {scopes name nameSpan lower upper body span} : HasType c scopes lower (.value .i32) →
    HasType c scopes upper (.value .i32) →
    BlockTyped c (AList.singleton name ⟨.i32, .loopVariable⟩ :: scopes) body →
    StmtTyped c scopes (.forLoop name nameSpan lower upper body span) scopes
  | ret {scopes span} : c.returnType = .void → StmtTyped c scopes (.ret none span) scopes
  | retValue {scopes value span ty} : c.returnType = .value ty → HasType c scopes value (.value ty) →
    StmtTyped c scopes (.ret (some value) span) scopes

inductive BlockTyped (c : FunctionChecker) : Scopes → List Stmt → Prop
  | nil {scopes} : BlockTyped c scopes []
  | cons {scopes scopes' statement rest} : StmtTyped c scopes statement scopes' →
    BlockTyped c scopes' rest → BlockTyped c scopes (statement :: rest)

end

theorem Scopes.WellFormed.cons {structs : HashMap StructDecl} {scopes : Scopes}
    {scope : HashMap Binding} (hscope : ∀ {name binding}, scope.lookup name = some binding →
      binding.ty.WellFormed structs) (h : scopes.WellFormed structs) :
    Scopes.WellFormed structs (scope :: scopes) := by
  intro scope' hmem
  rcases List.mem_cons.mp hmem with rfl | hmem
  · exact hscope
  · exact h scope' hmem

theorem Scopes.WellFormed.push {structs : HashMap StructDecl} {scopes : Scopes}
    (h : scopes.WellFormed structs) : Scopes.WellFormed structs (∅ :: scopes) :=
  h.cons fun hlookup => by simp at hlookup

theorem Scopes.WellFormed.declare {structs : HashMap StructDecl} {scopes : Scopes} {name : String}
    {b : Binding} (h : scopes.WellFormed structs) (hb : b.ty.WellFormed structs) :
    Scopes.WellFormed structs (FunctionChecker.declare scopes name b) := by
  cases scopes with
  | nil => exact h
  | cons scope scopes =>
    refine Scopes.WellFormed.cons (fun {n b'} hlookup => ?_)
      fun scope hmem => h scope (List.mem_cons_of_mem _ hmem)
    by_cases hn : n = name
    · subst hn
      rw [AList.lookup_insert] at hlookup
      exact Option.some.inj hlookup ▸ hb
    · rw [AList.lookup_insert_ne hn] at hlookup
      exact h scope List.mem_cons_self hlookup

theorem StmtTyped.wellFormed {c : FunctionChecker} {scopes scopes' : Scopes} {statement : Stmt}
    (h : StmtTyped c scopes statement scopes') (hΓ : scopes.WellFormed c.structs) :
    scopes'.WellFormed c.structs := by
  cases h with
  | letVar hty => exact hΓ.declare hty
  | _ => exact hΓ

section Checked

open Logged

variable [F32Primitives] {c : FunctionChecker}

namespace FunctionChecker

theorem inferLvalue_clean (hc : c.WellFormed) {scopes : Scopes} (hΓ : scopes.WellFormed c.structs)
    {e : Expr} (h : (c.inferLvalue scopes e).Clean) :
    ∃ root, (c.inferLvalue scopes e).value = some root ∧ PlaceTyped c scopes e root := by
  induction e with
  | var name span =>
    unfold inferLvalue at h ⊢
    cases hb : c.binding scopes name with
    | none => simp [hb] at h
    | some b => exact ⟨_, rfl, .var hb⟩
  | index base index span ihbase ihindex =>
    rw [inferLvalue] at h ⊢
    simp only [clean_bind, bind_value] at h ⊢
    obtain ⟨hbase, h⟩ := h
    obtain ⟨root, hroot, hplace⟩ := ihbase hbase
    have hwf := hplace.hasType.wellFormed hc hΓ hplace.isArrayLiteral _ rfl
    simp only [hroot, clean_bind, clean_errorIf, bind_value, hwf.hasInvalidArrayLength] at h ⊢
    obtain ⟨hindex, hi32, h⟩ := h
    obtain ⟨-, indexType, hvalue, htype⟩ := (infers_and_checks hc hΓ index).1.value hindex
    obtain rfl : indexType = .i32 := by simpa [hvalue] using hi32
    cases hresolved : root.ty.resolvedArray with
    | none => simp [hresolved] at h
    | some p => exact ⟨_, rfl, .index hplace (ValueType.eq_of_resolvedArray hresolved) htype⟩
  | field base name nameSpan span ih =>
    rw [inferLvalue] at h ⊢
    simp only [clean_bind, bind_value] at h ⊢
    obtain ⟨hbase, h⟩ := h
    obtain ⟨root, hroot, hplace⟩ := ih hbase
    simp only [hroot, clean_bind, bind_value] at h ⊢
    obtain ⟨structName, declaration, field, hty, hd, hf, hvalue⟩ := fieldType_clean h.1
    rw [hvalue]
    exact ⟨_, rfl, .field hplace hty hd hf⟩
  | _ => simp [inferLvalue] at h

theorem requireBool_clean (hc : c.WellFormed) {scopes : Scopes} (hΓ : scopes.WellFormed c.structs)
    {e : Expr} {description : String} (h : (c.requireBool scopes e description).Clean) :
    HasType c scopes e (.value .bool) := by
  simp only [requireBool, clean_bind, clean_errorIf] at h
  obtain ⟨-, ty, hvalue, htype⟩ := (infers_and_checks hc hΓ e).1.value h.1
  obtain rfl : ty = .bool := by simpa [hvalue] using h.2
  exact htype

theorem checkBound_clean (hc : c.WellFormed) {scopes : Scopes} (hΓ : scopes.WellFormed c.structs)
    {e : Expr} {description : String} (h : (c.checkBound scopes e description).Clean) :
    HasType c scopes e (.value .i32) := by
  simp only [checkBound, clean_bind, clean_errorIf] at h
  obtain ⟨-, ty, hvalue, htype⟩ := (infers_and_checks hc hΓ e).1.value h.1
  obtain rfl : ty = .i32 := by simpa [hvalue] using h.2
  exact htype

theorem checkAssign_clean (hc : c.WellFormed) {scopes : Scopes} (hΓ : scopes.WellFormed c.structs)
    {target value : Expr} {op : AssignOp} {span : Span}
    (h : (c.checkAssign scopes target op value span).Clean) :
    StmtTyped c scopes (.assign target op value span) scopes := by
  simp only [checkAssign, clean_bind] at h
  obtain ⟨htarget, h⟩ := h
  obtain ⟨root, hroot, hplace⟩ := inferLvalue_clean hc hΓ htarget
  have hwf := hplace.hasType.wellFormed hc hΓ hplace.isArrayLiteral _ rfl
  simp only [hroot] at h
  by_cases hset : op = .set
  · subst hset
    simp only [if_true, clean_bind] at h
    obtain ⟨hvalue, h⟩ := h
    obtain ⟨ty, hty, htype⟩ := requireValueAs_clean hc hΓ root.ty _ hwf hvalue
    cases hm : root.mutability with
    | mutable =>
      simp only [hm, hty, ne_eq, not_true, if_false, clean_errorIf, bne_eq_false_iff_eq] at h
      exact .assign hplace hm (h ▸ htype) (.inl rfl)
    | _ => simp [hm] at h
  · simp only [if_neg hset, clean_bind] at h
    obtain ⟨hvalue, h⟩ := h
    obtain ⟨-, ty, hty, htype⟩ := (infers_and_checks hc hΓ value).1.value hvalue
    cases hm : root.mutability with
    | mutable =>
      simp only [hm, hty, ne_eq, hset, not_false_eq_true, if_true] at h
      by_cases hnumeric : root.ty.isNumeric = true
      · simp only [hnumeric, Bool.not_true, Bool.false_eq_true, if_false, clean_bind, clean_errorIf,
          bne_eq_false_iff_eq] at h
        exact .assign hplace hm (h.2 ▸ htype) (.inr ⟨hnumeric, by simpa using h.1⟩)
      · simp [hnumeric] at h
    | _ => simp [hm] at h

theorem checkReturn_clean (hc : c.WellFormed) {scopes : Scopes} (hΓ : scopes.WellFormed c.structs)
    {value : Option Expr} {span : Span} (hr : c.returnType.WellFormed c.structs)
    (h : (c.checkReturn scopes value span).Clean) :
    StmtTyped c scopes (.ret value span) scopes := by
  unfold checkReturn at h
  cases hret : c.returnType with
  | void =>
    cases value with
    | none => exact .ret hret
    | some value => simp [hret] at h
  | value expected =>
    cases value with
    | none => simp [hret] at h
    | some value =>
      simp only [hret] at h
      by_cases hliteral : value.isArrayLiteral = true
      · simp only [hliteral, if_true, clean_bind, clean_map] at h
        obtain ⟨hvalue, h⟩ := h
        obtain ⟨ty, hty, htype⟩ := requireValueAs_clean hc hΓ expected _ (hr _ hret) hvalue
        simp only [map_value, hty, Option.map_some, clean_errorIf, bne_eq_false_iff_eq] at h
        exact .retValue hret (h ▸ htype)
      · rw [if_neg hliteral] at h
        simp only [clean_bind] at h
        obtain ⟨hvalue, h⟩ := h
        obtain ⟨-, r, hr, htype⟩ := inferExpr_clean hc hΓ hvalue
        cases r with
        | void => simp [hr] at h
        | value ty =>
          simp only [hr, clean_errorIf, bne_eq_false_iff_eq] at h
          exact .retValue hret (h ▸ htype)

mutual

theorem checkStatement_clean (hc : c.WellFormed) (hr : c.returnType.WellFormed c.structs)
    {scopes : Scopes} (hΓ : scopes.WellFormed c.structs) :
    (statement : Stmt) → (∀ ty ∈ statement.types, ty.WellFormed c.structs) →
      (c.checkStatement scopes statement).Clean →
        StmtTyped c scopes statement (c.checkStatement scopes statement).value
  | .letVar name ty init span, hwf, h => by
    have hty := hwf ty (by simp [Stmt.types])
    simp only [checkStatement, clean_bind] at h ⊢
    exact .letVar hty ((requireValueAs_clean hc hΓ).typed hty h.2.1 h.2.2.1)
  | .assign target op value span, _, h => by
    simp only [checkStatement, clean_bind] at h ⊢
    exact checkAssign_clean hc hΓ h.1
  | .expr expression span, _, h => by
    simp only [checkStatement, clean_bind] at h ⊢
    obtain ⟨hnot, r, -, htype⟩ := inferExpr_clean hc hΓ h.1
    exact .expr hnot htype
  | .ifElse condition thenBlock none span, hwf, h => by
    simp only [Stmt.types, List.append_nil] at hwf
    simp only [checkStatement, clean_bind, bind_value] at h ⊢
    exact .ifElse (requireBool_clean hc hΓ h.1)
      (checkStatements_clean hc hr hΓ.push thenBlock hwf h.2.1) (by simp)
  | .ifElse condition thenBlock (some elseBlock) span, hwf, h => by
    simp only [Stmt.types, List.forall_mem_append] at hwf
    simp only [checkStatement, clean_bind, bind_value] at h ⊢
    refine .ifElse (requireBool_clean hc hΓ h.1)
      (checkStatements_clean hc hr hΓ.push thenBlock hwf.1 h.2.1) ?_
    rintro _ ⟨⟩
    exact checkStatements_clean hc hr hΓ.push elseBlock hwf.2 h.2.2.1
  | .whileLoop condition body span, hwf, h => by
    simp only [checkStatement, clean_bind, bind_value] at h ⊢
    exact .whileLoop (requireBool_clean hc hΓ h.1)
      (checkStatements_clean hc hr hΓ.push body hwf h.2.1)
  | .forLoop name nameSpan lower upper body span, hwf, h => by
    simp only [checkStatement, clean_bind, bind_value] at h ⊢
    refine .forLoop (checkBound_clean hc hΓ h.1) (checkBound_clean hc hΓ h.2.1)
      (checkStatements_clean hc hr (hΓ.cons fun {n b} hlookup => ?_) body hwf h.2.2.2.1)
    obtain ⟨-, rfl⟩ := HashMap.lookup_singleton.mp hlookup
    trivial
  | .ret value span, _, h => by
    simp only [checkStatement, clean_bind] at h ⊢
    exact checkReturn_clean hc hΓ hr h.1

theorem checkStatements_clean (hc : c.WellFormed) (hr : c.returnType.WellFormed c.structs)
    {scopes : Scopes} (hΓ : scopes.WellFormed c.structs) :
    (block : List Stmt) → (∀ ty ∈ blockTypes block, ty.WellFormed c.structs) →
      (c.checkStatements scopes block).Clean → BlockTyped c scopes block
  | [], _, _ => .nil
  | statement :: rest, hwf, h => by
    simp only [blockTypes, List.forall_mem_append] at hwf
    simp only [checkStatements, clean_bind] at h
    have hstatement := checkStatement_clean hc hr hΓ statement hwf.1 h.1
    exact .cons hstatement
      (checkStatements_clean hc hr (hstatement.wellFormed hΓ) rest hwf.2 h.2)

end

end FunctionChecker

end Checked

/-! ## Functions -/

/-- The scope of the parameters. -/
def paramScope (params : List Param) : HashMap Binding :=
  .ofList (params.map fun param => (param.name, ⟨param.ty, .mutable⟩))

/-- A function is typed : its body is, and it returns if it has a value to return. -/
structure FunctionTyped (c : FunctionChecker) (function : Function) : Prop where
  params : (function.params.map (·.name)).Nodup
  body : BlockTyped { c with returnType := function.returnType } [paramScope function.params]
    function.body
  returns : function.returnType ≠ .void → blockReturns function.body

theorem checkParams_clean {scope : HashMap Binding} {params : List Param}
    (h : (checkParams scope params).Clean) :
    (checkParams scope params).value =
        scope.extend (params.map fun param => (param.name, ⟨param.ty, .mutable⟩)) ∧
      (params.map (·.name)).Nodup ∧ ∀ param ∈ params, param.name ∉ scope := by
  induction params generalizing scope with
  | nil => exact ⟨rfl, List.nodup_nil, by simp⟩
  | cons param rest ih =>
    simp only [checkParams, Logged.clean_bind, Logged.clean_errorIf, decide_eq_false_iff_not] at h
    obtain ⟨-, hnew, hrest⟩ := h
    obtain ⟨hvalue, hnodup, hfresh⟩ := ih hrest
    refine ⟨hvalue, List.nodup_cons.mpr ⟨fun hmem => ?_, hnodup⟩,
      List.forall_mem_cons.mpr ⟨hnew, fun p hp hmem => ?_⟩⟩
    · obtain ⟨p, hp, heq⟩ := List.mem_map.mp hmem
      exact hfresh p hp ((AList.mem_insert _).mpr (.inl heq))
    · exact hfresh p hp ((AList.mem_insert _).mpr (.inr hmem))

theorem paramScope_wellFormed {structs : HashMap StructDecl} {params : List Param}
    (h : ∀ param ∈ params, param.ty.WellFormed structs) :
    Scopes.WellFormed structs [paramScope params] := by
  intro scope hscope name b hlookup
  obtain rfl := List.mem_singleton.mp hscope
  obtain ⟨param, hparam, heq⟩ := List.mem_map.mp (HashMap.mem_of_lookup_ofList hlookup)
  obtain ⟨-, rfl⟩ := Prod.mk.inj heq
  exact h param hparam

theorem checkFunction_clean [F32Primitives] {c : FunctionChecker} (hc : c.WellFormed)
    {function : Function} (hwf : ∀ ty ∈ function.types, ty.WellFormed c.structs)
    (h : (checkFunction c function).Clean) : FunctionTyped c function := by
  simp only [checkFunction, Logged.clean_bind, Logged.clean_errorIf] at h
  obtain ⟨hparams, hbody, hreturns⟩ := h
  obtain ⟨hscope, hnodup, -⟩ := checkParams_clean hparams
  simp only [Function.types, List.forall_mem_append] at hwf
  rw [hscope] at hbody
  have hparamTypes : ∀ param ∈ function.params, param.ty.WellFormed c.structs := fun param hparam =>
    hwf.1.1 _ (List.mem_map_of_mem hparam)
  refine ⟨hnodup, ?_, fun hvoid => ?_⟩
  · refine FunctionChecker.checkStatements_clean (c := { c with returnType := function.returnType })
      ⟨hc.globals, hc.constants, hc.fields, hc.fieldNames, hc.params, hc.returns⟩ ?_
      (paramScope_wellFormed hparamTypes) _ hwf.2 hbody
    intro ty hty
    have hty : function.returnType = .value ty := hty
    exact hwf.1.2 ty (by simp [hty, ReturnType.types])
  · cases hr : function.returnType with
    | void => exact absurd hr hvoid
    | value ty => simpa [hr, ReturnType.valueType] using hreturns

end Speck
