import Speck.Suspension

/-!
# The depth of constant values

`check_aggregate_depth` bounds the nesting of a struct or an array before it is built. Its
worklist accepts exactly the children of a value of depth at most 128 (`checkAggregateDepth_eq`),
so an evaluation of shallow references has only shallow operands and a shallow value
(`Evaluation.Shallow.resume`), and a literal with values for its elements is refused for its depth
exactly when it is deeper (`value_arrayLiteral`, `value_structLiteral`).
-/

set_option linter.unusedSectionVars false

namespace Speck

/-! ## Depth -/

namespace ConstantValue

mutual

/-- The nesting of structs and arrays in a value. -/
def depth : ConstantValue → ℕ
  | struct _ fields => fieldsDepth fields + 1
  | array _ elements => elementsDepth elements + 1
  | _ => 0

def elementsDepth : List ConstantValue → ℕ
  | [] => 0
  | value :: values => max value.depth (elementsDepth values)

def fieldsDepth : List (String × ConstantValue) → ℕ
  | [] => 0
  | (_, value) :: fields => max value.depth (fieldsDepth fields)

end

/-- A value that the evaluator may hold. -/
def Shallow (value : ConstantValue) : Prop := value.depth ≤ maxConstantAggregateDepth

theorem elementsDepth_le {values : List ConstantValue} {n : ℕ} :
    elementsDepth values ≤ n ↔ ∀ value ∈ values, value.depth ≤ n := by
  induction values with
  | nil => simp [elementsDepth]
  | cons value values ih => simp [elementsDepth, ih]

theorem fieldsDepth_eq (fields : List (String × ConstantValue)) :
    fieldsDepth fields = elementsDepth (fields.map (·.2)) := by
  induction fields with
  | nil => rfl
  | cons field fields ih => simp [fieldsDepth, elementsDepth, ih]

theorem depth_le_succ {value : ConstantValue} (h : value.isAggregate) {n : ℕ} :
    value.depth ≤ n + 1 ↔ ∀ child ∈ value.children, child.depth ≤ n := by
  cases value with
  | struct name fields =>
    simp only [depth, children, Nat.add_le_add_iff_right, fieldsDepth_eq, elementsDepth_le]
  | array element elements =>
    simp only [depth, children, Nat.add_le_add_iff_right, elementsDepth_le]
  | _ => cases h

theorem depth_pos {value : ConstantValue} (h : value.isAggregate) : 0 < value.depth := by
  cases value <;> first | exact Nat.succ_pos _ | cases h

theorem depth_eq_zero {value : ConstantValue} (h : ¬value.isAggregate) : value.depth = 0 := by
  cases value <;> first | rfl | exact absurd rfl h

theorem shallow_of_depth {value : ConstantValue} (h : value.depth = 0) : value.Shallow := by
  rw [Shallow, h]
  exact Nat.zero_le _

theorem shallow_iff {value : ConstantValue} (h : value.isAggregate) :
    value.Shallow ↔ ∀ child ∈ value.children, child.depth < maxConstantAggregateDepth := by
  have hle : value.Shallow ↔ value.depth ≤ 127 + 1 := .rfl
  rw [hle, depth_le_succ h]
  exact forall₂_congr fun _ _ => Nat.lt_succ_iff.symm

/-- A part of a shallow value is shallow. -/
theorem Shallow.child {value child : ConstantValue} (h : value.Shallow)
    (hchild : child ∈ value.children) : child.Shallow := by
  have hvalue : value.isAggregate := by
    cases value <;> first | rfl | cases hchild
  exact ((shallow_iff hvalue).mp h child hchild).le

end ConstantValue

def depthExceeded (span : Span) : Diagnostic :=
  ⟨s!"resolved constant aggregate nesting exceeds limit of {maxConstantAggregateDepth}", span⟩

/-- A value, or the refusal of its depth. -/
def withinDepth (value : ConstantValue) (span : Span) : Except Diagnostic ConstantValue :=
  if value.depth ≤ maxConstantAggregateDepth then .ok value else .error (depthExceeded span)

/-! ## The check -/

/-- The worklist refuses a value that would be nested too deeply, and only that. -/
theorem checkDepths_eq (span : Span) (pending : List (ConstantValue × ℕ))
    (h : ∀ p ∈ pending, p.2 ≤ maxConstantAggregateDepth) :
    checkDepths span pending =
      if ∀ p ∈ pending, p.1.depth + p.2 ≤ maxConstantAggregateDepth then .ok ()
      else .error (depthExceeded span) := by
  induction pending using checkDepths.induct with
  | case1 => simp [checkDepths]
  | case2 value pending haggregate =>
    rw [checkDepths, if_pos haggregate, if_pos rfl, if_neg]
    · rfl
    · intro hall
      have hdepth := hall _ List.mem_cons_self
      have hpos := ConstantValue.depth_pos haggregate
      dsimp only at hdepth
      omega
  | case3 value parentDepth pending haggregate hne ih =>
    obtain ⟨hparent, hpending⟩ := List.forall_mem_cons.mp h
    have hlt : parentDepth < maxConstantAggregateDepth := lt_of_le_of_ne hparent hne
    rw [checkDepths, if_pos haggregate, if_neg hne, ih]
    · refine if_congr ?_ rfl rfl
      have hdepth := ConstantValue.depth_le_succ haggregate
        (n := maxConstantAggregateDepth - (parentDepth + 1))
      have hsplit : (∀ child ∈ value.children,
          child.depth + (parentDepth + 1) ≤ maxConstantAggregateDepth) ↔
          value.depth + parentDepth ≤ maxConstantAggregateDepth := by
        rw [show value.depth + parentDepth ≤ maxConstantAggregateDepth ↔
          value.depth ≤ maxConstantAggregateDepth - (parentDepth + 1) + 1 by omega, hdepth]
        exact forall₂_congr fun _ _ => by omega
      rw [List.forall_mem_cons, ← hsplit]
      simp only [List.forall_mem_append, List.mem_reverse, List.forall_mem_map]
    · simp only [List.mem_append, List.mem_reverse, List.mem_map]
      rintro p (⟨child, -, rfl⟩ | hp)
      · exact hlt
      · exact hpending p hp
  | case4 value parentDepth pending haggregate ih =>
    obtain ⟨hparent, hpending⟩ := List.forall_mem_cons.mp h
    rw [checkDepths, if_neg haggregate, ih hpending]
    refine if_congr ?_ rfl rfl
    rw [List.forall_mem_cons, ConstantValue.depth_eq_zero haggregate]
    simp [hparent]

/-- The children of a value are accepted when the value is shallow. -/
theorem checkAggregateDepth_eq (children : List ConstantValue) (span : Span) :
    checkAggregateDepth children span =
      if ∀ child ∈ children, child.depth < maxConstantAggregateDepth then .ok ()
      else .error (depthExceeded span) := by
  rw [checkAggregateDepth, checkDepths_eq]
  · refine if_congr ?_ rfl rfl
    simp only [List.mem_reverse, List.forall_mem_map]
    exact .rfl
  · simp only [List.mem_reverse, List.forall_mem_map]
    exact fun _ _ => by decide

theorem forall_of_checkAggregateDepth {children : List ConstantValue} {span : Span}
    (h : checkAggregateDepth children span = .ok ()) :
    ∀ child ∈ children, child.depth < maxConstantAggregateDepth := by
  rw [checkAggregateDepth_eq] at h
  split at h
  · assumption
  · cases h

/-- The check of the children of a value, before it is built. -/
theorem checkAggregateDepth_within {value : ConstantValue} (h : value.isAggregate) (span : Span) :
    ((checkAggregateDepth value.children span).map fun _ => value) = withinDepth value span := by
  rw [checkAggregateDepth_eq, withinDepth]
  by_cases hdepth : value.depth ≤ maxConstantAggregateDepth
  · rw [if_pos ((ConstantValue.shallow_iff h).mp hdepth), if_pos hdepth]
    rfl
  · rw [if_neg (mt (ConstantValue.shallow_iff h).mpr hdepth), if_neg hdepth]
    rfl

/-! ## Operations -/

section

variable [F32Primitives]

omit [F32Primitives] in
theorem depth_of_checkedI32 {overflow : Bool} {value : I32} {result : ConstantValue}
    (h : checkedI32 overflow value = .ok result) : result.depth = 0 := by
  unfold checkedI32 at h
  split at h <;> cases h
  rfl

omit [F32Primitives] in
theorem depth_of_finiteF32 {value : F32} {result : ConstantValue}
    (h : finiteF32 value = .ok result) : result.depth = 0 := by
  unfold finiteF32 at h
  split at h <;> cases h
  rfl

theorem depth_of_evaluateBinary {left right result : ConstantValue} {op : BinaryOp}
    (h : evaluateBinary left op right = .ok result) : result.depth = 0 := by
  unfold evaluateBinary at h
  split at h
  · unfold evaluateI32 at h
    split at h
    case h_4 | h_5 =>
      split at h
      · cases h
      · exact depth_of_checkedI32 h
    all_goals first | exact depth_of_checkedI32 h | (cases h; rfl) | cases h
  · unfold evaluateF32 at h
    split at h
    case h_2 =>
      split at h
      · cases h
      · exact depth_of_finiteF32 h
    all_goals first | exact depth_of_finiteF32 h | (cases h; rfl) | cases h
  · unfold evaluateBool at h
    split at h <;> cases h <;> rfl
  · cases h

theorem depth_of_unaryValue {value result : ConstantValue} {op : UnaryOp}
    (h : unaryValue op value = .ok result) : result.depth = 0 := by
  unfold unaryValue at h
  split at h
  · exact depth_of_checkedI32 h
  · split at h <;> cases h
    rfl
  all_goals cases h
  rfl

theorem depth_of_convertConstant {target : ValueType} {value result : ConstantValue}
    (h : convertConstant target value = .ok result) : result.depth = 0 := by
  unfold convertConstant at h
  split at h <;> cases h <;> rfl

theorem withSpan_eq_ok {A : Type} {span : Span} {r : Except String A} {a : A} :
    withSpan span r = .ok a ↔ r = .ok a := by
  cases r <;> simp [withSpan]

theorem mem_children_of_indexValue {base index value : ConstantValue} {span : Span}
    (h : indexValue base index span = .ok value) : value ∈ base.children := by
  unfold indexValue at h
  split at h
  · split at h
    · next elements =>
      dsimp only at h
      split at h
      · next found hfound =>
        obtain rfl := Except.ok.inj h
        obtain ⟨-, hget⟩ := Option.ite_none_right_eq_some.mp hfound
        exact List.mem_of_getElem? hget
      · cases h
    · cases h
  · cases h

theorem mem_children_of_fieldValue {base value : ConstantValue} {name : String} {span : Span}
    (h : fieldValue base name span = .ok value) : value ∈ base.children := by
  unfold fieldValue at h
  split at h
  · next fields =>
    split at h
    · next found hfound =>
      obtain rfl := Except.ok.inj h
      obtain ⟨before, after, rfl, -⟩ := List.lookup_eq_some_iff.mp hfound
      simp [ConstantValue.children]
    · cases h
  · cases h

/-- The operands of a machine that were admitted. -/
def Evaluation.Shallow (ev : Evaluation) : Prop := ∀ value ∈ ev.values, value.Shallow

/-- The operands that an operation leaves are admitted : a part of one, a number or a Boolean, or
an aggregate that was checked. -/
theorem shallow_operate {task : Task} {values values' : List ConstantValue}
    (hshallow : ∀ value ∈ values, value.Shallow)
    (h : Evaluation.operate task values = .ok values') : ∀ value ∈ values', value.Shallow := by
  have hpush {value : ConstantValue} {rest : List ConstantValue} (hrest : rest <:+ values)
      (hvalue : value.Shallow) : ∀ v ∈ value :: rest, v.Shallow :=
    List.forall_mem_cons.mpr ⟨hvalue, fun v hv => hshallow v (hrest.subset hv)⟩
  unfold Evaluation.operate at h
  split at h
  · next element start span =>
    obtain ⟨⟨⟩, hcheck, rfl⟩ := map_ok_iff.mp h
    refine hpush (List.drop_suffix _ _) ((ConstantValue.shallow_iff rfl).mpr ?_)
    exact forall_of_checkAggregateDepth hcheck
  · next name fields start span =>
    obtain ⟨⟨⟩, hcheck, rfl⟩ := map_ok_iff.mp h
    refine hpush (List.drop_suffix _ _) ((ConstantValue.shallow_iff rfl).mpr fun child hchild => ?_)
    obtain ⟨field, hfield, rfl⟩ := List.mem_map.mp hchild
    exact forall_of_checkAggregateDepth hcheck _ (List.of_mem_zip hfield).2
  · next span index base rest =>
    obtain ⟨value, hvalue, rfl⟩ := map_ok_iff.mp h
    have hbase := hshallow base (by simp)
    exact hpush ⟨[index, base], rfl⟩ (hbase.child (mem_children_of_indexValue hvalue))
  · next name span base rest =>
    obtain ⟨value, hvalue, rfl⟩ := map_ok_iff.mp h
    have hbase := hshallow base (by simp)
    exact hpush ⟨[base], rfl⟩ (hbase.child (mem_children_of_fieldValue hvalue))
  · next op span operand rest =>
    obtain ⟨value, hvalue, rfl⟩ := map_ok_iff.mp h
    have hdepth := depth_of_unaryValue (withSpan_eq_ok.mp hvalue)
    exact hpush ⟨[operand], rfl⟩ (ConstantValue.shallow_of_depth hdepth)
  · next target span operand rest =>
    obtain ⟨value, hvalue, rfl⟩ := map_ok_iff.mp h
    have hdepth := depth_of_convertConstant (withSpan_eq_ok.mp hvalue)
    exact hpush ⟨[operand], rfl⟩ (ConstantValue.shallow_of_depth hdepth)
  · next op span right left rest =>
    obtain ⟨value, hvalue, rfl⟩ := map_ok_iff.mp h
    have hdepth := depth_of_evaluateBinary (withSpan_eq_ok.mp hvalue)
    exact hpush ⟨[right, left], rfl⟩ (ConstantValue.shallow_of_depth hdepth)
  · split at h
    · obtain rfl := Except.ok.inj h
      exact hshallow
    · cases h
  · cases h

/-- Expanding an expression pushes at most a number or a Boolean. -/
theorem Evaluation.Shallow.expand {structs : HashMap StructDecl} {e : Expr}
    {expected : Option ValueType} {ev ev' : Evaluation} (hshallow : ev.Shallow)
    (h : ev.expand structs e expected = .ok ev') : ev'.Shallow := by
  have hpush {value : ConstantValue} (tasks : List Task) (hvalue : value.depth = 0) :
      Evaluation.Shallow ⟨tasks, value :: ev.values⟩ :=
    List.forall_mem_cons.mpr ⟨ConstantValue.shallow_of_depth hvalue, hshallow⟩
  unfold Evaluation.expand at h
  split at h
  case h_1 | h_2 =>
    split at h <;> cases h
    exact hpush _ rfl
  case h_3 =>
    cases h
    exact hpush _ rfl
  case h_4 =>
    split at h
    · cases h
    · split at h <;> cases h
      exact hshallow
  case h_5 =>
    split at h
    · split at h
      · cases h
      · split at h
        · cases h
        · obtain ⟨children, -, rfl⟩ := map_ok_iff.mp h
          exact hshallow
    · cases h
  case h_10 =>
    split at h <;> cases h
    exact hshallow
  case h_11 =>
    split at h <;> cases h
    · exact hpush _ rfl
    · exact hshallow
  all_goals
    cases h
  all_goals exact hshallow

theorem shallow_branchLeft {op : BinaryOp} {right : Expr} {span : Span}
    {values values' : List ConstantValue} {tasks : List Task}
    (hshallow : ∀ value ∈ values, value.Shallow)
    (h : Evaluation.branchLeft op right span values = .ok (tasks, values')) :
    ∀ value ∈ values', value.Shallow := by
  unfold Evaluation.branchLeft at h
  split at h
  · split at h
    · split at h <;> cases h
      · exact hshallow
      · exact (List.forall_mem_cons.mp hshallow).2
    · cases h
    · cases h
  · cases h
    exact hshallow

/-! ## Machines -/

section Machine

variable {structs : HashMap StructDecl} {E : Type} [FromDiagnostic E]
  {lookup : String → Span → Except E ConstantValue}

/-- A step that does not complete leaves its operands. -/
theorem values_of_step_error {task : Task} {ev ev' : Evaluation} {error : E}
    (h : Evaluation.step structs lookup task ev = (ev', .error error)) : ev'.values = ev.values := by
  unfold Evaluation.step at h
  split at h <;> split at h <;> cases h <;> rfl

theorem Evaluation.Shallow.step {task : Task} {ev ev' : Evaluation} {result : Except E Unit}
    (hlookup : ∀ name span value, lookup name span = .ok value → value.Shallow)
    (hshallow : ev.Shallow) (h : Evaluation.step structs lookup task ev = (ev', result)) :
    ev'.Shallow := by
  cases result with
  | error error =>
    unfold Evaluation.Shallow
    rw [values_of_step_error h]
    exact hshallow
  | ok =>
    rcases step_ok h with ⟨name, span, expected, value, -, hvalue, rfl⟩ |
      ⟨e, expected, -, -, hexpand⟩ | ⟨op, right, span, tasks, values, -, hbranch, rfl⟩ |
      ⟨values, -, hoperate, rfl⟩
    · exact List.forall_mem_cons.mpr ⟨hlookup name span value hvalue, hshallow⟩
    · exact hshallow.expand hexpand
    · exact shallow_branchLeft hshallow hbranch
    · exact shallow_operate hshallow hoperate

/-- With shallow values for its references, a resume keeps every operand shallow and ends in a
shallow value. -/
theorem Evaluation.Shallow.resume {ev left : Evaluation} {result : Except E ConstantValue}
    (hlookup : ∀ name span value, lookup name span = .ok value → value.Shallow)
    (hshallow : ev.Shallow) (h : ev.resume structs lookup = (left, result)) :
    left.Shallow ∧ ∀ value, result = .ok value → value.Shallow := by
  induction ev using Evaluation.resume.induct structs lookup with
  | case1 ev ht value values hv =>
    obtain ⟨tasks, vs⟩ := ev
    obtain rfl : tasks = [] := ht
    obtain rfl : vs = value :: values := hv
    obtain ⟨rfl, rfl⟩ := Prod.mk.inj ((resume_done value values).symm.trans h)
    obtain ⟨hvalue, hvalues⟩ := List.forall_mem_cons.mp hshallow
    exact ⟨hvalues, fun v hv => Except.ok.inj hv ▸ hvalue⟩
  | case2 ev ht hv =>
    obtain ⟨tasks, vs⟩ := ev
    obtain rfl : tasks = [] := ht
    obtain rfl : vs = [] := hv
    obtain ⟨rfl, rfl⟩ := Prod.mk.inj (resume_unbalanced.symm.trans h)
    exact ⟨hshallow, by rintro _ ⟨⟩⟩
  | case3 ev task tasks ht ev' hs ih =>
    obtain ⟨ts, vs⟩ := ev
    obtain rfl : ts = task :: tasks := ht
    have hnext : Evaluation.Shallow ⟨tasks, vs⟩ := hshallow
    exact ih (hnext.step hlookup hs) ((resume_ok hs).symm.trans h)
  | case4 ev task tasks ht ev' error hs =>
    obtain ⟨ts, vs⟩ := ev
    obtain rfl : ts = task :: tasks := ht
    obtain ⟨rfl, rfl⟩ := Prod.mk.inj ((resume_error hs).symm.trans h)
    have hnext : Evaluation.Shallow ⟨tasks, vs⟩ := hshallow
    exact ⟨hnext.step hlookup hs, by rintro _ ⟨⟩⟩

omit [F32Primitives] in
theorem shallow_new (e : Expr) (expected : Option ValueType) :
    (Evaluation.new e expected).Shallow := by
  rintro value ⟨⟩

end Machine

/-! ## Literals -/

section Literal

variable {structs : HashMap StructDecl} {env : Environment}

/-- An array literal whose elements have values is built, or refused for its depth. -/
theorem value_arrayLiteral {elements : List Expr} {span : Span} {element : ValueType}
    {values : List ConstantValue}
    (hvalues : elementValues structs env elements (some element) = .ok values) :
    (Expr.arrayLiteral elements span).value structs env
        (some (.array element (.resolved elements.length))) =
      withinDepth (.array element values) span := by
  have hchildren : (ConstantValue.array element values).children = values := rfl
  simp only [Expr.value, Option.bind_some, ValueType.resolvedArray, hvalues, ne_eq,
    not_true_eq_false, if_false, ok_bind]
  refine Eq.trans ?_ (checkAggregateDepth_within rfl span)
  rw [hchildren]
  cases checkAggregateDepth values span <;> rfl

theorem initializers_of_fieldValues {fields : List (FieldInitializer Expr)} {name : String}
    {span : Span} {declared : List StructField} {values : List ConstantValue}
    (h : fieldValues (initializerValues structs env fields) name span declared = .ok values) :
    (declared.find? fun field => (initializerOf fields field.name).isNone) = none ∧
      values.length = declared.length := by
  induction declared generalizing values with
  | nil =>
    obtain rfl := Except.ok.inj h
    exact ⟨rfl, rfl⟩
  | cons field rest ih =>
    rw [fieldValues, lookup_initializerValues] at h
    cases hfield : initializerOf fields field.name with
    | none =>
      rw [hfield] at h
      cases h
    | some initializer =>
      rw [hfield] at h
      obtain ⟨value, -, h⟩ := bind_ok_iff.mp h
      obtain ⟨others, hothers, h⟩ := bind_ok_iff.mp h
      obtain rfl := Except.ok.inj h
      obtain ⟨hnone, hlength⟩ := ih hothers
      refine ⟨?_, congrArg (· + 1) hlength⟩
      rw [List.find?_cons, hfield]
      exact hnone

/-- A struct literal whose fields have values is built, or refused for its depth. -/
theorem value_structLiteral {name : String} {fields : List (FieldInitializer Expr)} {span : Span}
    {declaration : StructDecl} {values : List ConstantValue}
    (hdeclaration : structs.lookup name = some declaration)
    (hvalues : fieldValues (initializerValues structs env fields) name span declaration.fields =
      .ok values) :
    (Expr.structLiteral name fields span).value structs env (some (.struct name)) =
      withinDepth (.struct name ((declaration.fields.map (·.name)).zip values)) span := by
  obtain ⟨hnone, hlength⟩ := initializers_of_fieldValues hvalues
  have hchildren : (ConstantValue.struct name
      ((declaration.fields.map (·.name)).zip values)).children = values :=
    List.map_snd_zip (by rw [hlength, List.length_map])
  simp only [Expr.value, ne_eq, not_true_eq_false, if_false, hdeclaration, hnone, hvalues, ok_bind]
  refine Eq.trans ?_ (checkAggregateDepth_within rfl span)
  rw [hchildren]
  cases checkAggregateDepth values span <;> rfl

end Literal

end

end Speck
