import Speck.DirectEvaluation

/-!
# Suspended evaluations

An `Evaluation` is resumed with lookups that refuse some references with a dependency, and at
last with one that refuses none. Whatever the lookups refuse, it ends in the direct evaluation in
the environment (`resumeAll_eq_value`), and the tasks that all its resumes complete are those of one
resume in the environment : nothing is evaluated again, and each reference is looked up once.
The operands stay balanced with any values for the references (`Reached.balanced`).
-/

set_option linter.unusedSectionVars false

namespace Speck

open Demand

/-! ## Balance -/

namespace Task

/-- The operands that a task pops, or that have to be there for the ones that it splits off. -/
def pops : Task → ℕ
  | .expression _ _ | .booleanRight _ _ => 0
  | .array _ start _ | .struct _ _ start _ => start
  | .index _ | .binaryFinish _ _ => 2
  | .field _ _ | .unary _ _ | .conversion _ _ => 1
  | .binaryLeft op _ _ => if op.isLogical then 1 else 0

/-- The number of operands after a task and the tasks it leaves. -/
def height : Task → ℕ → Option ℕ
  | .expression _ _, n => some (n + 1)
  | .array _ start _, n | .struct _ _ start _, n => if start ≤ n then some (start + 1) else none
  | .index _, n | .binaryFinish _ _, n => if 2 ≤ n then some (n - 1) else none
  | .field _ _, n | .unary _ _, n | .conversion _ _, n | .booleanRight _ _, n
  | .binaryLeft _ _ _, n => if 1 ≤ n then some n else none

/-- The reference that a task is. -/
def reference : Task → Option (String × Span)
  | .expression (.var name span) _ => some (name, span)
  | _ => none

end Task

/-- The number of operands after some tasks. -/
def heights : List Task → ℕ → Option ℕ
  | [], n => some n
  | task :: tasks, n => (task.height n).bind (heights tasks)

/-- The tasks that are left find their operands, and leave one value. -/
def Evaluation.Balanced (ev : Evaluation) : Prop := heights ev.tasks ev.values.length = some 1

/-- The next task finds its operands, or one value is left at the end. -/
def Evaluation.Poised (ev : Evaluation) : Prop :=
  match ev.tasks with
  | [] => ev.values.length = 1
  | task :: _ => task.pops ≤ ev.values.length

theorem Task.pops_le {task : Task} {n m : ℕ} (h : task.height n = some m) : task.pops ≤ n := by
  cases task <;> simp only [height, Option.ite_none_right_eq_some] at h <;>
    simp only [pops] <;> first | omega | (split <;> omega)

theorem Evaluation.Balanced.poised {ev : Evaluation} (h : ev.Balanced) : ev.Poised := by
  obtain ⟨tasks, values⟩ := ev
  cases tasks with
  | nil => exact Option.some.inj h
  | cons task tasks =>
    obtain ⟨n, hn, -⟩ := Option.bind_eq_some_iff.mp h
    exact Task.pops_le hn

theorem heights_elements (elements : List Expr) (expected : Option ValueType) (tasks : List Task)
    (n : ℕ) : heights (elements.map (Task.expression · expected) ++ tasks) n =
      heights tasks (n + elements.length) := by
  induction elements generalizing n with
  | nil => rfl
  | cons e rest ih =>
    rw [List.map_cons, List.cons_append, heights, Task.height, Option.bind_some, ih,
      List.length_cons, Nat.add_right_comm, Nat.add_assoc]

theorem heights_structChildren {name : String} {fields : List (FieldInitializer Expr)} {span : Span}
    {declared : List StructField} {children : List Task}
    (h : structChildren name fields span declared = .ok children) (tasks : List Task) (n : ℕ) :
    heights (children ++ tasks) n = heights tasks (n + declared.length) := by
  induction declared generalizing children n with
  | nil =>
    obtain rfl := Except.ok.inj h
    rfl
  | cons field rest ih =>
    rw [structChildren] at h
    split at h
    · cases h
    · cases hrest : structChildren name fields span rest with
      | error d =>
        rw [hrest] at h
        cases h
      | ok others =>
        rw [hrest] at h
        obtain rfl := Except.ok.inj h
        rw [List.cons_append, heights, Task.height, Option.bind_some, ih hrest, List.length_cons,
          Nat.add_right_comm, Nat.add_assoc]

theorem heights_array (element : ValueType) (start count : ℕ) (span : Span) (tasks : List Task) :
    heights (.array element start span :: tasks) (start + count) = heights tasks (start + 1) := by
  rw [heights, Task.height, if_pos (Nat.le_add_right _ _), Option.bind_some]

theorem heights_struct (name : String) (fields : List String) (start count : ℕ) (span : Span)
    (tasks : List Task) : heights (.struct name fields start span :: tasks) (start + count) =
      heights tasks (start + 1) := by
  rw [heights, Task.height, if_pos (Nat.le_add_right _ _), Option.bind_some]

/-- An expanded expression leaves one value. -/
theorem heights_expand {structs : HashMap StructDecl} {e : Expr} {expected : Option ValueType}
    {ev ev' : Evaluation} (h : ev.expand structs e expected = .ok ev') :
    heights ev'.tasks ev'.values.length = heights ev.tasks (ev.values.length + 1) := by
  cases e with
  | i32 value span | f32 value span =>
    rw [Evaluation.expand] at h
    split at h
    · obtain rfl := Except.ok.inj h
      rfl
    · cases h
  | bool value span =>
    obtain rfl := Except.ok.inj h
    rfl
  | arrayLiteral elements span =>
    rw [Evaluation.expand] at h
    split at h
    · cases h
    · split at h
      · cases h
      · obtain rfl := Except.ok.inj h
        rw [heights_elements, heights_array]
  | structLiteral name fields span =>
    rcases expected with _ | ty
    · cases h
    cases ty
    case struct expectedName =>
      rw [Evaluation.expand] at h
      split at h
      · cases h
      split at h
      · cases h
      next declaration hdeclaration =>
      cases hchildren : structChildren name fields span declaration.fields with
      | error d =>
        rw [hchildren] at h
        cases h
      | ok children =>
        rw [hchildren] at h
        obtain rfl := Except.ok.inj h
        dsimp only
        rw [heights_structChildren hchildren, heights_struct]
    all_goals cases h
  | var name span => cases h
  | index base index span =>
    obtain rfl := Except.ok.inj h
    simp [heights, Task.height]
  | field base name nameSpan span =>
    obtain rfl := Except.ok.inj h
    simp [heights, Task.height]
  | unary op operand span =>
    rw [Evaluation.expand] at h
    split at h
    · obtain rfl := Except.ok.inj h
      rfl
    · obtain rfl := Except.ok.inj h
      simp [heights, Task.height]
  | binary left op right span =>
    obtain rfl := Except.ok.inj h
    simp [heights, Task.height]
  | call name args span => cases h
  | conversion target args span =>
    rcases args with _ | ⟨arg, _ | ⟨second, rest⟩⟩
    · cases h
    · obtain rfl := Except.ok.inj h
      simp [heights, Task.height]
    · cases h

theorem heights_branchLeft {op : BinaryOp} {right : Expr} {span : Span}
    {values values' : List ConstantValue} {tasks : List Task} (hvalues : 1 ≤ values.length)
    (h : Evaluation.branchLeft op right span values = .ok (tasks, values')) (rest : List Task) :
    heights (tasks ++ rest) values'.length = heights rest values.length := by
  unfold Evaluation.branchLeft at h
  by_cases hop : op.isLogical = true
  · rw [if_pos hop] at h
    split at h
    · split at h
      · obtain ⟨rfl, rfl⟩ := Prod.mk.inj (Except.ok.inj h)
        rfl
      · obtain ⟨rfl, rfl⟩ := Prod.mk.inj (Except.ok.inj h)
        simp [heights, Task.height]
    · cases h
    · cases h
  · rw [if_neg hop] at h
    obtain ⟨rfl, rfl⟩ := Prod.mk.inj (Except.ok.inj h)
    simp [heights, Task.height, hvalues]

theorem map_ok_iff {ε α β : Type} {r : Except ε α} {f : α → β} {b : β} :
    r.map f = .ok b ↔ ∃ a, r = .ok a ∧ f a = b := by
  cases r <;> simp [Except.map]

/-- An operation leaves as many operands as its height says. -/
theorem height_operate [F32Primitives] {task : Task} {values values' : List ConstantValue} {n : ℕ}
    (h : Evaluation.operate task values = .ok values') (hn : task.height values.length = some n) :
    values'.length = n := by
  unfold Evaluation.operate at h
  split at h
  · obtain ⟨-, -, rfl⟩ := map_ok_iff.mp h
    simp only [Task.height, Option.ite_none_right_eq_some, Option.some.injEq, List.length_cons,
      List.length_drop] at hn ⊢
    omega
  · obtain ⟨-, -, rfl⟩ := map_ok_iff.mp h
    simp only [Task.height, Option.ite_none_right_eq_some, Option.some.injEq, List.length_cons,
      List.length_drop] at hn ⊢
    omega
  · obtain ⟨value, -, rfl⟩ := map_ok_iff.mp h
    simp only [Task.height, Option.ite_none_right_eq_some, Option.some.injEq, List.length_cons]
      at hn ⊢
    omega
  · obtain ⟨value, -, rfl⟩ := map_ok_iff.mp h
    simp only [Task.height, Option.ite_none_right_eq_some, Option.some.injEq, List.length_cons]
      at hn ⊢
    omega
  · obtain ⟨value, -, rfl⟩ := map_ok_iff.mp h
    simp only [Task.height, Option.ite_none_right_eq_some, Option.some.injEq, List.length_cons]
      at hn ⊢
    omega
  · obtain ⟨value, -, rfl⟩ := map_ok_iff.mp h
    simp only [Task.height, Option.ite_none_right_eq_some, Option.some.injEq, List.length_cons]
      at hn ⊢
    omega
  · obtain ⟨value, -, rfl⟩ := map_ok_iff.mp h
    simp only [Task.height, Option.ite_none_right_eq_some, Option.some.injEq, List.length_cons]
      at hn ⊢
    omega
  · split at h
    · obtain rfl := Except.ok.inj h
      simp only [Task.height, Option.ite_none_right_eq_some, Option.some.injEq] at hn
      omega
    · cases h
  · cases h

/-! ## Steps -/

section

variable [F32Primitives] {structs : HashMap StructDecl} {E : Type} [FromDiagnostic E]
  {lookup : String → Span → Except E ConstantValue}

/-- What a completed step does. -/
theorem step_ok {task : Task} {ev ev' : Evaluation}
    (h : Evaluation.step structs lookup task ev = (ev', .ok ())) :
    (∃ name span expected value, task = .expression (.var name span) expected ∧
      lookup name span = .ok value ∧ ev' = ⟨ev.tasks, value :: ev.values⟩) ∨
    (∃ e expected, task = .expression e expected ∧ ¬e.isVar ∧
      ev.expand structs e expected = .ok ev') ∨
    (∃ op right span tasks values, task = .binaryLeft op right span ∧
      Evaluation.branchLeft op right span ev.values = .ok (tasks, values) ∧
      ev' = ⟨tasks ++ ev.tasks, values⟩) ∨
    (∃ values, task.isOperator ∧ Evaluation.operate task ev.values = .ok values ∧
      ev' = ⟨ev.tasks, values⟩) := by
  cases task with
  | expression e expected =>
    by_cases hvar : e.isVar = true
    · cases e <;> simp only [Expr.isVar, Bool.false_eq_true] at hvar
      next name span =>
      simp only [Evaluation.step] at h
      split at h
      · next value hvalue =>
        obtain ⟨rfl, -⟩ := Prod.mk.inj h
        exact .inl ⟨name, span, expected, value, rfl, hvalue, rfl⟩
      · cases (Prod.mk.inj h).2
    · rw [step_expression hvar] at h
      split at h
      · next next hexpand =>
        obtain ⟨rfl, -⟩ := Prod.mk.inj h
        exact .inr (.inl ⟨e, expected, rfl, hvar, hexpand⟩)
      · cases (Prod.mk.inj h).2
  | binaryLeft op right span =>
    simp only [Evaluation.step] at h
    split at h
    · next tasks values hbranch =>
      obtain ⟨rfl, -⟩ := Prod.mk.inj h
      exact .inr (.inr (.inl ⟨op, right, span, tasks, values, rfl, hbranch, rfl⟩))
    · cases (Prod.mk.inj h).2
  | _ =>
    simp only [Evaluation.step] at h
    split at h
    · next values hoperate =>
      obtain ⟨rfl, -⟩ := Prod.mk.inj h
      exact .inr (.inr (.inr ⟨values, rfl, hoperate, rfl⟩))
    · cases (Prod.mk.inj h).2

/-- A completed step keeps the balance. -/
theorem Evaluation.Balanced.step {task : Task} {tasks : List Task} {values : List ConstantValue}
    {ev' : Evaluation} (hbalanced : Balanced ⟨task :: tasks, values⟩)
    (h : Evaluation.step structs lookup task ⟨tasks, values⟩ = (ev', .ok ())) : ev'.Balanced := by
  obtain ⟨n, hn, hrest⟩ := Option.bind_eq_some_iff.mp hbalanced
  rcases step_ok h with ⟨name, span, expected, value, rfl, -, rfl⟩ | ⟨e, expected, rfl, -, hexpand⟩ |
    ⟨op, right, span, more, rest, rfl, hbranch, rfl⟩ | ⟨rest, -, hoperate, rfl⟩
  · obtain rfl := Option.some.inj hn
    exact hrest
  · obtain rfl := Option.some.inj hn
    exact (heights_expand hexpand).trans hrest
  · obtain ⟨hone, heq⟩ := Option.ite_none_right_eq_some.mp hn
    obtain rfl := Option.some.inj heq
    exact (heights_branchLeft hone hbranch tasks).trans hrest
  · have hlength := height_operate hoperate hn
    change heights tasks rest.length = some 1
    rw [hlength]
    exact hrest

/-- A completed step leaves the same computation, after the answer to its reference. -/
theorem step_demand_eq {task : Task} {ev ev' : Evaluation}
    (h : Evaluation.step structs lookup task ev = (ev', .ok ())) :
    match task.reference with
    | none => Evaluation.demand structs ⟨task :: ev.tasks, ev.values⟩ = ev'.demand structs
    | some (name, span) => ∃ value k, lookup name span = .ok value ∧
        Evaluation.demand structs ⟨task :: ev.tasks, ev.values⟩ = ask name span k ∧
        k value = ev'.demand structs := by
  rcases step_ok h with ⟨name, span, expected, value, rfl, hlookup, rfl⟩ |
    ⟨e, expected, rfl, hvar, hexpand⟩ | ⟨op, right, span, tasks, values, rfl, hbranch, rfl⟩ |
    ⟨values, htask, hoperate, rfl⟩
  · refine ⟨value, fun value => Evaluation.demand structs ⟨ev.tasks, value :: ev.values⟩, hlookup,
      ?_, rfl⟩
    simp [Evaluation.demand, tasksDemand, Task.demand, Expr.demand]
  · have hdemand := expand_demand structs hvar expected ev
    rw [hexpand] at hdemand
    have hnone : (Task.expression e expected).reference = none := by
      cases e <;> first | rfl | simp [Expr.isVar] at hvar
    rw [hnone]
    simp only [Evaluation.demand, hdemand]
  · change Evaluation.demand structs _ = _
    rcases branchLeft_tasks hbranch with rfl | rfl
    · simp [Evaluation.demand, tasksDemand, Task.demand, hbranch]
    · simp only [Evaluation.demand, tasksDemand, Task.demand, hbranch, Demand.bind_assoc,
        pure_eq, done_bind, List.cons_append, List.nil_append]
      by_cases hop : op.isLogical = true <;> simp [hop]
  · have hdemand : task.demand structs ev.values = ofExcept (.ok values) := by
      rw [← hoperate]
      cases task <;> first | rfl | simp [Task.isOperator] at htask
    have hnone : task.reference = none := by
      cases task <;> first | rfl | simp [Task.isOperator] at htask
    rw [hnone]
    simp [Evaluation.demand, tasksDemand, hdemand]

/-- A step fails at a reference that is refused, or before any other reference is asked for. -/
theorem step_error_demand {task : Task} {ev ev' : Evaluation} {error : E}
    (h : Evaluation.step structs lookup task ev = (ev', .error error)) :
    (∃ name span k, Evaluation.demand structs ⟨task :: ev.tasks, ev.values⟩ = ask name span k ∧
      lookup name span = .error error) ∨
    ∃ d, Evaluation.demand structs ⟨task :: ev.tasks, ev.values⟩ = fail d := by
  have hfail (d : Diagnostic) (hd : task.demand structs ev.values = fail d) :
      Evaluation.demand structs ⟨task :: ev.tasks, ev.values⟩ = fail d := by
    simp [Evaluation.demand, tasksDemand, hd]
  cases task with
  | expression e expected =>
    by_cases hvar : e.isVar = true
    · cases e <;> simp only [Expr.isVar, Bool.false_eq_true] at hvar
      next name span =>
      simp only [Evaluation.step] at h
      split at h
      · cases (Prod.mk.inj h).2
      · next refusal hlookup =>
        obtain rfl := Except.error.inj (Prod.mk.inj h).2
        refine .inl ⟨name, span, fun value => Evaluation.demand structs
          ⟨ev.tasks, value :: ev.values⟩, ?_, hlookup⟩
        simp [Evaluation.demand, tasksDemand, Task.demand, Expr.demand]
    · have hdemand := expand_demand structs hvar expected ev
      rw [step_expression hvar] at h
      split at h
      · cases (Prod.mk.inj h).2
      · next d hexpand =>
        rw [hexpand] at hdemand
        exact .inr ⟨d, hfail d (by simp [Task.demand, hdemand])⟩
  | binaryLeft op right span =>
    simp only [Evaluation.step] at h
    split at h
    · cases (Prod.mk.inj h).2
    · next d hbranch => exact .inr ⟨d, hfail d (by simp [Task.demand, hbranch])⟩
  | _ =>
    simp only [Evaluation.step] at h
    split at h
    · cases (Prod.mk.inj h).2
    · next d hoperate => exact .inr ⟨d, hfail d (by simp [Task.demand, hoperate])⟩

end

/-! ## Runs -/

section

variable [F32Primitives] (structs : HashMap StructDecl)

/-- The states of the evaluation of an expression, with any answers to its references. -/
inductive Evaluation.Reached (e : Expr) (expected : Option ValueType) : Evaluation → Prop
  | start : Reached e expected (.new e expected)
  | step {lookup : String → Span → Except EvaluationError ConstantValue} {task : Task}
      {tasks : List Task} {values : List ConstantValue} {ev : Evaluation}
      (h : Reached e expected ⟨task :: tasks, values⟩)
      (hstep : Evaluation.step structs lookup task ⟨tasks, values⟩ = (ev, .ok ())) :
      Reached e expected ev

/-- The tasks that a resume completes. A reference that is refused is not completed. -/
def Evaluation.completed {E : Type} [FromDiagnostic E]
    (lookup : String → Span → Except E ConstantValue) (ev : Evaluation) : List Task :=
  match _ht : ev.tasks with
  | [] => []
  | task :: tasks =>
    match _hs : step structs lookup task ⟨tasks, ev.values⟩ with
    | (ev', .ok ()) => task :: completed lookup ev'
    | (_, .error _) => []
termination_by taskWeights structs ev.tasks
decreasing_by
  have := taskWeights_step _hs
  simpa [_ht] using this

/-- A lookup in the environment that withholds some references, each for a dependency. -/
def supply (env : Environment) (withheld : String → Span → Option (String × Span))
    (name : String) (span : Span) : Except EvaluationError ConstantValue :=
  match withheld name span with
  | some (missing, usage) => .error (.dependency missing usage)
  | none =>
    match env name span with
    | .ok value => .ok value
    | .error d => .error (.diagnostic d)

/-- What some resumes made of an evaluation : what is left, the result if it has ended, and the
tasks that were completed. -/
structure Resumption where
  left : Evaluation
  result : Option (Except Diagnostic ConstantValue)
  completed : List Task

/-- Resume an evaluation until it ends, each time with other references withheld. -/
def Evaluation.resumeAll (env : Environment) :
    List (String → Span → Option (String × Span)) → Evaluation → Resumption
  | [], ev => ⟨ev, none, []⟩
  | withheld :: schedule, ev =>
    match ev.resume structs (supply env withheld) with
    | (ev', .ok value) => ⟨ev', some (.ok value), ev.completed structs (supply env withheld)⟩
    | (ev', .error (.diagnostic d)) =>
      ⟨ev', some (.error d), ev.completed structs (supply env withheld)⟩
    | (ev', .error (.dependency _ _)) =>
      let rest := resumeAll env schedule ev'
      { rest with completed := ev.completed structs (supply env withheld) ++ rest.completed }

/-- The references that a computation is answered. -/
def asked {A : Type} (env : Environment) : ConstantDemand A → List (String × Span)
  | done _ | fail _ => []
  | ask name span k =>
    match env name span with
    | .ok value => (name, span) :: asked env (k value)
    | .error _ => []

end

section

variable [F32Primitives] {structs : HashMap StructDecl} {e : Expr} {expected : Option ValueType}

theorem balanced_new (e : Expr) (expected : Option ValueType) :
    (Evaluation.new e expected).Balanced := rfl

/-- The operands stay balanced, whatever the values that the references are given. -/
theorem Evaluation.Reached.balanced {ev : Evaluation} (h : Reached structs e expected ev) :
    ev.Balanced := by
  induction h with
  | start => exact balanced_new e expected
  | step h hstep ih => exact ih.step hstep

section Resume

variable {E : Type} [FromDiagnostic E] {lookup : String → Span → Except E ConstantValue}

theorem completed_nil (values : List ConstantValue) :
    Evaluation.completed structs lookup ⟨[], values⟩ = [] := by
  rw [Evaluation.completed]

theorem completed_ok {task : Task} {tasks : List Task} {values : List ConstantValue}
    {ev' : Evaluation} (h : Evaluation.step structs lookup task ⟨tasks, values⟩ = (ev', .ok ())) :
    Evaluation.completed structs lookup ⟨task :: tasks, values⟩ =
      task :: ev'.completed structs lookup := by
  rw [Evaluation.completed]
  split
  · next ht => cases ht
  · next ht =>
    obtain ⟨rfl, rfl⟩ := List.cons.inj ht
    split
    · next hs =>
      obtain ⟨rfl, -⟩ := Prod.mk.inj (h.symm.trans hs)
      rfl
    · next hs => cases (Prod.mk.inj (h.symm.trans hs)).2

theorem completed_error {task : Task} {tasks : List Task} {values : List ConstantValue}
    {ev' : Evaluation} {error : E}
    (h : Evaluation.step structs lookup task ⟨tasks, values⟩ = (ev', .error error)) :
    Evaluation.completed structs lookup ⟨task :: tasks, values⟩ = [] := by
  rw [Evaluation.completed]
  split
  · next ht => cases ht
  · next ht =>
    obtain ⟨rfl, rfl⟩ := List.cons.inj ht
    split
    · next hs => cases (Prod.mk.inj (h.symm.trans hs)).2
    · rfl

end Resume

/-! ## Withheld references -/

variable {env : Environment} {withheld : String → Span → Option (String × Span)}

variable (structs env withheld) in
/-- A step that is refused puts its task back, and any other is the step in the environment. -/
theorem step_supply (task : Task) (ev : Evaluation) :
    match Evaluation.step structs (supply env withheld) task ev with
    | (ev', .ok ()) => Evaluation.step structs env task ev = (ev', .ok ())
    | (ev', .error (.diagnostic d)) => Evaluation.step structs env task ev = (ev', .error d)
    | (ev', .error (.dependency _ _)) => ev' = ⟨task :: ev.tasks, ev.values⟩ := by
  cases task with
  | expression e expected =>
    by_cases hvar : e.isVar = true
    · cases e <;> simp only [Expr.isVar, Bool.false_eq_true] at hvar
      next name span =>
      simp only [Evaluation.step, supply]
      cases withheld name span with
      | some usage => rfl
      | none => cases env name span <;> rfl
    · rw [step_expression hvar, step_expression hvar]
      cases ev.expand structs e expected <;> rfl
  | binaryLeft op right span =>
    simp only [Evaluation.step]
    cases Evaluation.branchLeft op right span ev.values <;> rfl
  | _ =>
    simp only [Evaluation.step]
    cases Evaluation.operate _ ev.values <;> rfl

variable (structs) in
/-- A resume that ends is the resume in the environment, and one that is refused leaves what that
resume still has to do. -/
theorem resume_supply (env : Environment) (withheld : String → Span → Option (String × Span))
    (ev : Evaluation) :
    match ev.resume structs (supply env withheld) with
    | (ev', .ok value) => ev.resume structs env = (ev', .ok value) ∧
      ev.completed structs (supply env withheld) = ev.completed structs env
    | (ev', .error (.diagnostic d)) => ev.resume structs env = (ev', .error d) ∧
      ev.completed structs (supply env withheld) = ev.completed structs env
    | (ev', .error (.dependency _ _)) => ev'.resume structs env = ev.resume structs env ∧
      ev.completed structs (supply env withheld) ++ ev'.completed structs env =
        ev.completed structs env := by
  induction ev using Evaluation.resume.induct structs (supply env withheld) with
  | case1 ev ht value values hv =>
    obtain ⟨tasks, vs⟩ := ev
    obtain rfl : tasks = [] := ht
    obtain rfl : vs = value :: values := hv
    simp [resume_done, completed_nil]
  | case2 ev ht hv =>
    obtain ⟨tasks, vs⟩ := ev
    obtain rfl : tasks = [] := ht
    obtain rfl : vs = [] := hv
    rw [resume_unbalanced, resume_unbalanced, completed_nil, completed_nil]
    exact ⟨rfl, rfl⟩
  | case3 ev task tasks ht ev' hs ih =>
    obtain ⟨ts, vs⟩ := ev
    obtain rfl : ts = task :: tasks := ht
    have hstep := step_supply structs env withheld task ⟨tasks, vs⟩
    rw [hs] at hstep
    rw [resume_ok hs, resume_ok hstep, completed_ok hs, completed_ok hstep]
    revert ih
    rcases ev'.resume structs (supply env withheld) with ⟨left, (d | ⟨missing, usage⟩) | value⟩
    · rintro ⟨hresume, hcompleted⟩
      exact ⟨hresume, congrArg _ hcompleted⟩
    · rintro ⟨hresume, hcompleted⟩
      exact ⟨hresume, congrArg _ hcompleted⟩
    · rintro ⟨hresume, hcompleted⟩
      exact ⟨hresume, congrArg _ hcompleted⟩
  | case4 ev task tasks ht ev' error hs =>
    obtain ⟨ts, vs⟩ := ev
    obtain rfl : ts = task :: tasks := ht
    have hstep := step_supply structs env withheld task ⟨tasks, vs⟩
    rw [hs] at hstep
    rw [resume_error hs, completed_error hs]
    cases error with
    | diagnostic d =>
      rw [resume_error hstep, completed_error hstep]
      exact ⟨rfl, rfl⟩
    | dependency missing usage =>
      obtain rfl : ev' = ⟨task :: tasks, vs⟩ := hstep
      exact ⟨rfl, rfl⟩

variable (structs) in
/-- However often references are withheld, the resumes do what one resume in the environment
does, or leave what that resume still has to do. -/
theorem resumeAll_resume (env : Environment)
    (schedule : List (String → Span → Option (String × Span))) (ev : Evaluation) :
    match ev.resumeAll structs env schedule with
    | ⟨left, some result, completed⟩ => ev.resume structs env = (left, result) ∧
      completed = ev.completed structs env
    | ⟨left, none, completed⟩ => left.resume structs env = ev.resume structs env ∧
      completed ++ left.completed structs env = ev.completed structs env := by
  induction schedule generalizing ev with
  | nil => exact ⟨rfl, rfl⟩
  | cons withheld schedule ih =>
    have hresume := resume_supply structs env withheld ev
    rw [Evaluation.resumeAll]
    revert hresume
    rcases ev.resume structs (supply env withheld) with ⟨left, (d | ⟨missing, usage⟩) | value⟩
    · exact id
    · rintro ⟨hresume, hcompleted⟩
      have hrest := ih left
      dsimp only
      revert hrest
      rcases left.resumeAll structs env schedule with ⟨last, result | result, completed⟩
      · rintro ⟨hlast, hlater⟩
        refine ⟨hlast.trans hresume, ?_⟩
        rw [List.append_assoc, hlater, hcompleted]
      · rintro ⟨hlast, rfl⟩
        exact ⟨hresume.symm.trans hlast, hcompleted⟩
    · exact id

/-- A balanced evaluation that ends in a value leaves no task and no other value. -/
theorem resume_balanced {ev left : Evaluation} {value : ConstantValue} (hbalanced : ev.Balanced)
    (h : ev.resume structs env = (left, .ok value)) : left = ⟨[], []⟩ := by
  induction ev using Evaluation.resume.induct structs env with
  | case1 ev ht value values hv =>
    obtain ⟨tasks, vs⟩ := ev
    obtain rfl : tasks = [] := ht
    obtain rfl : vs = value :: values := hv
    obtain ⟨rfl, -⟩ := Prod.mk.inj ((resume_done value values).symm.trans h)
    have hlength : values.length + 1 = 1 := Option.some.inj hbalanced
    obtain rfl := List.eq_nil_of_length_eq_zero (Nat.succ.inj hlength)
    rfl
  | case2 ev ht hv =>
    obtain ⟨tasks, vs⟩ := ev
    obtain rfl : tasks = [] := ht
    obtain rfl : vs = [] := hv
    cases Option.some.inj hbalanced
  | case3 ev task tasks ht ev' hs ih =>
    obtain ⟨ts, vs⟩ := ev
    obtain rfl : ts = task :: tasks := ht
    exact ih (hbalanced.step hs) ((resume_ok hs).symm.trans h)
  | case4 ev task tasks ht ev' error hs =>
    obtain ⟨ts, vs⟩ := ev
    obtain rfl : ts = task :: tasks := ht
    cases (Prod.mk.inj ((resume_error hs).symm.trans h)).2

/-- A resume completes each reference that what is left asks for, in order. -/
theorem completed_references (ev : Evaluation) :
    (ev.completed structs env).filterMap Task.reference = asked env (ev.demand structs) := by
  induction ev using Evaluation.resume.induct structs env with
  | case1 ev ht value values hv =>
    obtain ⟨tasks, vs⟩ := ev
    obtain rfl : tasks = [] := ht
    obtain rfl : vs = value :: values := hv
    rw [completed_nil]
    rfl
  | case2 ev ht hv =>
    obtain ⟨tasks, vs⟩ := ev
    obtain rfl : tasks = [] := ht
    obtain rfl : vs = [] := hv
    rw [completed_nil]
    rfl
  | case3 ev task tasks ht ev' hs ih =>
    obtain ⟨ts, vs⟩ := ev
    obtain rfl : ts = task :: tasks := ht
    have hdemand := step_demand_eq hs
    rw [completed_ok hs]
    cases href : task.reference with
    | none =>
      rw [href] at hdemand
      rw [List.filterMap_cons_none href, ih]
      exact congrArg _ hdemand.symm
    | some reference =>
      obtain ⟨name, span⟩ := reference
      rw [href] at hdemand
      obtain ⟨value, k, hlookup, heq, hk⟩ := hdemand
      rw [List.filterMap_cons_some href, ih, ← hk]
      refine Eq.trans ?_ (congrArg (asked env) heq.symm)
      rw [asked, hlookup]
  | case4 ev task tasks ht ev' error hs =>
    obtain ⟨ts, vs⟩ := ev
    obtain rfl : ts = task :: tasks := ht
    rw [completed_error hs]
    rcases step_error_demand hs with ⟨name, span, k, hask, hlookup⟩ | ⟨d, hfail⟩
    · rw [hask, asked, hlookup]
      rfl
    · rw [hfail]
      rfl

variable (structs env) in
/-- A resumable evaluation is the direct one. Its pops find their operands in every state that it
reaches. However often its references are withheld, it ends with the value or the diagnostic of
the direct evaluation and no operand left over, or resuming it in the environment does so. No task
is completed again after a resume, and each reference that is asked for is answered once. -/
theorem resumeAll_eq_value (e : Expr) (expected : Option ValueType)
    (schedule : List (String → Span → Option (String × Span))) :
    (∀ ev, Evaluation.Reached structs e expected ev → ev.Poised) ∧
    ((Evaluation.new e expected).completed structs env).filterMap Task.reference =
      asked env (e.demand structs expected) ∧
    match (Evaluation.new e expected).resumeAll structs env schedule with
    | ⟨left, some result, completed⟩ => result = e.value structs env expected ∧
      (result.isOk → left = ⟨[], []⟩) ∧
      completed = (Evaluation.new e expected).completed structs env
    | ⟨left, none, completed⟩ => (left.resume structs env).2 = e.value structs env expected ∧
      completed ++ left.completed structs env =
        (Evaluation.new e expected).completed structs env := by
  have hvalue : ((Evaluation.new e expected).resume structs env).2 =
      e.value structs env expected := by
    rw [resume_environment, demand_new, outcome_demand]
  have hbalanced : (Evaluation.new e expected).Balanced := balanced_new e expected
  refine ⟨fun ev hev => hev.balanced.poised, ?_, ?_⟩
  · rw [completed_references, demand_new]
  · have hresume := resumeAll_resume structs env schedule (.new e expected)
    revert hresume
    rcases (Evaluation.new e expected).resumeAll structs env schedule with
      ⟨left, result | result, completed⟩
    · rintro ⟨hresume, hcompleted⟩
      exact ⟨(congrArg Prod.snd hresume).trans hvalue, hcompleted⟩
    · rintro ⟨hresume, hcompleted⟩
      refine ⟨(congrArg Prod.snd hresume).symm.trans hvalue, fun hok => ?_, hcompleted⟩
      cases result with
      | error d => cases hok
      | ok value => exact resume_balanced hbalanced hresume

end

end Speck
