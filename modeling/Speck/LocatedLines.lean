import Speck.EmitterTotality

/-!
# Source locations in emitted text

The lines that a development build adds (`isLocationLine`), and the relation of its lines with those of
a plain build (`Locates`) : each call that reports a location stands in a failure block, in front of the
call that ends the game, and the reports are those of a list of checks, in its order. `Simulates` is
what is proved of a part of the emitter : where it emits for a development build, it emits for a plain
build too, with the same result and the lines so related.
-/

set_option linter.unusedSectionVars false

namespace Speck

namespace Emitter

open EmbeddedData (intText i32Text unlines)

/-! ## Checks -/

/-- The checks that can fail when a program runs. -/
inductive Check where
  | bounds
  | division
  | remainder
  deriving DecidableEq

def Check.stage : Check → String
  | bounds => "bounds"
  | division => "division"
  | remainder => "remainder"

/-- The runtime function that ends the game. -/
def Check.hook : Check → String
  | bounds => "crumb_bounds_fail"
  | division => "crumb_division_fail"
  | remainder => "crumb_remainder_fail"

/-- The check of an operator on operands of a type. -/
def Check.ofBinary (ty : Option ReturnType) (op : BinaryOp) : Option Check :=
  if ty = some (.value .f32) then none
  else match op with
    | .divide => some division
    | .remainder => some remainder
    | _ => none

section Checks

variable [F32Primitives] (c : FunctionChecker)

mutual

/-- The checks of an expression in the order of evaluation, each with the span of the expression that
is checked. -/
def exprChecks (scopes : Scopes) : Expr → List (Check × Span)
  | .i32 .. | .f32 .. | .bool .. | .var .. => []
  | .arrayLiteral elements _ | .call _ elements _ | .conversion _ elements _ =>
    elementChecks scopes elements
  | .structLiteral _ fields _ => initializerChecks scopes fields
  | .index base index span =>
    exprChecks scopes base ++ (exprChecks scopes index ++ [(.bounds, span)])
  | .field base _ _ _ => exprChecks scopes base
  | .unary _ operand _ => exprChecks scopes operand
  | .binary left op right span =>
    exprChecks scopes left ++ (exprChecks scopes right ++
      (Check.ofBinary (c.inferExpr scopes left).value op).toList.map (·, span))

def elementChecks (scopes : Scopes) : List Expr → List (Check × Span)
  | [] => []
  | e :: rest => exprChecks scopes e ++ elementChecks scopes rest

def initializerChecks (scopes : Scopes) : List (FieldInitializer Expr) → List (Check × Span)
  | [] => []
  | ⟨_, value, _⟩ :: rest => exprChecks scopes value ++ initializerChecks scopes rest

end

/-- The check of a compound assignment, which is where its target is. -/
def assignChecks (scopes : Scopes) (target : Expr) (op : AssignOp) : List (Check × Span) :=
  ((Source.binaryOp op).bind
    (Check.ofBinary (c.inferExpr scopes target).value)).toList.map (·, target.span)

/-- The scopes behind a statement. -/
def scopesAfter (scopes : Scopes) : Stmt → Scopes
  | .letVar name ty _ _ => FunctionChecker.declare scopes name ⟨ty, .mutable⟩
  | _ => scopes

mutual

/-- The checks of a statement. What follows a statement that returns is left out. -/
def stmtChecks (scopes : Scopes) : Stmt → List (Check × Span)
  | .letVar _ _ init _ => exprChecks c scopes init
  | .assign target op value _ =>
    exprChecks c scopes target ++ (exprChecks c scopes value ++ assignChecks c scopes target op)
  | .expr e _ => exprChecks c scopes e
  | .ifElse condition thenBlock none _ =>
    exprChecks c scopes condition ++ blockChecks (∅ :: scopes) thenBlock
  | .ifElse condition thenBlock (some elseBlock) _ =>
    exprChecks c scopes condition ++
      (blockChecks (∅ :: scopes) thenBlock ++ blockChecks (∅ :: scopes) elseBlock)
  | .whileLoop condition body _ =>
    exprChecks c scopes condition ++ blockChecks (∅ :: scopes) body
  | .forLoop name _ lower upper body _ =>
    exprChecks c scopes lower ++ (exprChecks c scopes upper ++
      blockChecks (AList.singleton name ⟨.i32, .loopVariable⟩ :: scopes) body)
  | .ret (some value) _ => exprChecks c scopes value
  | .ret none _ => []

def blockChecks (scopes : Scopes) : List Stmt → List (Check × Span)
  | [] => []
  | statement :: rest => stmtChecks scopes statement ++
      if statement.returns then [] else blockChecks (scopesAfter scopes statement) rest

end

/-- The checks of a function of the program. The types of its operands do not need the values of the
constants. -/
def functionChecks (program : Program) (function : Function) : List (Check × Span) :=
  blockChecks { program.checker ∅ with returnType := function.returnType }
    [paramScope function.params] function.body

end Checks

/-! ## Lines -/

def locationCallStart : Text := "  call void @crumb_source_location(".toList

/-- A line of a development build alone : the declaration of the report, the path of a file, or a
report. -/
def isLocationLine (line : Text) : Bool :=
  "declare void @crumb_source_location(".toList.isPrefixOf line ||
    "@spk_source_".toList.isPrefixOf line || locationCallStart.isPrefixOf line

/-- The line reports where the text of a file has the start of the span, the line and the column
counted from one. -/
def Reports (sources : List (Text × Text)) (span : Span) (line : Text) : Prop :=
  ∃ path text before left right after, sources[span.source.id]? = some (path, text) ∧
    SourceLocation.LineAt text (SourceLocation.floorBoundary text (min span.start text.utf8Len))
      before left right after ∧
    line = "  call void @crumb_source_location(ptr @spk_source_".toList ++
      decimalText span.source.id ++ ", i32 ".toList ++ decimalText (before.count '\n' + 1) ++
      ", i32 ".toList ++ decimalText (left.length + 1) ++ [')']

theorem Reports.isPrefixOf {sources : List (Text × Text)} {span : Span} {line : Text}
    (h : Reports sources span line) : locationCallStart.isPrefixOf line = true := by
  obtain ⟨_, _, _, _, _, _, _, _, rfl⟩ := h
  rfl

def failureLabel (check : Check) (number : ℕ) : Text :=
  (Line.label (.numbered (check.stage ++ "_failure") number)).write

/-- The call that ends the game. -/
def failureCall (check : Check) (arguments : Text) : Text :=
  "  call void @".toList ++ check.hook.toList ++ arguments

theorem failure_isLocationLine (check : Check) (number : ℕ) (arguments : Text) :
    isLocationLine (failureLabel check number) = false ∧
      isLocationLine (failureCall check arguments) = false := by
  cases check <;> exact ⟨rfl, rfl⟩

/-- The lines of a development build and those of a plain build, with the checks that are reported. -/
inductive Locates (sources : List (Text × Text)) :
    List (Check × Span) → List Text → List Text → Prop
  | nil : Locates sources [] [] []
  | line {line : Text} : isLocationLine line = false → Locates sources [] [line] [line]
  | declaration {line : Text} : isLocationLine line = true →
    locationCallStart.isPrefixOf line = false → Locates sources [] [line] []
  | failure {check : Check} {span : Span} {number : ℕ} {report arguments : Text} :
    Reports sources span report → Locates sources [(check, span)]
      [failureLabel check number, report, failureCall check arguments, "  unreachable".toList]
      [failureLabel check number, failureCall check arguments, "  unreachable".toList]
  | append {checks checks' : List (Check × Span)} {lines lines' more more' : List Text} :
    Locates sources checks lines lines' → Locates sources checks' more more' →
    Locates sources (checks ++ checks') (lines ++ more) (lines' ++ more')

theorem eq_of_singleton_eq {α : Type} {a b : α} {front back : List α}
    (h : [a] = front ++ b :: back) : front = [] ∧ a = b ∧ back = [] := by
  cases front with
  | nil =>
    obtain ⟨rfl, rfl⟩ := List.cons_eq_cons.mp h
    exact ⟨rfl, rfl, rfl⟩
  | cons => simp at h

namespace Locates

variable {sources : List (Text × Text)} {checks : List (Check × Span)} {lines lines' : List Text}

theorem all {lines : List Text} (h : ∀ line ∈ lines, isLocationLine line = false) :
    Locates sources [] lines lines := by
  induction lines with
  | nil => exact .nil
  | cons line rest ih =>
    exact .append (.line (h line List.mem_cons_self)) (ih fun l hl => h l (List.mem_cons_of_mem _ hl))

/-- The lines of a plain build are those of a development build without the lines that it adds. -/
theorem filter_eq (h : Locates sources checks lines lines') :
    lines' = lines.filter (!isLocationLine ·) := by
  induction h with
  | nil => rfl
  | line hline => rw [List.filter_singleton, hline]; rfl
  | declaration hline => rw [List.filter_singleton, hline]; rfl
  | @failure check span number report arguments hreport =>
    have hlocation : isLocationLine report = true := by
      rw [isLocationLine, hreport.isPrefixOf, Bool.or_true]
    obtain ⟨hlabel, hcall⟩ := failure_isLocationLine check number arguments
    simp only [List.filter_cons, hlocation, hlabel, hcall]
    rfl
  | append _ _ ih ih' => rw [List.filter_append, ← ih, ← ih']

/-- A report stands in the failure block of a check, in front of the call that ends the game. -/
theorem report (h : Locates sources checks lines lines') {front back : List Text} {line : Text}
    (heq : lines = front ++ line :: back) (hline : locationCallStart.isPrefixOf line = true) :
    ∃ check span number arguments front' back', (check, span) ∈ checks ∧
      Reports sources span line ∧ front = front' ++ [failureLabel check number] ∧
      back = failureCall check arguments :: "  unreachable".toList :: back' := by
  have hlocation : isLocationLine line = true := by rw [isLocationLine, hline, Bool.or_true]
  induction h generalizing front back with
  | nil => simp at heq
  | line hline' =>
    obtain ⟨-, rfl, -⟩ := eq_of_singleton_eq heq
    rw [hlocation] at hline'
    cases hline'
  | declaration _ hcall =>
    obtain ⟨-, rfl, -⟩ := eq_of_singleton_eq heq
    rw [hline] at hcall
    cases hcall
  | @failure check span number report arguments hreports =>
    obtain ⟨hlabel, hcall⟩ := failure_isLocationLine check number arguments
    obtain _ | ⟨first, _ | ⟨second, _ | ⟨third, _ | ⟨fourth, front⟩⟩⟩⟩ := front
    · obtain ⟨rfl, -⟩ := List.cons_eq_cons.mp heq
      rw [hlocation] at hlabel
      cases hlabel
    · simp only [List.cons_append, List.nil_append, List.cons.injEq] at heq
      obtain ⟨rfl, rfl, rfl⟩ := heq
      exact ⟨check, span, number, arguments, [], [], List.mem_singleton_self _, hreports, rfl, rfl⟩
    · simp only [List.cons_append, List.nil_append, List.cons.injEq] at heq
      obtain ⟨-, -, rfl, -⟩ := heq
      rw [hlocation] at hcall
      cases hcall
    · simp only [List.cons_append, List.nil_append, List.cons.injEq] at heq
      obtain ⟨-, -, -, rfl, -⟩ := heq
      cases hline
    · simp at heq
  | @append _ _ lines lines' more more' _ _ ih ih' =>
    rcases List.append_eq_append_iff.mp heq with ⟨middle, rfl, hmore⟩ | ⟨middle, rfl, hmiddle⟩
    · obtain ⟨check, span, number, arguments, front', back', hmem, hreports, rfl, hback⟩ := ih' hmore
      exact ⟨check, span, number, arguments, lines ++ front', back', List.mem_append_right _ hmem,
        hreports, by rw [List.append_assoc], hback⟩
    · cases middle with
      | nil =>
        obtain ⟨_, _, _, _, front', _, _, _, hfront, _⟩ :=
          ih' (show more = [] ++ line :: back from hmiddle.symm)
        simp at hfront
      | cons _ middle =>
        obtain ⟨rfl, rfl⟩ := List.cons_eq_cons.mp hmiddle
        obtain ⟨check, span, number, arguments, front', back', hmem, hreports, hfront, hback⟩ := ih rfl
        exact ⟨check, span, number, arguments, front', back' ++ more, List.mem_append_left _ hmem,
          hreports, hfront, by rw [hback]; simp⟩

end Locates

/-! ## Parts of the emitter -/

/-- The lines of a function so far : two that open it and its first block, and the others, with the
checks that are reported. -/
structure Related (sources : List (Text × Text)) (reported : List (Check × Span))
    (opening lines lines' : List Line) : Prop where
  length : opening.length = 2
  eq : lines = opening ++ lines.drop 2
  eq' : lines' = opening ++ lines'.drop 2
  locates : Locates sources reported ((lines.drop 2).map Line.write) ((lines'.drop 2).map Line.write)

namespace Related

variable {sources : List (Text × Text)} {reported more : List (Check × Span)}
  {opening lines lines' : List Line}

theorem of_append (hlength : opening.length = 2)
    (h : Locates sources reported (lines.map Line.write) (lines'.map Line.write)) :
    Related sources reported opening (opening ++ lines) (opening ++ lines') := by
  refine ⟨hlength, ?_, ?_, ?_⟩
  · rw [List.drop_left' hlength]
  · rw [List.drop_left' hlength]
  · rwa [List.drop_left' hlength, List.drop_left' hlength]

theorem append (h : Related sources reported opening lines lines') {added added' : List Line}
    (hadded : Locates sources more (added.map Line.write) (added'.map Line.write)) :
    Related sources (reported ++ more) opening (lines ++ added) (lines' ++ added') := by
  rw [h.eq, h.eq', List.append_assoc, List.append_assoc]
  refine of_append h.length ?_
  rw [List.map_append, List.map_append]
  exact h.locates.append hadded

/-- A line behind the others. -/
theorem line (h : Related sources reported opening lines lines') {line : Line}
    (hline : isLocationLine line.write = false) :
    Related sources (reported ++ []) opening (lines ++ [line]) (lines' ++ [line]) :=
  h.append (.line hline)

theorem two_le_length (h : Related sources reported opening lines lines') :
    2 ≤ lines.length ∧ 2 ≤ lines'.length := by
  have hlength := congrArg List.length h.eq
  have hlength' := congrArg List.length h.eq'
  rw [List.length_append, h.length] at hlength hlength'
  omega

/-- A line behind the opening. -/
theorem insert (h : Related sources reported opening lines lines') {line : Line}
    (hline : isLocationLine line.write = false) : Related sources reported opening
      (lines.take 2 ++ line :: lines.drop 2) (lines'.take 2 ++ line :: lines'.drop 2) := by
  have htake : lines.take 2 = opening := by rw [h.eq, List.take_left' h.length]
  have htake' : lines'.take 2 = opening := by rw [h.eq', List.take_left' h.length]
  rw [htake, htake']
  exact of_append h.length (Locates.append (.line hline) h.locates)

end Related

/-- The locals of a function emitter. -/
abbrev Locals := List (HashMap Variable)

/-- From the locals, where a part emits for a development build, the other emits for a plain build, with
the same result. The locals behind it and the checks that are reported are as `R` says. -/
def Simulates {α : Type} (sources : List (Text × Text)) (locals : Locals)
    (R : α → Locals → List (Check × Span) → Prop) (m m' : EmitM α) : Prop :=
  ∀ opening s lines' reported, s.scopes = locals → Related sources reported opening s.lines lines' →
    ∀ a t, m s = some (a, t) → ∃ more' more,
      m' { s with lines := lines' } = some (a, { t with lines := more' }) ∧
      Related sources (reported ++ more) opening t.lines more' ∧ R a t.scopes more

/-- The locals stay, and the checks are reported. -/
def Reporting {α : Type} (locals : Locals) (checks : List (Check × Span)) :
    α → Locals → List (Check × Span) → Prop :=
  fun _ locals' reported => locals' = locals ∧ reported = checks

namespace Simulates

variable {α β : Type} {sources : List (Text × Text)} {locals : Locals}
  {R R' : α → Locals → List (Check × Span) → Prop} {m m' : EmitM α} {k k' : α → EmitM β}
  {Q : β → Locals → List (Check × Span) → Prop}

theorem pure {a : α} (h : R a locals []) : Simulates sources locals R (Pure.pure a) (Pure.pure a) := by
  rintro opening s lines' reported rfl hrelated _ _ ⟨⟩
  exact ⟨lines', [], rfl, (List.append_nil reported).symm ▸ hrelated, h⟩

theorem mono (h : Simulates sources locals R m m')
    (himp : ∀ a locals' more, R a locals' more → R' a locals' more) :
    Simulates sources locals R' m m' := by
  intro opening s lines' reported hlocals hrelated a t hrun
  obtain ⟨more', more, hm', hrelated', hR⟩ := h opening s lines' reported hlocals hrelated a t hrun
  exact ⟨more', more, hm', hrelated', himp _ _ _ hR⟩

theorem bind (hm : Simulates sources locals R m m')
    (hk : ∀ a locals' reported, R a locals' reported →
      Simulates sources locals' (fun b locals'' more => Q b locals'' (reported ++ more)) (k a) (k' a)) :
    Simulates sources locals Q (m >>= k) (m' >>= k') := by
  intro opening s lines' reported hlocals hrelated b t hrun
  obtain ⟨⟨a, s₁⟩, hrun₁, hrun₂⟩ := Option.bind_eq_some_iff.mp hrun
  obtain ⟨lines₁, more₁, hm', h₁, hR⟩ := hm opening s lines' reported hlocals hrelated a s₁ hrun₁
  obtain ⟨lines₂, more₂, hk', h₂, hQ⟩ := hk a s₁.scopes more₁ hR opening s₁ lines₁ _ rfl h₁ b t hrun₂
  refine ⟨lines₂, more₁ ++ more₂, ?_, List.append_assoc _ _ _ ▸ h₂, hQ⟩
  change (m' { s with lines := lines' }).bind (fun p => k' p.1 p.2) = _
  rw [hm']
  exact hk'

/-- Behind reports. -/
theorem after {checks : List (Check × Span)} (hm : Simulates sources locals (Reporting locals checks) m m')
    (hk : ∀ a, Simulates sources locals (fun b locals' more => Q b locals' (checks ++ more))
      (k a) (k' a)) : Simulates sources locals Q (m >>= k) (m' >>= k') := by
  refine bind hm fun a locals' reported h => ?_
  obtain ⟨rfl, rfl⟩ := h
  exact hk a

/-- Behind a part without reports. -/
theorem seq (hm : Simulates sources locals (Reporting locals []) m m')
    (hk : ∀ a, Simulates sources locals Q (k a) (k' a)) :
    Simulates sources locals Q (m >>= k) (m' >>= k') :=
  after hm hk

/-- What reports and keeps the locals. -/
theorem last {checks : List (Check × Span)} (hm : Simulates sources locals (Reporting locals checks) m m')
    (h : ∀ a, R a locals checks) : Simulates sources locals R m m' :=
  hm.mono fun a _ _ hreporting => by
    obtain ⟨rfl, rfl⟩ := hreporting
    exact h a

theorem pure_bind {a : α} (h : Simulates sources locals Q (k a) (k' a)) :
    Simulates sources locals Q (Pure.pure a >>= k) (Pure.pure a >>= k') := h

/-- What is expected is known behind it. -/
theorem expect {value : Option α}
    (h : ∀ a, value = some a → Simulates sources locals Q (k a) (k' a)) :
    Simulates sources locals Q (Emitter.expect value >>= k) (Emitter.expect value >>= k') := by
  cases value with
  | none => exact nofun
  | some a => exact h a rfl

theorem unreachable : Simulates sources locals R (Emitter.unreachable : EmitM α) Emitter.unreachable :=
  nofun

theorem unreachable_bind : Simulates sources locals Q (Emitter.unreachable >>= k)
    (Emitter.unreachable >>= k') := nofun

/-- What reads of the state, but not of the text. -/
theorem get {k k' : State → EmitM β}
    (hk : ∀ s lines', s.scopes = locals → 2 ≤ s.lines.length →
      Simulates sources locals Q (k s) (k' { s with lines := lines' })) :
    Simulates sources locals Q (MonadState.get >>= k) (MonadState.get >>= k') := by
  intro opening s lines' reported hlocals hrelated b t hrun
  exact hk s lines' hlocals hrelated.two_le_length.1 opening s lines' reported hlocals hrelated b t hrun

theorem pushLine {line : Line} (hline : isLocationLine line.write = false) :
    Simulates sources locals (Reporting locals []) (Emitter.pushLine line) (Emitter.pushLine line) := by
  rintro opening s lines' reported rfl hrelated _ _ ⟨⟩
  exact ⟨lines' ++ [line], [], rfl, hrelated.line hline, rfl, rfl⟩

theorem instruction {parts : List Part}
    (h : isLocationLine (Line.instruction ⟨none, parts⟩).write = false) :
    Simulates sources locals (Reporting locals []) (Emitter.instruction parts)
      (Emitter.instruction parts) :=
  pushLine h

theorem define (parts : List Part) : Simulates sources locals (Reporting locals [])
    (Emitter.define parts) (Emitter.define parts) := by
  rintro opening s lines' reported rfl hrelated _ _ ⟨⟩
  exact ⟨lines' ++ [.instruction ⟨some s.nextTemp, parts⟩], [], rfl, hrelated.line rfl, rfl, rfl⟩

theorem terminate {parts : List Part}
    (h : isLocationLine (Line.terminator ⟨none, parts⟩).write = false) :
    Simulates sources locals (Reporting locals []) (Emitter.terminate parts)
      (Emitter.terminate parts) := by
  rintro opening s lines' reported rfl hrelated _ _ ⟨⟩
  exact ⟨lines' ++ [.terminator ⟨none, parts⟩], [], rfl, hrelated.line h, rfl, rfl⟩

/-- A new label, with its stage. -/
theorem label {stage : String} {k k' : Label → EmitM β} (hk : ∀ number,
      Simulates sources locals Q (k (.numbered stage number)) (k' (.numbered stage number))) :
    Simulates sources locals Q (Emitter.label stage >>= k) (Emitter.label stage >>= k') := by
  intro opening s lines' reported hlocals hrelated b t hrun
  exact hk s.nextLabel opening { s with nextLabel := s.nextLabel + 1 } lines' reported hlocals hrelated
    b t hrun

theorem placeLabel {block : Label} (h : isLocationLine (Line.label block).write = false) :
    Simulates sources locals (Reporting locals []) (Emitter.placeLabel block)
      (Emitter.placeLabel block) := by
  rintro opening s lines' reported rfl hrelated _ _ ⟨⟩
  exact ⟨lines' ++ [.label block], [], rfl, hrelated.line h, rfl, rfl⟩

theorem entryAlloca (ty : Text) : Simulates sources locals (Reporting locals [])
    (Emitter.entryAlloca ty) (Emitter.entryAlloca ty) := by
  intro opening s lines' reported hlocals hrelated a t hrun
  let line : Line := .instruction ⟨some s.nextTemp, ["alloca ", ty]⟩
  have hdefine (lines : List Line) (hlines : 2 ≤ lines.length) :
      Emitter.entryAlloca ty { s with lines := lines } = some (.temp s.nextTemp, { s with
        nextTemp := s.nextTemp + 1, lines := lines.take 2 ++ line :: lines.drop 2 }) := by
    change (insertLine 2 _ _).bind _ = _
    rw [insertLine, if_pos hlines]
    rfl
  obtain ⟨hlength, hlength'⟩ := hrelated.two_le_length
  obtain ⟨rfl, rfl⟩ := Prod.mk.inj (Option.some.inj ((hdefine s.lines hlength).symm.trans hrun))
  exact ⟨_, [], hdefine lines' hlength', by rw [List.append_nil]; exact hrelated.insert rfl, hlocals,
    rfl⟩

end Simulates

end Emitter

end Speck
