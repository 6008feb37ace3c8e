import Speck.ParseExpressions

/-!
# Parsing printed programs

The parser reads the types, statements and declarations that are printed for a program, so it gives
the program back up to spans, unless it reports its nesting limit. A statement is read in the
scopes that the parser keeps, whose names are the locals bound there ; a block leaves them as they
were.
-/

namespace Speck

namespace Parser

variable {β : Type} {p : Parser} {structs : List String} {scopes : List (List String)}
  {kinds : List TokenKind} {post : β → Parser → Prop}

/-! ## Types -/

theorem arrayLength_reads {length : ArrayLength} (hlength : length.Printable)
    {rest : List TokenKind} (hrest : rest.headD .eof ≠ .colonColon)
    (h : p.At structs scopes (length.tokens ++ rest)) :
    Parses arrayLength p fun length' p' =>
      length'.strip = length.strip ∧ p'.At structs scopes rest := by
  cases length with
  | literal value span =>
    by_cases hneg : value < 0
    · rw [ArrayLength.tokens, if_pos hneg] at h
      refine h.take_true (by simp) fun p₁ h₁ => ?_
      refine h₁.advance (by simp) fun token p₂ htoken h₂ => ?_
      rw [htoken]
      exact parses_pure ⟨by simp [ArrayLength.strip], h₂⟩
    · rw [ArrayLength.tokens, if_neg hneg] at h
      refine h.take_false (by simp) (h.advance (by simp) fun token p₁ htoken h₁ => ?_)
      rw [htoken]
      exact parses_pure ⟨rfl, h₁⟩
  | constant name span =>
    obtain ⟨head, tail, hname⟩ := nameTokens_eq_cons name
    rw [ArrayLength.tokens, hname] at h
    refine h.take_false (by simp) (h.advance (by simp) fun token p₁ htoken h₁ => ?_)
    rw [htoken]
    exact qualifiedName_reads hname hrest h₁ fun span p₂ h₂ => parses_pure ⟨rfl, h₂⟩
  | resolved n | invalid => exact absurd hlength id

theorem valueType_reads {ty : ValueType} (hty : ty.Printable) (depth : ℕ) {rest : List TokenKind}
    (hrest : rest.headD .eof ≠ .colonColon) (h : p.At structs scopes (ty.tokens ++ rest)) :
    Parses (parseValueType depth) p fun ty' p' =>
      ty'.strip = ty.strip ∧ p'.At structs scopes rest := by
  induction ty generalizing depth rest p with
  | i32 | f32 | bool =>
    obtain _ | depth := depth
    · exact parses_exceeded
    refine h.advance (by simp) fun token p₁ htoken h₁ => ?_
    rw [htoken]
    exact parses_pure ⟨rfl, h₁⟩
  | struct name =>
    obtain _ | depth := depth
    · exact parses_exceeded
    obtain ⟨head, tail, hname⟩ := nameTokens_eq_cons name
    rw [ValueType.tokens, hname] at h
    refine h.advance (by simp) fun token p₁ htoken h₁ => ?_
    rw [htoken]
    exact qualifiedName_reads hname hrest h₁ fun span p₂ h₂ => parses_pure ⟨rfl, h₂⟩
  | array element length ih =>
    obtain _ | depth := depth
    · exact parses_exceeded
    obtain ⟨helement, hlength⟩ := hty
    simp only [ValueType.tokens, List.cons_append, List.append_assoc] at h
    refine h.advance (by simp) fun token p₁ htoken h₁ => ?_
    rw [htoken]
    refine parses_bind _ (ih helement depth (by simp) h₁) ?_
    rintro element' p₂ ⟨hstrip, h₂⟩
    refine h₂.expect (by simp) fun token p₃ h₃ => ?_
    refine parses_bind _ (arrayLength_reads hlength (by simp) h₃) ?_
    rintro length' p₄ ⟨hlength', h₄⟩
    refine h₄.expect (by simp) fun token p₅ h₅ => parses_pure ⟨?_, h₅⟩
    simp [ValueType.strip, hstrip, hlength']

theorem nameTokens_headD_ne (name : String) {kind : TokenKind}
    (hkind : ∀ head, kind ≠ .identifier head) (rest : List TokenKind) :
    (nameTokens name ++ rest).headD .eof ≠ kind := by
  obtain ⟨head, tail, hname⟩ := nameTokens_eq_cons name
  rw [hname]
  exact fun h => hkind head h.symm

theorem returnType_reads {ty : ReturnType} (hty : ty.Printable) (depth : ℕ)
    {rest : List TokenKind} (hrest : rest.headD .eof ≠ .colonColon)
    (h : p.At structs scopes (ty.tokens ++ rest)) :
    Parses (parseReturnType depth) p fun ty' p' =>
      ty'.strip = ty.strip ∧ p'.At structs scopes rest := by
  cases ty with
  | void => exact h.take_true (by simp) fun p₁ h₁ => parses_pure ⟨rfl, h₁⟩
  | value ty =>
    have hhead : (ty.tokens ++ rest).headD .eof ≠ .void := by
      cases ty with
      | struct name => exact nameTokens_headD_ne name (by simp) rest
      | _ => simp [ValueType.tokens]
    refine h.take_false hhead (parses_bind _ (valueType_reads hty depth hrest h) ?_)
    rintro ty' p₁ ⟨hstrip, h₁⟩
    exact parses_pure ⟨by simp [ReturnType.strip, hstrip], h₁⟩

/-! ## Simple statements -/

theorem simpleSpan_reads {start stop : Span} (h : p.At structs scopes (.semicolon :: kinds))
    {k : Span → ParseM β}
    (hk : ∀ span p', p'.At structs scopes kinds → Parses (k span) p' post) :
    Parses (simpleSpan start stop >>= k) p post := by
  refine parses_bind (fun _ p' => p'.At structs scopes kinds) ?_ hk
  refine parses_bind (fun _ p' => p'.At structs scopes kinds) ?_ fun _ p' h' => parses_pure h'
  exact h.isAt_true (h.advance (by simp) fun _ p' _ h' => parses_pure h')

/-- A typed declaration, up to its semicolon. -/
theorem typedInitializer_reads {name : String} {ty : ValueType} {init : Expr} (hty : ty.Printable)
    (hinit : init.Printable structs scopes.flatten) {depth : ℕ}
    {nameMessage colonMessage equalMessage : String} {rest : List TokenKind}
    (h : p.At structs scopes (initializerTokens name ty init ++ rest))
    {k : String × ValueType × Expr → ParseM β}
    (hk : ∀ ty' init' p', ty'.strip = ty.strip → init'.strip = init.strip →
      p'.At structs scopes (.semicolon :: rest) → Parses (k (name, ty', init')) p' post) :
    Parses (typedInitializer depth nameMessage colonMessage equalMessage >>= k) p post := by
  refine parses_bind (fun result p' => result.1 = name ∧ result.2.1.strip = ty.strip ∧
    result.2.2.strip = init.strip ∧ p'.At structs scopes (.semicolon :: rest)) ?_ ?_
  · simp only [initializerTokens, List.cons_append, List.append_assoc] at h
    refine h.identifier fun span p₁ h₁ => h₁.expect (by simp) fun token p₂ h₂ => ?_
    refine parses_bind _ (valueType_reads hty depth (by simp) h₂) ?_
    rintro ty' p₃ ⟨hty', h₃⟩
    refine h₃.expect (by simp) fun token p₄ h₄ => ?_
    refine (expression_reads depth).read hinit (follows_cons (by simp [operatorLevel]) (by simp)) h₄
      fun init' p₅ hinit' h₅ => ?_
    exact parses_pure ⟨rfl, hty', hinit', h₅⟩
  · rintro ⟨_, ty', init'⟩ p' ⟨rfl, hty', hinit', hp'⟩
    exact hk ty' init' p' hty' hinit' hp'

/-! ## First tokens of statements -/

/-- Tokens that start a statement, and not the field of a struct literal. -/
def OpensStatement (kinds : List TokenKind) : Prop :=
  ∃ head tail, kinds = head :: tail ∧ head ≠ .rightBrace ∧ head ≠ .else ∧ head ≠ .eof ∧
    ((∃ name, head = .identifier name) → ∃ next tail', tail = next :: tail' ∧ next ≠ .colon)

/-- An expression and what follows it in a statement. -/
theorem Opens.statement {kinds : List TokenKind} (h : Opens kinds) {kind : TokenKind}
    (hkind : kind ≠ .colon) (rest : List TokenKind) : OpensStatement (kinds ++ kind :: rest) := by
  obtain ⟨head, tail, rfl, hhead, htail⟩ := h
  refine ⟨head, tail ++ kind :: rest, rfl, ?_, ?_, ?_, fun _ => ?_⟩
  · rintro rfl
    simp [startsExpression] at hhead
  · rintro rfl
    simp [startsExpression] at hhead
  · rintro rfl
    simp [startsExpression] at hhead
  · cases tail with
    | nil => exact ⟨kind, rest, rfl, hkind⟩
    | cons next tail => exact ⟨next, _, rfl, by simpa using htail⟩

theorem opensStatement_tokens {bound : List String} {s : Stmt} (hs : s.Printable structs bound) :
    OpensStatement s.tokens := by
  cases s with
  | letVar | ifElse | whileLoop | forLoop => exact ⟨_, _, rfl, by simp, by simp, by simp, by simp⟩
  | ret value span =>
    cases value <;> exact ⟨_, _, rfl, by simp, by simp, by simp, by simp⟩
  | assign target op value span =>
    exact (opens_tokens hs.1).statement (by cases op <;> simp [AssignOp.kind]) _
  | expr e span => exact (opens_tokens hs).statement (by simp) _

theorem stmtTokens_headD_ne {bound : List String} {ss : List Stmt}
    (hss : stmtsPrintable structs bound ss) (rest : List TokenKind) :
    (stmtTokens ss ++ .rightBrace :: rest).headD .eof ≠ .else := by
  cases ss with
  | nil => simp [stmtTokens]
  | cons s ss =>
    obtain ⟨head, tail, htokens, -, helse, -⟩ := opensStatement_tokens hss.1
    simpa [stmtTokens, htokens] using helse

/-- A block does not continue the expression before it. -/
theorem block_follows {bound : List String} {ss : List Stmt}
    (hss : stmtsPrintable structs bound ss) (rest : List TokenKind) :
    Follows 1 (.leftBrace :: (stmtTokens ss ++ .rightBrace :: rest)) := by
  refine ⟨by simp [operatorLevel], fun name tail heq => ?_⟩
  have hinner := (List.cons.inj heq).2
  cases ss with
  | nil => simp [stmtTokens] at hinner
  | cons s ss =>
    obtain ⟨head, tail', htokens, -, -, -, hfield⟩ := opensStatement_tokens hss.1
    simp only [stmtTokens, htokens, List.cons_append, List.cons.injEq] at hinner
    obtain ⟨next, tail'', rfl, hnext⟩ := hfield ⟨name, hinner.1⟩
    exact hnext (List.cons.inj hinner.2).1

theorem length_le_stmtTokens {bound : List String} {ss : List Stmt}
    (hss : stmtsPrintable structs bound ss) : ss.length ≤ (stmtTokens ss).length := by
  induction ss generalizing bound with
  | nil => simp
  | cons s ss ih =>
    obtain ⟨head, tail, htokens, -⟩ := opensStatement_tokens hss.1
    have hlength := ih hss.2
    simp only [stmtTokens, htokens, List.length_cons, List.length_append]
    omega

/-! ## Statements -/

/-- The parser reads every printable block, and leaves the scopes as they were. -/
def ReadsBlocks (structs : List String) (block : ParseM (Block × Span)) : Prop :=
  ∀ scopes ss rest p, stmtsPrintable structs scopes.flatten ss →
    p.At structs scopes (.leftBrace :: (stmtTokens ss ++ .rightBrace :: rest)) →
    Parses block p fun result p' =>
      stripBlock result.1 = stripBlock ss ∧ p'.At structs scopes rest

/-- The parser reads every printable statement, and binds what it binds. -/
def ReadsStatements (structs : List String) (statement : ParseM Stmt) : Prop :=
  ∀ scope scopes (s : Stmt) rest p, s.Printable structs (scope :: scopes).flatten →
    rest.headD .eof ≠ .else → p.At structs (scope :: scopes) (s.tokens ++ rest) →
    Parses statement p fun s' p' =>
      s'.strip = s.strip ∧ p'.At structs ((s.binds ++ scope) :: scopes) rest

theorem ReadsBlocks.read {block : ParseM (Block × Span)} (h : ReadsBlocks structs block)
    {ss : List Stmt} (hss : stmtsPrintable structs scopes.flatten ss) {rest : List TokenKind}
    (hp : p.At structs scopes (.leftBrace :: (stmtTokens ss ++ .rightBrace :: rest)))
    {k : Block × Span → ParseM β}
    (hk : ∀ ss' span p', stripBlock ss' = stripBlock ss → p'.At structs scopes rest →
      Parses (k (ss', span)) p' post) :
    Parses (block >>= k) p post :=
  parses_bind _ (h scopes ss rest p hss hp) fun result p' ⟨hstrip, hp'⟩ =>
    hk result.1 result.2 p' hstrip hp'

theorem blockWithBindings_reads {block : ParseM (Block × Span)} (h : ReadsBlocks structs block)
    {bindings : List String} {ss : List Stmt}
    (hss : stmtsPrintable structs (bindings ++ scopes.flatten) ss) {rest : List TokenKind}
    (hp : p.At structs scopes (.leftBrace :: (stmtTokens ss ++ .rightBrace :: rest)))
    {k : Block × Span → ParseM β}
    (hk : ∀ ss' span p', stripBlock ss' = stripBlock ss → p'.At structs scopes rest →
      Parses (k (ss', span)) p' post) :
    Parses (blockWithBindings bindings block >>= k) p post := by
  refine parses_bind (fun result p' => stripBlock result.1 = stripBlock ss ∧
    p'.At structs scopes rest) ?_ fun result p' ⟨hstrip, hp'⟩ => hk result.1 result.2 p' hstrip hp'
  refine parses_modify ?_
  have hpushed : At structs (bindings :: scopes)
      (.leftBrace :: (stmtTokens ss ++ .rightBrace :: rest))
      { p with valueScopes := bindings :: p.valueScopes } :=
    ⟨hp.kinds, hp.structs, by rw [hp.scopes]⟩
  have hss' : stmtsPrintable structs (bindings :: scopes).flatten ss := hss
  refine h.read hss' hpushed fun ss' span p₁ hstrip h₁ => parses_modify (parses_pure ⟨hstrip, ?_⟩)
  exact ⟨h₁.kinds, h₁.structs, by rw [h₁.scopes]; rfl⟩

theorem statements_read {statement : ParseM Stmt} (hstatement : ReadsStatements structs statement)
    {scope : List String} {ss : List Stmt}
    (hss : stmtsPrintable structs (scope ++ scopes.flatten) ss) {rest : List TokenKind} {fuel : ℕ}
    (hfuel : ss.length ≤ fuel)
    (h : p.At structs (scope :: scopes) (stmtTokens ss ++ .rightBrace :: rest)) :
    Parses (untilClose .rightBrace statement fuel) p fun ss' p' =>
      stripBlock ss' = stripBlock ss ∧
        ∃ scope', p'.At structs (scope' :: scopes) (.rightBrace :: rest) := by
  induction ss generalizing p scope fuel with
  | nil => exact h.untilClose_nil fuel ⟨rfl, scope, h⟩
  | cons s ss ih =>
    obtain _ | fuel := fuel
    · simp at hfuel
    obtain ⟨hs, hrest⟩ := hss
    obtain ⟨head, tail, htokens, hbrace, -, heof, -⟩ := opensStatement_tokens hs
    simp only [stmtTokens, List.append_assoc] at h
    refine h.untilClose_cons (by simpa [htokens] using hbrace) (by simpa [htokens] using heof) ?_
    refine parses_bind _ (hstatement scope scopes s _ p hs (stmtTokens_headD_ne hrest rest) h) ?_
    rintro s' p₁ ⟨hstrip, h₁⟩
    rw [← List.append_assoc] at hrest
    refine parses_bind _ (ih hrest (by simpa using hfuel) h₁) ?_
    rintro ss' p₂ ⟨hstrips, h₂⟩
    exact parses_pure ⟨by simp [stripBlock, hstrip, hstrips], h₂⟩

theorem blockContents_reads {statement : ParseM Stmt}
    (hstatement : ReadsStatements structs statement) :
    ReadsBlocks structs (blockContents statement) := by
  intro scopes ss rest p hss h
  refine h.expect (by simp) fun token p₁ h₁ => parses_modify ?_
  have hpushed : At structs ([] :: scopes) (stmtTokens ss ++ .rightBrace :: rest)
      { p₁ with valueScopes := [] :: p₁.valueScopes } :=
    ⟨h₁.kinds, h₁.structs, by rw [h₁.scopes]⟩
  refine hpushed.remaining (parses_bind _ (statements_read hstatement hss ?_ hpushed) ?_)
  · have hlength := length_le_stmtTokens hss
    rw [List.length_append]
    omega
  · rintro ss' p₂ ⟨hstrip, scope', h₂⟩
    refine h₂.expect (by simp) fun token p₃ h₃ => parses_modify (parses_pure ⟨hstrip, ?_⟩)
    exact ⟨h₃.kinds, h₃.structs, by rw [h₃.scopes]; rfl⟩

theorem assignOp_kind (op : AssignOp) : assignOp op.kind = some op := by cases op <;> rfl

theorem letStatement_reads {depth : ℕ} {scope : List String} {name : String} {ty : ValueType}
    {init : Expr} {span : Span} {rest : List TokenKind} (hty : ty.Printable)
    (hinit : init.Printable structs (scope ++ scopes.flatten))
    (h : p.At structs (scope :: scopes) (.let :: (initializerTokens name ty init ++ rest))) :
    Parses (letStatement depth) p fun s' p' =>
      s'.strip = (Stmt.letVar name ty init span).strip ∧
        p'.At structs ((name :: scope) :: scopes) rest := by
  refine h.expect (by simp) fun token p₁ h₁ => ?_
  refine typedInitializer_reads hty hinit h₁ fun ty' init' p₂ hty' hinit' h₂ => ?_
  refine simpleSpan_reads h₂ fun span' p₃ h₃ => parses_modify (parses_pure ⟨?_, ?_⟩)
  · simp [Stmt.strip, hty', hinit']
  · rw [h₃.scopes]
    exact ⟨h₃.kinds, h₃.structs, rfl⟩

/-- An expression, or the target of an assignment. -/
theorem expressionStatement_reads {depth : ℕ} {s : Stmt}
    (hs : s.Printable structs scopes.flatten)
    (hkind : (∃ e span, s = .expr e span) ∨ ∃ target op value span, s = .assign target op value span)
    {rest : List TokenKind} (h : p.At structs scopes (s.tokens ++ rest)) :
    Parses (expressionStatement depth) p fun s' p' =>
      s'.strip = s.strip ∧ p'.At structs scopes rest := by
  rcases hkind with ⟨e, span, rfl⟩ | ⟨target, op, value, span, rfl⟩
  · simp only [Stmt.tokens, List.append_assoc, List.cons_append] at h
    refine (expression_reads depth).read hs (follows_cons (by simp [operatorLevel]) (by simp)) h
      fun e' p₁ hstrip h₁ => parses_get ?_
    rw [h₁.current_kind, if_neg (by simp [assignOp])]
    refine simpleSpan_reads h₁ fun span' p₂ h₂ => parses_pure ⟨?_, h₂⟩
    simp [Stmt.strip, hstrip]
  · obtain ⟨htarget, hvalue⟩ := hs
    simp only [Stmt.tokens, List.append_assoc, List.cons_append] at h
    have hfollows : Follows 1 (op.kind :: (value.tokens ++ .semicolon :: ([] ++ rest))) :=
      follows_cons (by cases op <;> simp [AssignOp.kind, operatorLevel])
        (by cases op <;> simp [AssignOp.kind])
    refine (expression_reads depth).read htarget hfollows h fun target' p₁ htarget' h₁ =>
      parses_get ?_
    rw [h₁.current_kind, if_pos (by simp [assignOp_kind])]
    refine h₁.advance (by cases op <;> simp [AssignOp.kind]) fun token p₂ htoken h₂ => ?_
    rw [htoken, assignOp_kind]
    refine (expression_reads depth).read hvalue (follows_cons (by simp [operatorLevel]) (by simp)) h₂
      fun value' p₃ hvalue' h₃ => ?_
    refine simpleSpan_reads h₃ fun span' p₄ h₄ => parses_pure ⟨?_, h₄⟩
    simp [Stmt.strip, htarget', hvalue']

theorem statementWith_expression {depth : ℕ} {block : ParseM (Block × Span)}
    (hstart : startsExpression p.current.kind = true) {post : Stmt → Parser → Prop}
    (h : Parses (expressionStatement depth) p post) :
    Parses (statementWith depth block) p post := by
  refine parses_get ?_
  cases hkind : p.current.kind <;> first | exact h | simp [hkind, startsExpression] at hstart

theorem ifStatement_reads {depth : ℕ} {block : ParseM (Block × Span)}
    (hblock : ReadsBlocks structs block) {condition : Expr} {thenBlock : List Stmt}
    {elseBlock : Option (List Stmt)} {span : Span}
    (hcondition : condition.Printable structs scopes.flatten)
    (hthen : stmtsPrintable structs scopes.flatten thenBlock)
    (helse : elsePrintable structs scopes.flatten elseBlock) {rest : List TokenKind}
    (hrest : rest.headD .eof ≠ .else)
    (h : p.At structs scopes ((Stmt.ifElse condition thenBlock elseBlock span).tokens ++ rest)) :
    Parses (ifStatement depth block) p fun s' p' =>
      s'.strip = (Stmt.ifElse condition thenBlock elseBlock span).strip ∧
        p'.At structs scopes rest := by
  simp only [Stmt.tokens, List.append_assoc, List.cons_append] at h
  refine h.expect (by simp) fun token p₁ h₁ => ?_
  refine (expression_reads depth).read hcondition (block_follows hthen _) h₁
    fun condition' p₂ hcondition' h₂ => ?_
  refine hblock.read hthen h₂ fun thenBlock' thenEnd p₃ hthen' h₃ => ?_
  cases elseBlock with
  | none =>
    refine h₃.take_false hrest (parses_pure ⟨?_, h₃⟩)
    simp [Stmt.strip, stripElse, hcondition', hthen']
  | some elseBlock =>
    simp only [elseTokens, List.append_assoc, List.cons_append] at h₃
    refine h₃.take_true (by simp) fun p₄ h₄ => ?_
    refine hblock.read helse h₄ fun elseBlock' stop p₅ helse' h₅ => parses_pure ⟨?_, h₅⟩
    simp [Stmt.strip, stripElse, hcondition', hthen', helse']

theorem forStatement_reads {depth : ℕ} {block : ParseM (Block × Span)}
    (hblock : ReadsBlocks structs block) {name : String} {lower upper : Expr} {body : List Stmt}
    {nameSpan span : Span} (hlower : lower.Printable structs scopes.flatten)
    (hupper : upper.Printable structs scopes.flatten)
    (hbody : stmtsPrintable structs (name :: scopes.flatten) body) {rest : List TokenKind}
    (h : p.At structs scopes ((Stmt.forLoop name nameSpan lower upper body span).tokens ++ rest)) :
    Parses (forStatement depth block) p fun s' p' =>
      s'.strip = (Stmt.forLoop name nameSpan lower upper body span).strip ∧
        p'.At structs scopes rest := by
  simp only [Stmt.tokens, List.append_assoc, List.cons_append] at h
  refine h.expect (by simp) fun token p₁ h₁ => h₁.identifier fun start p₂ h₂ => ?_
  refine h₂.expect (by simp) fun token p₃ h₃ => ?_
  refine (expression_reads depth).read hlower (follows_cons (by simp [operatorLevel]) (by simp)) h₃
    fun lower' p₄ hlower' h₄ => h₄.expect (by simp) fun token p₅ h₅ => ?_
  refine (expression_reads depth).read hupper (block_follows hbody _) h₅
    fun upper' p₆ hupper' h₆ => ?_
  refine blockWithBindings_reads hblock hbody h₆ fun body' stop p₇ hbody' h₇ =>
    parses_pure ⟨?_, h₇⟩
  simp [Stmt.strip, hlower', hupper', hbody']

theorem returnStatement_reads {depth : ℕ} {value : Option Expr} {span : Span}
    (hvalue : (Stmt.ret value span).Printable structs scopes.flatten) {rest : List TokenKind}
    (h : p.At structs scopes ((Stmt.ret value span).tokens ++ rest)) :
    Parses (returnStatement depth) p fun s' p' =>
      s'.strip = (Stmt.ret value span).strip ∧ p'.At structs scopes rest := by
  cases value with
  | none =>
    refine h.expect (by simp) fun token p₁ h₁ => parses_get ?_
    rw [h₁.current_kind, if_pos (by simp)]
    refine parses_bind (fun _ p' => p'.At structs scopes rest) ?_ ?_
    · exact h₁.isAt_true (h₁.advance (by simp) fun _ p' _ h' => parses_pure h')
    · exact fun span' p₂ h₂ => parses_pure ⟨rfl, h₂⟩
  | some value =>
    have hopens : Opens value.tokens := opens_tokens hvalue
    simp only [Stmt.tokens, List.append_assoc, List.cons_append] at h
    refine h.expect (by simp) fun token p₁ h₁ => parses_get ?_
    have hbrace : ∀ tail, (value.tokens ++ tail).headD TokenKind.eof ≠ .rightBrace :=
      hopens.headD_ne rfl
    have hsemicolon : ∀ tail, (value.tokens ++ tail).headD TokenKind.eof ≠ .semicolon :=
      hopens.headD_ne rfl
    rw [h₁.current_kind, if_neg]
    swap
    · rw [Bool.or_eq_true, decide_eq_true_eq, decide_eq_true_eq, not_or]
      exact ⟨hbrace _, hsemicolon _⟩
    refine (expression_reads depth).read hvalue (follows_cons (by simp [operatorLevel]) (by simp)) h₁
      fun value' p₂ hvalue' h₂ => ?_
    refine simpleSpan_reads h₂ fun span' p₃ h₃ => parses_pure ⟨?_, h₃⟩
    simp [Stmt.strip, hvalue']

theorem statementWith_reads {depth : ℕ} {block : ParseM (Block × Span)}
    (hblock : ReadsBlocks structs block) :
    ReadsStatements structs (statementWith depth block) := by
  intro scope scopes s rest p hs hrest h
  have hcurrent := h.current_kind
  cases s with
  | letVar name ty init span =>
    refine parses_get ?_
    rw [hcurrent]
    exact letStatement_reads hs.1 hs.2 h
  | ifElse condition thenBlock elseBlock span =>
    refine parses_get ?_
    rw [hcurrent]
    exact ifStatement_reads hblock hs.1 hs.2.1 hs.2.2 hrest h
  | whileLoop condition body span =>
    refine parses_get ?_
    rw [hcurrent]
    simp only [Stmt.tokens, List.append_assoc, List.cons_append] at h
    refine h.expect (by simp) fun token p₁ h₁ => ?_
    refine (expression_reads depth).read hs.1 (block_follows hs.2 _) h₁
      fun condition' p₂ hcondition' h₂ => ?_
    refine hblock.read hs.2 h₂ fun body' stop p₃ hbody' h₃ => parses_pure ⟨?_, h₃⟩
    simp [Stmt.strip, hcondition', hbody']
  | forLoop name nameSpan lower upper body span =>
    refine parses_get ?_
    rw [hcurrent]
    exact forStatement_reads hblock hs.1 hs.2.1 hs.2.2 h
  | ret value span =>
    refine parses_get ?_
    rw [hcurrent]
    cases value <;> exact returnStatement_reads hs h
  | assign target op value span =>
    refine statementWith_expression ?_ (expressionStatement_reads hs (.inr ⟨_, _, _, _, rfl⟩) h)
    obtain ⟨head, tail, htokens, hhead, -⟩ := opens_tokens hs.1
    rw [hcurrent]
    simpa [Stmt.tokens, htokens] using hhead
  | expr e span =>
    refine statementWith_expression ?_ (expressionStatement_reads hs (.inl ⟨_, _, rfl⟩) h)
    obtain ⟨head, tail, htokens, hhead, -⟩ := opens_tokens hs
    rw [hcurrent]
    simpa [Stmt.tokens, htokens] using hhead

theorem statement_reads (depth : ℕ) : ReadsStatements structs (statement depth) := by
  induction depth with
  | zero => exact statementWith_reads fun _ _ _ _ _ _ => parses_exceeded
  | succ depth ih => exact statementWith_reads (blockContents_reads ih)

/-- The parser of blocks reads every printable block. -/
theorem block_reads (depth : ℕ) : ReadsBlocks structs (block depth) := by
  cases depth with
  | zero => exact fun _ _ _ _ _ _ => parses_exceeded
  | succ depth => exact blockContents_reads (statement_reads depth)

/-! ## Declarations -/

theorem structFields_read {depth : ℕ} {fields : List StructField}
    (hfields : ∀ field ∈ fields, field.ty.Printable) {rest : List TokenKind} {fuel : ℕ}
    (hfuel : fields.length ≤ fuel)
    (h : p.At structs scopes (fields.flatMap StructField.tokens ++ .rightBrace :: rest)) :
    Parses (untilClose .rightBrace (structField depth) fuel) p fun fields' p' =>
      fields'.map StructField.strip = fields.map StructField.strip ∧
        p'.At structs scopes (.rightBrace :: rest) := by
  induction fields generalizing p fuel with
  | nil => exact h.untilClose_nil fuel ⟨rfl, h⟩
  | cons field fields ih =>
    obtain _ | fuel := fuel
    · simp at hfuel
    simp only [List.flatMap_cons, StructField.tokens, List.cons_append, List.append_assoc] at h
    refine h.untilClose_cons (by simp) (by simp) ?_
    refine parses_bind (fun field' p' => field'.strip = field.strip ∧
      p'.At structs scopes (fields.flatMap StructField.tokens ++ .rightBrace :: rest)) ?_ ?_
    · refine h.identifier fun span p₁ h₁ => h₁.expect (by simp) fun token p₂ h₂ => ?_
      refine parses_bind _ (valueType_reads (hfields field (by simp)) depth (by simp) h₂) ?_
      rintro ty' p₃ ⟨hty, h₃⟩
      refine h₃.take (by simp) fun taken p₄ h₄ => parses_pure ⟨?_, h₄⟩
      simp [StructField.strip, hty]
    · rintro field' p' ⟨hfield, hp'⟩
      refine parses_bind _ (ih (fun field hmem => hfields field (by simp [hmem]))
        (by simpa using hfuel) hp') ?_
      rintro fields' p'' ⟨hstrip, hp''⟩
      exact parses_pure ⟨by simp [hfield, hstrip], hp''⟩

theorem length_le_fields (fields : List StructField) :
    fields.length ≤ (fields.flatMap StructField.tokens).length := by
  induction fields with
  | nil => simp
  | cons field fields ih =>
    simp only [List.flatMap_cons, StructField.tokens, List.length_cons, List.length_append]
    omega

theorem struct_reads {depth : ℕ} {decl : StructDecl}
    (hdecl : ∀ field ∈ decl.fields, field.ty.Printable) {rest : List TokenKind}
    (h : p.At structs scopes (decl.tokens ++ rest)) :
    Parses (parseStruct depth) p fun decl' p' =>
      decl'.strip = decl.strip ∧ p'.At structs scopes rest := by
  simp only [StructDecl.tokens, List.cons_append, List.append_assoc] at h
  refine h.expect (by simp) fun token p₁ h₁ => h₁.identifier fun span p₂ h₂ => ?_
  refine h₂.expect (by simp) fun token p₃ h₃ => h₃.remaining ?_
  refine parses_bind _ (structFields_read hdecl ?_ h₃) ?_
  · have hlength := length_le_fields decl.fields
    rw [List.length_append]
    omega
  · rintro fields' p₄ ⟨hstrip, h₄⟩
    refine h₄.expect (by simp) fun token p₅ h₅ => parses_pure ⟨?_, h₅⟩
    simp [StructDecl.strip, hstrip]

theorem sound_reads {sound : SoundAsset} (hsound : sound.handle = 0 ∧ sound.pcm = [])
    {rest : List TokenKind} (h : p.At structs scopes (sound.tokens ++ rest)) :
    Parses parseSound p fun sound' p' =>
      sound'.strip = sound.strip ∧ p'.At structs scopes rest := by
  refine h.advance (by simp) fun token p₁ _ h₁ => h₁.identifier fun span p₂ h₂ => ?_
  refine h₂.expect (by simp) fun token p₃ h₃ => ?_
  refine h₃.advance (by simp) fun token p₄ htoken h₄ => ?_
  rw [htoken]
  refine simpleSpan_reads h₄ fun span' p₅ h₅ => parses_pure ⟨?_, h₅⟩
  simp [SoundAsset.strip, hsound.1, hsound.2]

theorem constant_reads {depth : ℕ} {constant : Constant} (hvalue : constant.value = none)
    (hty : constant.ty.Printable) (hinit : constant.init.Printable structs scopes.flatten)
    {rest : List TokenKind} (h : p.At structs scopes (constant.tokens ++ rest)) :
    Parses (parseConstant depth) p fun constant' p' =>
      constant'.strip = constant.strip ∧ p'.At structs scopes rest := by
  refine h.expect (by simp) fun token p₁ h₁ => ?_
  refine typedInitializer_reads hty hinit h₁ fun ty' init' p₂ hty' hinit' h₂ => ?_
  refine simpleSpan_reads h₂ fun span' p₃ h₃ => parses_pure ⟨?_, h₃⟩
  simp [Constant.strip, hty', hinit', hvalue]

theorem global_reads {depth : ℕ} {global : Global} (hvalue : global.value = none)
    (hty : global.ty.Printable) (hinit : global.init.Printable structs scopes.flatten)
    {rest : List TokenKind} (h : p.At structs scopes (global.tokens ++ rest)) :
    Parses (parseGlobal depth) p fun global' p' =>
      global'.strip = global.strip ∧ p'.At structs scopes rest := by
  refine h.expect (by simp) fun token p₁ h₁ => ?_
  refine typedInitializer_reads hty hinit h₁ fun ty' init' p₂ hty' hinit' h₂ => ?_
  refine simpleSpan_reads h₂ fun span' p₃ h₃ => parses_pure ⟨?_, h₃⟩
  simp [Global.strip, hty', hinit', hvalue]

theorem parameter_reads {depth : ℕ} {param : Param} (hparam : param.ty.Printable)
    {rest : List TokenKind} (hrest : rest.headD .eof ≠ .colonColon)
    (h : p.At structs scopes (param.tokens ++ rest)) :
    Parses (parameter depth) p fun param' p' =>
      param'.strip = param.strip ∧ p'.At structs scopes rest := by
  refine h.identifier fun span p₁ h₁ => h₁.expect (by simp) fun token p₂ h₂ => ?_
  refine parses_bind _ (valueType_reads hparam depth hrest h₂) ?_
  rintro ty' p₃ ⟨hty, h₃⟩
  exact parses_pure ⟨by simp [Param.strip, hty], h₃⟩

theorem commaTokens_paramTokens (params : List Param) :
    paramTokens params = commaTokens (params.map Param.tokens) := by
  induction params with
  | nil => rfl
  | cons param params ih => cases params <;> simp_all [paramTokens, commaTokens]

theorem strip_names {params params' : List Param}
    (h : params'.map Param.strip = params.map Param.strip) :
    params'.map (·.name) = params.map (·.name) := by
  have hnames := congrArg (List.map (·.name)) h
  simpa [Function.comp_def, Param.strip] using hnames

/-- A named function from the end of its parameters on. -/
theorem functionBody_reads {depth : ℕ} {function : Function} (hfunction : function.Printable structs)
    (hkind : function.kind = .named) {start : Span} {params' : List Param}
    (hparams : params'.map Param.strip = function.params.map Param.strip) {rest : List TokenKind}
    (h : p.At structs [] (.rightParen :: .arrow :: (function.returnType.tokens ++
      .leftBrace :: (stmtTokens function.body ++ .rightBrace :: rest)))) :
    Parses (do
      let _ ← expect .rightParen "expected `)` after parameters"
      let _ ← expect .arrow "expected `->` and a return type after parameters"
      let returnType ← parseReturnType depth
      let (body, stop) ← blockWithBindings (params'.map (·.name)) (block depth)
      pure (⟨function.name, .named, params', returnType, body, start.merge stop⟩ : Function)) p
      fun function' p' => function'.strip = function.strip ∧ p'.At structs [] rest := by
  refine h.expect (by simp) fun token p₁ h₁ => h₁.expect (by simp) fun token p₂ h₂ => ?_
  refine parses_bind _ (returnType_reads hfunction.returnType depth (by simp) h₂) ?_
  rintro returnType' p₃ ⟨hreturn, h₃⟩
  have hbody : stmtsPrintable structs (params'.map (·.name) ++ List.flatten [])
      function.body := by
    rw [strip_names hparams, List.flatten_nil, List.append_nil]
    exact hfunction.body
  refine blockWithBindings_reads (block_reads depth) hbody h₃ fun body' stop p₄ hbody' h₄ =>
    parses_pure ⟨?_, h₄⟩
  simp [Function.strip, hkind, hparams, hreturn, hbody']

theorem namedFunction_reads {depth : ℕ} {function : Function}
    (hfunction : function.Printable structs) (hkind : function.kind = .named)
    {rest : List TokenKind} (h : p.At structs [] (function.tokens ++ rest)) :
    Parses (parseNamedFunction depth) p fun function' p' =>
      function'.strip = function.strip ∧ p'.At structs [] rest := by
  simp only [Function.tokens, hkind, blockTokens, List.cons_append, List.append_assoc] at h
  refine h.expect (by simp) fun start p₁ h₁ => h₁.identifier fun span p₂ h₂ => ?_
  refine h₂.expect (by simp) fun token p₃ h₃ => ?_
  by_cases hnil : function.params = []
  · rw [hnil] at h₃
    exact h₃.isAt_true (parses_pure_bind (functionBody_reads hfunction hkind (by simp [hnil]) h₃))
  · have hhead : ∀ tail, (paramTokens function.params ++ tail).headD .eof ≠ .rightParen := by
      obtain ⟨param, params, hparams⟩ := List.exists_cons_of_ne_nil hnil
      rw [hparams]
      cases params <;> simp [paramTokens, Param.tokens]
    refine h₃.isAt_false (hhead _) ?_
    rw [commaTokens_paramTokens] at h₃
    refine h₃.remaining (parses_bind _ (commaList_reads Param.strip _ (by simp) _ hnil
      (fun _ _ _ _ _ => rfl) ?_ ?_ h₃)
      fun params' p₄ h₄ => functionBody_reads hfunction hkind h₄.1 h₄.2)
    · intro param hparam rest' q hrest' hq
      refine parameter_reads (hfunction.params param hparam) ?_ hq
      rcases hrest' with hkind' | hkind' <;>
      · rw [hkind']
        simp
    · have hlength := length_le_commaTokens (function.params.map Param.tokens)
      rw [List.length_map] at hlength
      rw [List.length_append]
      omega

/-- The body of `start`, `update` or `draw`, and the function that is made of it. -/
theorem hookBody_reads {depth : ℕ} {bindings : List String} {function : Function}
    (hbody : stmtsPrintable structs bindings function.body) {make : Block × Span → Function}
    (hmake : ∀ body span, stripBlock body = stripBlock function.body →
      (make (body, span)).strip = function.strip) {rest : List TokenKind}
    (h : p.At structs [] (blockTokens function.body ++ rest)) :
    Parses (blockWithBindings bindings (block depth) >>= fun result => pure (make result)) p
      fun function' p' => function'.strip = function.strip ∧ p'.At structs [] rest := by
  simp only [blockTokens, List.cons_append, List.append_assoc] at h
  have hbody' : stmtsPrintable structs (bindings ++ List.flatten []) function.body := by
    rwa [List.flatten_nil, List.append_nil]
  exact blockWithBindings_reads (block_reads depth) hbody' h fun body' stop p₁ hstrip h₁ =>
    parses_pure ⟨hmake _ _ hstrip, h₁⟩

theorem start_reads {depth : ℕ} {function : Function} (hfunction : function.Printable structs)
    (hkind : function.kind = .start) {rest : List TokenKind}
    (h : p.At structs [] (function.tokens ++ rest)) :
    Parses (parseStart depth) p fun function' p' =>
      function'.strip = function.strip ∧ p'.At structs [] rest := by
  obtain ⟨shape, -, -, body⟩ := hfunction
  simp only [Function.HasShape, hkind] at shape
  simp only [Function.tokens, hkind, List.cons_append] at h
  rw [shape.2.1] at body
  refine h.expect (by simp) fun token p₁ h₁ => hookBody_reads body (fun body' span hstrip => ?_) h₁
  simp [Function.strip, hkind, shape, hstrip]

theorem draw_reads {depth : ℕ} {function : Function} (hfunction : function.Printable structs)
    (hkind : function.kind = .draw) {rest : List TokenKind}
    (h : p.At structs [] (function.tokens ++ rest)) :
    Parses (parseDraw depth) p fun function' p' =>
      function'.strip = function.strip ∧ p'.At structs [] rest := by
  obtain ⟨shape, -, -, body⟩ := hfunction
  simp only [Function.HasShape, hkind] at shape
  simp only [Function.tokens, hkind, List.cons_append] at h
  rw [shape.2.1] at body
  refine h.expect (by simp) fun token p₁ h₁ => hookBody_reads body (fun body' span hstrip => ?_) h₁
  simp [Function.strip, hkind, shape, hstrip]

theorem update_reads {depth : ℕ} {function : Function} (hfunction : function.Printable structs)
    (hkind : function.kind = .update) {rest : List TokenKind}
    (h : p.At structs [] (function.tokens ++ rest)) :
    Parses (parseUpdate depth) p fun function' p' =>
      function'.strip = function.strip ∧ p'.At structs [] rest := by
  obtain ⟨shape, params, -, body⟩ := hfunction
  simp only [Function.HasShape, hkind] at shape
  obtain ⟨hname, ⟨param, hparams⟩, hreturn⟩ := shape
  rw [hparams] at params body
  simp only [Function.tokens, hkind, hparams, paramTokens, Param.tokens, List.cons_append,
    List.append_assoc] at h
  refine h.expect (by simp) fun start p₁ h₁ => h₁.expect (by simp) fun token p₂ h₂ => ?_
  refine h₂.identifier fun span p₃ h₃ => h₃.expect (by simp) fun token p₄ h₄ => ?_
  refine parses_bind _ (valueType_reads (params param (by simp)) depth (by simp) h₄) ?_
  rintro ty' p₅ ⟨hty, h₅⟩
  refine h₅.expect (by simp) fun token p₆ h₆ => hookBody_reads body (fun body' span hstrip => ?_) h₆
  simp [Function.strip, hkind, hname, hparams, hreturn, Param.strip, hty, hstrip]

/-! ## Files -/

theorem declaration_dispatch {root : Bool} {program : Program} {kind : TokenKind}
    (h : p.At structs scopes (kind :: kinds)) (hresolution : kind ≠ .identifier "resolution")
    (hroot : root = false → isRootOnly kind = false) {post : Program → Parser → Prop}
    (hk : Parses (declarationAt program kind) p post) :
    Parses (declaration root program) p post := by
  refine parses_get ?_
  have hcurrent : p.current.kind = kind := h.current_kind
  have hat : p.atResolution = false := by simpa [atResolution, hcurrent] using hresolution
  rw [hat, hcurrent, if_neg (by simp), if_neg]
  · exact hk
  · cases root with
    | true => simp
    | false => simp [hroot rfl]

/-- The declarations of a function, where only the root file has `start`, `update` and `draw`. -/
theorem function_read {root : Bool} {program : Program} {function : Function}
    (hfunction : function.Printable structs) (hroot : root = false → function.kind = .named)
    {rest : List TokenKind} (h : p.At structs [] (function.tokens ++ rest)) :
    Parses (declaration root program) p fun program' p' => program'.strip =
      { program.strip with functions := program.strip.functions ++ [function.strip] } ∧
        p'.At structs [] rest := by
  have hpush : ∀ function' p', function'.strip = function.strip ∧ p'.At structs [] rest →
      Parses (pure { program with functions := program.functions ++ [function'] }) p'
        fun program' p' => program'.strip =
          { program.strip with functions := program.strip.functions ++ [function.strip] } ∧
            p'.At structs [] rest := by
    rintro function' p' ⟨hstrip, hp'⟩
    exact parses_pure ⟨by simp [Program.strip, hstrip], hp'⟩
  cases hkind : function.kind with
  | named =>
    have hp := h
    simp only [Function.tokens, hkind, List.cons_append] at hp
    refine declaration_dispatch hp (by simp) (fun _ => rfl) ?_
    exact parses_bind _ (namedFunction_reads hfunction hkind h) hpush
  | start =>
    have hp := h
    simp only [Function.tokens, hkind, List.cons_append] at hp
    refine declaration_dispatch hp (by simp) (fun hfalse => ?_) ?_
    · simp [hroot hfalse] at hkind
    · exact parses_bind _ (start_reads hfunction hkind h) hpush
  | update =>
    have hp := h
    simp only [Function.tokens, hkind, List.cons_append] at hp
    refine declaration_dispatch hp (by simp) (fun hfalse => ?_) ?_
    · simp [hroot hfalse] at hkind
    · exact parses_bind _ (update_reads hfunction hkind h) hpush
  | draw =>
    have hp := h
    simp only [Function.tokens, hkind, List.cons_append] at hp
    refine declaration_dispatch hp (by simp) (fun hfalse => ?_) ?_
    · simp [hroot hfalse] at hkind
    · exact parses_bind _ (draw_reads hfunction hkind h) hpush

/-- A group of declarations, one turn of the loop each. `push` is the program with what the group
has added so far. -/
theorem declarations_read {α γ : Type} {root : Bool} (tokens : α → List TokenKind) (strip : α → γ)
    (push : List γ → Program) (as : List α)
    (hread : ∀ a ∈ as, ∀ cs program rest p, program.strip = push cs →
      p.At structs [] (tokens a ++ rest) →
      Parses (declaration root program) p fun program' p' =>
        program'.strip = push (cs ++ [strip a]) ∧ p'.At structs [] rest)
    (hhead : ∀ a, ∃ head tail, tokens a = head :: tail ∧ head ≠ .eof) {rest : List TokenKind}
    {fuel : ℕ} {program : Program} {cs : List γ} (hprogram : program.strip = push cs)
    (hfuel : (as.flatMap tokens ++ rest).length < fuel)
    (h : p.At structs [] (as.flatMap tokens ++ rest)) {post : Program → Parser → Prop}
    (hk : ∀ fuel program' p', rest.length < fuel → program'.strip = push (cs ++ as.map strip) →
      p'.At structs [] rest → Parses (declarations root fuel program') p' post) :
    Parses (declarations root fuel program) p post := by
  induction as generalizing p fuel program cs with
  | nil => exact hk fuel program p hfuel (by simpa using hprogram) h
  | cons a as ih =>
    obtain ⟨head, tail, htokens, heof⟩ := hhead a
    obtain _ | fuel := fuel
    · simp at hfuel
    simp only [List.flatMap_cons, List.append_assoc] at h hfuel
    unfold declarations
    refine h.isAt_false (by simpa [htokens] using heof) ?_
    refine parses_bind _ (hread a (by simp) cs program _ p hprogram h) ?_
    rintro program' p' ⟨hstrip, hp'⟩
    refine ih (fun b hb => hread b (by simp [hb])) hstrip ?_ hp' ?_
    · rw [htokens, List.length_append, List.length_cons] at hfuel
      omega
    · simpa using hk

/-! ## The names of the structs -/

/-- `declaredStructNames`, over the kinds of the tokens. -/
def structNamesOf : List TokenKind → List String
  | .struct :: .identifier name :: kinds => name :: structNamesOf (.identifier name :: kinds)
  | _ :: kinds => structNamesOf kinds
  | [] => []

theorem declaredStructNames_eq (tokens : List Token) :
    declaredStructNames tokens = structNamesOf (tokens.map (·.kind)) := by
  fun_induction declaredStructNames tokens with
  | case1 first second tokens name hsecond hfirst ih =>
    rw [List.map_cons, hsecond] at ih
    rw [List.map_cons, List.map_cons, hfirst, hsecond, structNamesOf, ih]
  | case2 first second tokens hne ih =>
    rw [List.map_cons, structNamesOf, ih]
    intro name kinds hfirst htail
    exact hne name hfirst (List.cons.inj htail).1
  | case3 tokens hne =>
    obtain _ | ⟨first, _ | ⟨second, tokens⟩⟩ := tokens
    · rfl
    · rw [List.map_cons, structNamesOf]
      · rfl
      · simp
    · exact absurd rfl (hne first second tokens)

theorem structNamesOf_append {kinds : List TokenKind} (h : .struct ∉ kinds)
    (rest : List TokenKind) : structNamesOf (kinds ++ rest) = structNamesOf rest := by
  induction kinds with
  | nil => rfl
  | cons kind kinds ih =>
    simp only [List.mem_cons, not_or] at h
    rw [List.cons_append, structNamesOf, ih h.2]
    exact fun name kinds' hkind => absurd hkind.symm h.1

theorem struct_not_mem_nameTokens (name : String) : .struct ∉ nameTokens name := by
  rcases nameTokens_cases name with h | ⟨qualifier, member, h, -⟩ <;> simp [h]

theorem struct_not_mem_enclose {tokens : List TokenKind} (h : .struct ∉ tokens)
    (least level : ℕ) : .struct ∉ enclose least level tokens := by
  unfold enclose
  split <;> simp [h]

theorem struct_not_mem_commaTokens {items : List (List TokenKind)}
    (h : ∀ kinds ∈ items, .struct ∉ kinds) : .struct ∉ commaTokens items := by
  induction items with
  | nil => simp [commaTokens]
  | cons kinds more ih => cases more <;> simp_all [commaTokens]

theorem struct_not_mem_listTokens {es : List Expr} (h : ∀ e ∈ es, .struct ∉ e.tokens) :
    .struct ∉ listTokens es := by
  rw [commaTokens_listTokens]
  exact struct_not_mem_commaTokens (by simpa using h)

theorem struct_not_mem_fieldTokens {fields : List (FieldInitializer Expr)}
    (h : ∀ field ∈ fields, .struct ∉ field.value.tokens) : .struct ∉ fieldTokens fields := by
  induction fields with
  | nil => simp [fieldTokens]
  | cons field fields ih =>
    obtain ⟨name, value, span⟩ := field
    have hvalue : .struct ∉ value.tokens := h ⟨name, value, span⟩ (by simp)
    have hfields := ih fun field hmem => h field (by simp [hmem])
    rw [fieldTokens_cons]
    split <;> simp [hvalue, hfields]

theorem struct_not_mem_expr {bound : List String} {e : Expr} (he : e.Printable structs bound) :
    .struct ∉ e.tokens := by
  induction he with
  | @intro e named parts ih =>
    cases e with
    | arrayLiteral elements span =>
      have helements : .struct ∉ listTokens elements := struct_not_mem_listTokens ih
      simp [Expr.tokens, helements]
    | structLiteral name fields span =>
      have hfields : .struct ∉ fieldTokens fields := struct_not_mem_fieldTokens fun field hfield =>
        ih _ (List.mem_map_of_mem hfield)
      simp [Expr.tokens, struct_not_mem_nameTokens, hfields]
    | var name span => exact struct_not_mem_nameTokens name
    | index base subscript span =>
      have hbase := struct_not_mem_enclose (ih base (by simp [Expr.parts])) 8 base.level
      have hsubscript := ih subscript (by simp [Expr.parts])
      simp [Expr.tokens, hbase, hsubscript]
    | field base name nameSpan span =>
      have hbase := struct_not_mem_enclose (ih base (by simp [Expr.parts])) 8 base.level
      simp [Expr.tokens, hbase]
    | unary op operand span =>
      have hoperand := struct_not_mem_enclose (ih operand (by simp [Expr.parts])) 7 operand.level
      cases op <;> simp [Expr.tokens, UnaryOp.kind, hoperand]
    | binary left op right span =>
      have hleft := struct_not_mem_enclose (ih left (by simp [Expr.parts])) op.level left.level
      have hright := struct_not_mem_enclose (ih right (by simp [Expr.parts])) (op.level + 1)
        right.level
      have hop : .struct ≠ op.kind := by cases op <;> simp [BinaryOp.kind]
      simp [Expr.tokens, hleft, hright, hop]
    | call name args span =>
      have hargs : .struct ∉ listTokens args := struct_not_mem_listTokens ih
      simp [Expr.tokens, struct_not_mem_nameTokens, hargs]
    | conversion target args span =>
      have hkind : .struct ≠ target.kind := by
        rcases NumericType.cases target with rfl | rfl <;> simp [NumericType.kind]
      have hargs : .struct ∉ listTokens args := struct_not_mem_listTokens ih
      simp [Expr.tokens, hkind, hargs]
    | bool value span => cases value <;> simp [Expr.tokens]
    | i32 value span | f32 value span => simp [Expr.tokens]

theorem struct_not_mem_type (ty : ValueType) : .struct ∉ ty.tokens := by
  induction ty with
  | struct name => exact struct_not_mem_nameTokens name
  | array element length ih =>
    have hlength : .struct ∉ length.tokens := by
      cases length with
      | literal value span =>
        rw [ArrayLength.tokens]
        split <;> simp
      | constant name span => exact struct_not_mem_nameTokens name
      | resolved n | invalid => simp [ArrayLength.tokens]
    simp [ValueType.tokens, ih, hlength]
  | _ => simp [ValueType.tokens]

theorem struct_not_mem_initializer {bound : List String} {name : String} {ty : ValueType}
    {init : Expr} (h : init.Printable structs bound) :
    .struct ∉ initializerTokens name ty init := by
  simp [initializerTokens, struct_not_mem_type, struct_not_mem_expr h]

mutual

theorem struct_not_mem_stmt {bound : List String} (s : Stmt) (hs : s.Printable structs bound) :
    .struct ∉ s.tokens := by
  cases s with
  | letVar name ty init span => simp [Stmt.tokens, struct_not_mem_initializer hs.2]
  | assign target op value span =>
    have hop : .struct ≠ op.kind := by cases op <;> simp [AssignOp.kind]
    simp [Stmt.tokens, struct_not_mem_expr hs.1, struct_not_mem_expr hs.2, hop]
  | expr e span => simp [Stmt.tokens, struct_not_mem_expr hs]
  | ifElse condition thenBlock elseBlock span =>
    obtain ⟨hcondition, hthen, helse⟩ := hs
    simp [Stmt.tokens, struct_not_mem_expr hcondition, struct_not_mem_stmts thenBlock hthen,
      struct_not_mem_else elseBlock helse]
  | whileLoop condition body span =>
    simp [Stmt.tokens, struct_not_mem_expr hs.1, struct_not_mem_stmts body hs.2]
  | forLoop name nameSpan lower upper body span =>
    obtain ⟨hlower, hupper, hbody⟩ := hs
    simp [Stmt.tokens, struct_not_mem_expr hlower, struct_not_mem_expr hupper,
      struct_not_mem_stmts body hbody]
  | ret value span =>
    cases value with
    | none => simp [Stmt.tokens]
    | some value => simp [Stmt.tokens, struct_not_mem_expr hs]

theorem struct_not_mem_stmts {bound : List String} (ss : List Stmt)
    (hss : stmtsPrintable structs bound ss) : .struct ∉ stmtTokens ss := by
  cases ss with
  | nil => simp [stmtTokens]
  | cons s ss =>
    simp [stmtTokens, struct_not_mem_stmt s hss.1, struct_not_mem_stmts ss hss.2]

theorem struct_not_mem_else {bound : List String} (block : Option (List Stmt))
    (hblock : elsePrintable structs bound block) : .struct ∉ elseTokens block := by
  cases block with
  | none => simp [elseTokens]
  | some block => simp [elseTokens, struct_not_mem_stmts block hblock]

end

theorem struct_not_mem_flatMap {α : Type} {tokens : α → List TokenKind} {as : List α}
    (h : ∀ a ∈ as, .struct ∉ tokens a) : .struct ∉ as.flatMap tokens := by
  simpa using h

theorem struct_not_mem_params (params : List Param) : .struct ∉ paramTokens params := by
  rw [commaTokens_paramTokens]
  refine struct_not_mem_commaTokens fun kinds hkinds => ?_
  obtain ⟨param, -, rfl⟩ := List.mem_map.mp hkinds
  simp [Param.tokens, struct_not_mem_type]

theorem struct_not_mem_function {function : Function} (h : function.Printable structs) :
    .struct ∉ function.tokens := by
  have hbody : .struct ∉ blockTokens function.body := by
    simp [blockTokens, struct_not_mem_stmts function.body h.body]
  have hreturn : .struct ∉ function.returnType.tokens := by
    cases function.returnType with
    | void => simp [ReturnType.tokens]
    | value ty => exact struct_not_mem_type ty
  unfold Function.tokens
  cases function.kind <;> simp [struct_not_mem_params, hbody, hreturn]

/-- Every struct adds its name. -/
theorem structNamesOf_structs (decls : List StructDecl) (rest : List TokenKind) :
    structNamesOf (decls.flatMap StructDecl.tokens ++ rest) =
      decls.map (·.name) ++ structNamesOf rest := by
  induction decls with
  | nil => rfl
  | cons decl decls ih =>
    have hfields : .struct ∉ TokenKind.identifier decl.name :: .leftBrace ::
        (decl.fields.flatMap StructField.tokens ++ [.rightBrace]) := by
      simp [StructField.tokens, struct_not_mem_type]
    have htokens := structNamesOf_append hfields (decls.flatMap StructDecl.tokens ++ rest)
    simp only [List.flatMap_cons, StructDecl.tokens, List.cons_append, List.append_assoc,
      List.map_cons] at htokens ih ⊢
    rw [structNamesOf, htokens, ih]

/-- The names that the parser collects from a printed file are those of its structs. -/
theorem structNamesOf_tokens {root : Bool} {imported : List String} {program : Program}
    (h : program.Printable root imported) :
    structNamesOf (program.tokens root) = program.structs.map (·.name) := by
  have hheader : .struct ∉ (if root then headerTokens program.title program.resolution else []) := by
    cases root <;> simp [headerTokens]
  have hsounds : .struct ∉ program.sounds.flatMap SoundAsset.tokens :=
    struct_not_mem_flatMap fun sound _ => by simp [SoundAsset.tokens]
  have hconstants : .struct ∉ program.constants.flatMap Constant.tokens :=
    struct_not_mem_flatMap fun constant hmem => by
      simp [Constant.tokens, struct_not_mem_initializer (h.constants constant hmem).2.2]
  have hglobals : .struct ∉ program.globals.flatMap Global.tokens :=
    struct_not_mem_flatMap fun global hmem => by
      simp [Global.tokens, struct_not_mem_initializer (h.globals global hmem).2.2]
  have hfunctions : .struct ∉ program.functions.flatMap Function.tokens :=
    struct_not_mem_flatMap fun function hmem => struct_not_mem_function (h.functions function hmem)
  unfold Program.tokens Program.declarationTokens
  simp only [List.append_assoc]
  rw [structNamesOf_append hheader, structNamesOf_structs, structNamesOf_append hsounds,
    structNamesOf_append hconstants, structNamesOf_append hglobals,
    structNamesOf_append hfunctions]
  exact List.append_nil _

/-! ## The header -/

theorem resolutionDimension_reads {name : String} {value : ℕ} (hvalue : 1 ≤ value ∧ value ≤ 4096)
    (h : p.At structs scopes (.integer value :: kinds))
    {k : {value : ℕ // 1 ≤ value ∧ value ≤ 4096} → ParseM β}
    (hk : ∀ p', p'.At structs scopes kinds → Parses (k ⟨value, hvalue⟩) p' post) :
    Parses (resolutionDimension name >>= k) p post := by
  refine parses_bind (fun result p' => result = ⟨value, hvalue⟩ ∧ p'.At structs scopes kinds) ?_ ?_
  · refine h.advance (by simp) fun token p₁ htoken h₁ => ?_
    rw [htoken]
    have hmem : 1 ≤ (value : ℤ).toNat ∧ (value : ℤ).toNat ≤ 4096 := by simpa using hvalue
    dsimp only
    rw [dif_pos hmem]
    exact parses_pure ⟨by simp, h₁⟩
  · rintro _ p' ⟨rfl, hp'⟩
    exact hk p' hp'

theorem header_reads {title : String} {resolution : Resolution} {rest : List TokenKind}
    (h : p.At structs scopes (headerTokens title resolution ++ rest))
    {k : String × Span × Resolution → ParseM β}
    (hk : ∀ span p', p'.At structs scopes rest → Parses (k (title, span, resolution)) p' post) :
    Parses (header >>= k) p post := by
  refine parses_bind (fun result p' => result.1 = title ∧ result.2.2 = resolution ∧
    p'.At structs scopes rest) ?_ ?_
  · refine h.expect (by simp) fun token p₁ h₁ => ?_
    refine h₁.advance (by simp) fun token p₂ htoken h₂ => ?_
    rw [htoken]
    refine parses_get ?_
    have hat : p₂.atResolution = true := by simp [atResolution, h₂.current_kind]
    rw [if_pos hat]
    refine parses_bind (fun result p' => result = resolution ∧
      p'.At structs scopes (.semicolon :: rest)) ?_ ?_
    · refine h₂.advance (by simp) fun token p₃ _ h₃ => h₃.expect (by simp) fun token p₄ h₄ => ?_
      refine resolutionDimension_reads resolution.width_mem h₄ fun p₅ h₅ => ?_
      refine h₅.expect (by simp) fun token p₆ h₆ => ?_
      refine resolutionDimension_reads resolution.height_mem h₆ fun p₇ h₇ => ?_
      exact h₇.expect (by simp) fun token p₈ h₈ => parses_pure ⟨rfl, h₈⟩
    · rintro _ p₃ ⟨rfl, h₃⟩
      exact h₃.take (by simp) fun taken p₄ h₄ => parses_pure ⟨rfl, rfl, h₄⟩
  · rintro ⟨_, span, _⟩ p' ⟨rfl, rfl, hp'⟩
    exact hk span p' hp'

/-! ## Programs -/

/-- The declarations of a program, after its header. -/
theorem programDeclarations_read {root : Bool} {imported : List String} {program : Program}
    (hprogram : program.Printable root imported) {start : Program}
    (hstart : start.strip = ⟨program.resolution, program.title, default, [], [], [], [], []⟩)
    {fuel : ℕ} (hfuel : (program.declarationTokens ++ [TokenKind.eof]).length < fuel)
    (h : p.At (program.structs.map (·.name) ++ imported) []
      (program.declarationTokens ++ [.eof])) :
    Parses (declarations root fuel start) p fun program' _ => program'.strip = program.strip := by
  unfold Program.declarationTokens at h hfuel
  simp only [List.append_assoc] at h hfuel
  refine declarations_read StructDecl.tokens StructDecl.strip
    (fun ds => ⟨program.resolution, program.title, default, ds, [], [], [], []⟩) program.structs
    (fun decl hdecl ds current rest q hcurrent hq => ?_) (fun _ => ⟨_, _, rfl, by simp⟩) hstart hfuel
    h fun fuel₁ program₁ p₁ hfuel₁ hstrip₁ h₁ => ?_
  · refine declaration_dispatch hq (by simp) (fun _ => rfl) ?_
    refine parses_bind _ (struct_reads (hprogram.structs decl hdecl) hq) ?_
    rintro decl' q' ⟨hdecl', hq'⟩
    simp only [Program.strip, Program.mk.injEq] at hcurrent
    exact parses_pure ⟨by simp [Program.strip, hcurrent, hdecl'], hq'⟩
  refine declarations_read SoundAsset.tokens SoundAsset.strip
    (fun sounds => ⟨program.resolution, program.title, default,
      program.structs.map StructDecl.strip, sounds, [], [], []⟩) program.sounds
    (fun sound hsound sounds current rest q hcurrent hq => ?_) (fun _ => ⟨_, _, rfl, by simp⟩)
    hstrip₁ hfuel₁ h₁ fun fuel₂ program₂ p₂ hfuel₂ hstrip₂ h₂ => ?_
  · refine declaration_dispatch hq (by simp) (fun _ => rfl) ?_
    refine parses_bind _ (sound_reads (hprogram.sounds sound hsound) hq) ?_
    rintro sound' q' ⟨hsound', hq'⟩
    simp only [Program.strip, Program.mk.injEq] at hcurrent
    exact parses_pure ⟨by simp [Program.strip, hcurrent, hsound'], hq'⟩
  refine declarations_read Constant.tokens Constant.strip
    (fun constants => ⟨program.resolution, program.title, default,
      program.structs.map StructDecl.strip, program.sounds.map SoundAsset.strip, constants, [], []⟩)
    program.constants
    (fun constant hconstant constants current rest q hcurrent hq => ?_)
    (fun _ => ⟨_, _, rfl, by simp⟩) hstrip₂ hfuel₂ h₂ fun fuel₃ program₃ p₃ hfuel₃ hstrip₃ h₃ => ?_
  · obtain ⟨hvalue, hty, hinit⟩ := hprogram.constants constant hconstant
    refine declaration_dispatch hq (by simp) (fun _ => rfl) ?_
    refine parses_bind _ (constant_reads hvalue hty hinit hq) ?_
    rintro constant' q' ⟨hconstant', hq'⟩
    simp only [Program.strip, Program.mk.injEq] at hcurrent
    exact parses_pure ⟨by simp [Program.strip, hcurrent, hconstant'], hq'⟩
  refine declarations_read Global.tokens Global.strip
    (fun globals => ⟨program.resolution, program.title, default,
      program.structs.map StructDecl.strip, program.sounds.map SoundAsset.strip,
      program.constants.map Constant.strip, globals, []⟩) program.globals
    (fun global hglobal globals current rest q hcurrent hq => ?_)
    (fun _ => ⟨_, _, rfl, by simp⟩) hstrip₃ hfuel₃ h₃ fun fuel₄ program₄ p₄ hfuel₄ hstrip₄ h₄ => ?_
  · obtain ⟨hvalue, hty, hinit⟩ := hprogram.globals global hglobal
    refine declaration_dispatch hq (by simp) (fun _ => rfl) ?_
    refine parses_bind _ (global_reads hvalue hty hinit hq) ?_
    rintro global' q' ⟨hglobal', hq'⟩
    simp only [Program.strip, Program.mk.injEq] at hcurrent
    exact parses_pure ⟨by simp [Program.strip, hcurrent, hglobal'], hq'⟩
  refine declarations_read Function.tokens Function.strip
    (fun functions => ⟨program.resolution, program.title, default,
      program.structs.map StructDecl.strip, program.sounds.map SoundAsset.strip,
      program.constants.map Constant.strip, program.globals.map Global.strip, functions⟩)
    program.functions
    (fun function hfunction functions current rest q hcurrent hq => ?_)
    (fun function => ?_) hstrip₄ hfuel₄ h₄ fun fuel₅ program₅ p₅ hfuel₅ hstrip₅ h₅ => ?_
  · refine (function_read (hprogram.functions function hfunction)
      (fun hroot => (hprogram.header hroot).2.2 function hfunction) hq).mono ?_
    rintro program' q' ⟨hstrip, hq'⟩
    exact ⟨by rw [hstrip, hcurrent], hq'⟩
  · unfold Function.tokens
    cases function.kind <;> exact ⟨_, _, rfl, by simp⟩
  obtain _ | fuel₅ := fuel₅
  · simp at hfuel₅
  unfold declarations
  refine h₅.isAt_true (parses_pure ?_)
  rw [hstrip₅]
  rfl

theorem run_reads {root : Bool} {imported : List String} {program : Program}
    (hprogram : program.Printable root imported)
    (h : p.At (program.structs.map (·.name) ++ imported) [] (program.tokens root)) :
    Parses (run root) p fun program' _ => program'.strip = program.strip := by
  unfold Program.tokens at h
  cases root with
  | true =>
    rw [if_pos rfl, List.append_assoc] at h
    refine header_reads h fun span p₁ h₁ => h₁.remaining ?_
    exact programDeclarations_read hprogram (by simp [Program.strip]) (Nat.lt_succ_self _) h₁
  | false =>
    obtain ⟨htitle, hresolution, -⟩ := hprogram.header rfl
    simp only [Bool.false_eq_true, if_false, List.nil_append] at h
    refine parses_get (parses_pure_bind (h.remaining ?_))
    refine programDeclarations_read hprogram ?_ (Nat.lt_succ_self _) h
    simp [Program.strip, htitle, hresolution]

end Parser

/-- The tokens that are printed for a program are parsed to that program, up to spans, unless the
parser reports its nesting limit. -/
theorem parseFile_tokens (program : Program) (root : Bool) (imported : List String)
    (hprogram : program.Printable root imported) (tokens : List Token)
    (htokens : tokens.map (·.kind) = program.tokens root) :
    (∃ span, parseFile tokens root imported = .error [⟨Parser.limitMessage, span⟩]) ∨
      ∃ program', parseFile tokens root imported = .ok program' ∧
        program'.strip = program.strip := by
  have hnames : declaredStructNames tokens = program.structs.map (·.name) := by
    rw [Parser.declaredStructNames_eq, htokens, Parser.structNamesOf_tokens hprogram]
  have hrun := Parser.run_reads hprogram
    (p := ⟨tokens, declaredStructNames tokens ++ imported, []⟩) ⟨htokens, by rw [hnames], rfl⟩
  unfold Parser.Parses at hrun
  unfold parseFile StateT.run
  cases hresult : Parser.run root ⟨tokens, declaredStructNames tokens ++ imported, []⟩ with
  | error diagnostic =>
    obtain ⟨message, span⟩ := diagnostic
    rw [hresult] at hrun
    obtain rfl : message = Parser.limitMessage := hrun
    exact .inl ⟨span, rfl⟩
  | ok result =>
    rw [hresult] at hrun
    exact .inr ⟨result.1, rfl, hrun⟩

/-- `if n < P { x: -(n - 1) }.x { return n; }`, for a struct `P` and a parameter `n`. -/
def headSample : Stmt :=
  let n := Expr.var "n" default
  let difference := Expr.binary n .subtract (.i32 1 default) default
  let point := Expr.structLiteral "P" [⟨"x", .unary .negate difference default, default⟩] default
  .ifElse (.binary n .less (.field point "x" default default) default) [.ret (some n) default] none
    default

def printSample : Program :=
  ⟨.default, "sample", default, [⟨"P", [⟨"x", .i32, default⟩], default⟩], [], [], [],
    [⟨"f", .named, [⟨"n", .i32, default⟩], .void, [headSample], default⟩]⟩

theorem headSample_printable : headSample.Printable ["P"] ["n"] := by
  have hn : (Expr.var "n" default).Printable ["P"] ["n"] :=
    .intro (by simp [Expr.Named]) (by simp [Expr.parts])
  have hone : (Expr.i32 1 default).Printable ["P"] ["n"] := .intro trivial (by simp [Expr.parts])
  have hbinary : ∀ {left op right}, left.Printable ["P"] ["n"] → right.Printable ["P"] ["n"] →
      (Expr.binary left op right default).Printable ["P"] ["n"] :=
    fun hleft hright => .intro trivial (by simp [Expr.parts, hleft, hright])
  have hpoint : ∀ {e}, e.Printable ["P"] ["n"] →
      (Expr.structLiteral "P" [⟨"x", .unary .negate e default, default⟩] default).Printable
        ["P"] ["n"] := by
    refine fun {e} he => .intro (by simp [Expr.Named]) ?_
    have hnegated : (Expr.unary .negate e default).Printable ["P"] ["n"] :=
      .intro trivial (by simp [Expr.parts, he])
    simpa [Expr.parts] using hnegated
  have hfield : ∀ {e}, e.Printable ["P"] ["n"] →
      (Expr.field e "x" default default).Printable ["P"] ["n"] :=
    fun he => .intro trivial (by simp [Expr.parts, he])
  exact ⟨hbinary hn (hfield (hpoint (hbinary hn hone))), ⟨hn, trivial⟩, trivial⟩

theorem parseFile_tokens_sample :
    (∃ span, parseFile ((printSample.tokens true).map (⟨·, default⟩)) true [] =
      .error [⟨Parser.limitMessage, span⟩]) ∨
    ∃ program', parseFile ((printSample.tokens true).map (⟨·, default⟩)) true [] = .ok program' ∧
      program'.strip = printSample.strip := by
  refine parseFile_tokens printSample true [] ⟨by simp, ?_, ?_, ?_, ?_, ?_⟩ _
    (by simp [Function.comp_def])
  · simp [printSample, ValueType.Printable]
  · simp [printSample]
  · simp [printSample]
  · simp [printSample]
  · intro function hfunction
    obtain rfl := List.mem_singleton.mp hfunction
    exact ⟨trivial, by simp [ValueType.Printable], trivial, ⟨headSample_printable, trivial⟩⟩

end Speck
