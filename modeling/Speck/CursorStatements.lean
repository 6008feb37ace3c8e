import Speck.CursorExpressions
import Speck.ResolvedTypes

/-!
# Types and statements on the token vector

The types, the statements and the blocks of the two parsers agree, and no path from a block is
longer than the levels of nesting that were left to it (`block_agree`). A statement finds a scope to
bind in, since a block opens one.
-/

namespace Speck

open Speck.Parser (maxNesting assignOp)

/-! ## What they leave -/

structure ValueType.Good (limit : ℕ) (covers : Span → Prop) (ty : ValueType) : Prop where
  within : ty.Within limit
  written : ty.isWritten
  spans : ∀ span ∈ ty.spans, covers span

/-- A type that is no deeper than the limit, with its lengths as they are written. -/
structure ValueType.Fits (ty : ValueType) : Prop where
  within : ty.Within maxNesting
  written : ty.isWritten

theorem ValueType.Good.fits {covers : Span → Prop} {ty : ValueType} (h : ty.Good maxNesting covers) :
    ty.Fits := ⟨h.within, h.written⟩

structure Stmt.Good (limit : ℕ) (covers : Span → Prop) (statement : Stmt) : Prop where
  parts : ∀ node ∈ statement.parts, node.Within limit
  types : ∀ ty ∈ statement.types, ty.Fits
  spans : ∀ span ∈ statement.spans, covers span

/-- A block with the span of its closing brace. -/
structure GoodBlock (limit : ℕ) (covers : Span → Prop) (result : Block × Span) : Prop where
  within : SyntaxNode.Within limit (.block result.1)
  types : ∀ ty ∈ blockTypes result.1, ty.Fits
  spans : ∀ span ∈ blockSpans result.1, covers span
  stop : covers result.2

theorem ValueType.Good.grows (limit : ℕ) : Grows (ValueType.Good limit) :=
  fun hcovers _ h => ⟨h.within, h.written, fun span hspan => hcovers span (h.spans span hspan)⟩

theorem Stmt.Good.grows (limit : ℕ) : Grows (Stmt.Good limit) :=
  fun hcovers _ h => ⟨h.parts, h.types, fun span hspan => hcovers span (h.spans span hspan)⟩

theorem blockTypes_eq (statements : List Stmt) :
    blockTypes statements = statements.flatMap Stmt.types := by
  induction statements with
  | nil => rfl
  | cons statement statements ih => rw [blockTypes, ih, List.flatMap_cons]

/-- A block of good statements. -/
theorem GoodBlock.of_statements {limit : ℕ} {covers : Span → Prop} {statements : List Stmt}
    {stop : Span} (h : ∀ statement ∈ statements, statement.Good limit covers) (hstop : covers stop) :
    GoodBlock (limit + 1) covers (statements, stop) where
  within := SyntaxNode.within_block fun statement hmem => (h statement hmem).parts
  types := by
    intro ty hty
    rw [blockTypes_eq] at hty
    obtain ⟨statement, hmem, hty⟩ := List.mem_flatMap.mp hty
    exact (h statement hmem).types ty hty
  spans := by
    intro span hspan
    rw [blockSpans_eq] at hspan
    obtain ⟨statement, hmem, hspan⟩ := List.mem_flatMap.mp hspan
    exact (h statement hmem).spans span hspan
  stop := hstop

theorem GoodBlock.grows (limit : ℕ) : Grows (GoodBlock limit) :=
  fun hcovers _ h =>
    ⟨h.within, h.types, fun span hspan => hcovers span (h.spans span hspan), hcovers _ h.stop⟩

section

variable {α β : Type} {tokens done : List Token} {depth levels scopes scopes' total : ℕ}
  {R : List Token → α → β → Prop}

/-! ## Types -/

theorem arrayLength_agree :
    Agree 0 depth Cursor.arrayLength Parser.arrayLength
      fun covers length => length.isWritten ∧ ∀ span ∈ length.spans, covers span := by
  intro tokens scopes total _
  refine sim_take (by decide) (fun minus hminus => ?_) ?_
  · refine sim_advance (fun token hne => ?_) fun token heof hcovers => ?_
    · have hspan : Covers ([] ++ [minus] ++ [token]) token.span := (Covers.token token).append_right _
      obtain ⟨kind, span⟩ := token
      cases kind
      case integer value =>
        refine sim_pure ⟨rfl, by simp, ?_, rfl, List.forall_mem_singleton.mpr hspan⟩
        exact (Neutral.nil.append_token (by rw [hminus]; rfl)).append_token rfl
      all_goals exact sim_fail hspan
    · rw [heof]
      exact sim_fail_covers hcovers
  · refine sim_advance (fun token hne => ?_) fun token heof hcovers => ?_
    · have hspan : Covers ([] ++ [token]) token.span := .token token
      obtain ⟨kind, span⟩ := token
      cases kind
      case integer value =>
        exact sim_pure ⟨rfl, by simp, .token rfl, rfl, List.forall_mem_singleton.mpr hspan⟩
      case identifier name =>
        refine sim_qualifiedName hspan fun name span read hread hspan => ?_
        refine sim_pure ⟨rfl, by simp, ?_, rfl, List.forall_mem_singleton.mpr hspan⟩
        exact (Neutral.token rfl).append hread
      all_goals exact sim_fail hspan
    · rw [heof]
      exact sim_fail_covers hcovers

theorem ValueType.within_scalar {ty : ValueType} (h : ty.parts = []) (limit : ℕ) :
    ty.Within (limit + 1) := Speck.Within.of_targets (by simp [h])

theorem valueType_agree {element : CursorM ValueType} {element' : ParseM ValueType}
    (helement : Agree 0 depth element element' (ValueType.Good depth)) :
    Agree 0 depth (Cursor.valueType element) (Parser.valueType element')
      (ValueType.Good (depth + 1)) := by
  intro tokens scopes total _
  refine sim_advance (fun token hne => ?_) fun token heof hcovers => ?_
  · have hspan : Covers ([] ++ [token]) token.span := .token token
    obtain ⟨kind, span⟩ := token
    cases kind
    case i32 | f32 | bool =>
      exact sim_pure ⟨rfl, by simp, .token rfl, ValueType.within_scalar rfl depth, rfl, by
        simp [ValueType.spans]⟩
    case identifier name =>
      refine sim_qualifiedName hspan fun name span read hread _ => ?_
      exact sim_pure ⟨rfl, by simp, (Neutral.token rfl).append hread,
        ValueType.within_scalar rfl depth, rfl, by simp [ValueType.spans]⟩
    case leftBracket =>
      refine helement.bind (Nat.zero_le _) fun element read _ hread hgood => ?_
      refine sim_expect (by decide) fun semicolon hsemicolon => ?_
      refine arrayLength_agree.bind (Nat.zero_le _) fun length read' _ hread' hlength => ?_
      refine sim_expect (by decide) fun stop hstop => ?_
      refine sim_pure ⟨rfl, by simp, ?_, Speck.Within.of_targets ?_, ?_, ?_⟩
      · have hfirst : Neutral ([] ++ [⟨.leftBracket, span⟩] ++ read ++ [semicolon]) :=
          ((Neutral.token rfl).append hread).append_token (by rw [hsemicolon]; rfl)
        exact (hfirst.append hread').append_token (by rw [hstop]; rfl)
      · exact List.forall_mem_singleton.mpr hgood.within
      · rw [ValueType.isWritten, hlength.1, hgood.written]
        rfl
      · intro span hspan
        rcases List.mem_append.mp hspan with hs | hs
        · exact ((((hgood.spans span hs).append_right _).append_left [semicolon]).append_left
            read').append_left [stop]
        · exact ((hlength.2 span hs).append_right _).append_left [stop]
    all_goals exact sim_fail hspan
  · rw [heof]
    exact sim_fail_covers hcovers

theorem valueTypeIn_agree (hlevels : depth < levels) :
    Agree 0 depth (Cursor.valueTypeIn levels) (Parser.parseValueType depth)
      (ValueType.Good depth) := by
  induction depth generalizing levels with
  | zero =>
    obtain ⟨levels, rfl⟩ : ∃ n, levels = n + 1 := ⟨levels - 1, by omega⟩
    exact nested_zero_agree
  | succ depth ih =>
    obtain ⟨levels, rfl⟩ : ∃ n, levels = n + 1 := ⟨levels - 1, by omega⟩
    exact nested_agree (valueType_agree (ih (by omega)))

theorem parseValueType_agree (hdepth : depth ≤ maxNesting) :
    Agree 0 depth Cursor.parseValueType (Parser.parseValueType depth) (ValueType.Good maxNesting) := by
  refine (valueTypeIn_agree (Nat.lt_succ_of_le hdepth)).mono fun covers ty h => ?_
  exact ⟨h.within.mono hdepth, h.written, h.spans⟩

/-! ## Scopes and simple statements -/

theorem sim_pushScope {names : List String} {k : Unit → CursorM α} {k' : Unit → ParseM β}
    (hk : Sim tokens depth total (scopes + 1) done (k ()) (k' ()) scopes' R) :
    Sim tokens depth total scopes done (Cursor.pushScope names >>= k)
      (Parser.pushScope names >>= k') scopes' R := by
  intro c p hrel
  refine hk _ _ { hrel with valueScopes := ?_, scopes := ?_ }
  · dsimp only
    rw [hrel.valueScopes]
  · dsimp only
    rw [List.length_cons, hrel.scopes]

theorem sim_popScope {k : Unit → CursorM α} {k' : Unit → ParseM β}
    (hk : Sim tokens depth total scopes done (k ()) (k' ()) scopes' R) :
    Sim tokens depth total (scopes + 1) done (Cursor.popScope >>= k) (Parser.popScope >>= k') scopes'
      R := by
  intro c p hrel
  refine hk _ _ { hrel with valueScopes := ?_, scopes := ?_ }
  · dsimp only
    rw [hrel.valueScopes]
  · dsimp only
    rw [List.length_tail, hrel.scopes]
    rfl

/-- A scope is open where a name is bound. -/
theorem sim_bindValue {name : String} (hscopes : 1 ≤ scopes) {k : Unit → CursorM α}
    {k' : Unit → ParseM β} (hk : Sim tokens depth total scopes done (k ()) (k' ()) scopes' R) :
    Sim tokens depth total scopes done (Cursor.bindValue name >>= k) (Parser.bindValue name >>= k')
      scopes' R := by
  intro c p hrel
  cases hp : p.valueScopes with
  | nil =>
    have hlength := hrel.scopes
    rw [hp, List.length_nil] at hlength
    omega
  | cons scope rest =>
    have hc : c.valueScopes = scope :: rest := hrel.valueScopes.trans hp
    have hcursor : Cursor.bindValue name c =
        .ok ((), { c with valueScopes := (name :: scope) :: rest }) := by
      rw [Cursor.bindValue, hc]
    have hparser : Parser.bindValue name p =
        .ok ((), { p with valueScopes := (name :: scope) :: rest }) := by
      change Except.ok ((), _) = _
      dsimp only
      rw [hp]
    rw [run_bind_ok hcursor, parse_bind_ok hparser]
    refine hk _ _ { hrel with valueScopes := rfl, scopes := ?_ }
    have hlength := hrel.scopes
    rw [hp] at hlength
    exact hlength

theorem sim_simpleSpan {start stop : Span} (h : Merges done start stop) (hstart : Covers done start)
    {k : Span → CursorM α} {k' : Span → ParseM β}
    (hk : ∀ span read, Neutral read → Covers (done ++ read) span →
      Sim tokens depth total scopes (done ++ read) (k span) (k' span) scopes' R) :
    Sim tokens depth total scopes done (Cursor.simpleSpan start stop >>= k)
      (Parser.simpleSpan start stop >>= k') scopes' R := by
  refine sim_bind (P := fun done' a b => b = a ∧ ∃ read, done' = done ++ read ∧ Neutral read ∧
    Covers (done ++ read) a) (s := scopes) ?_ ?_
  · refine sim_optionalSemicolon (fun semicolon hkind => ?_) ?_
    · have hmerge : Merges (done ++ [semicolon]) start semicolon.span :=
        .append hstart (.token semicolon)
      have hneutral : Neutral [semicolon] := .token (by rw [hkind]; rfl)
      exact sim_merge_last hmerge ⟨rfl, [semicolon], rfl, hneutral, hmerge.covers⟩
    · refine sim_merge_last h ⟨rfl, [], (List.append_nil done).symm, .nil, ?_⟩
      rw [List.append_nil]
      exact h.covers
  · rintro _ _ _ ⟨rfl, read, rfl, hneutral, hspan⟩
    exact hk _ read hneutral hspan

/-! ## Blocks -/

theorem blockContents_agree {statement : CursorM Stmt} {statement' : ParseM Stmt}
    (hstatement : Agree 1 depth statement statement' (Stmt.Good depth)) :
    Agree 0 depth (Cursor.blockContents statement) (Parser.blockContents statement')
      (GoodBlock (depth + 1)) := by
  intro tokens scopes total _
  refine sim_expect (by decide) fun brace hbrace => ?_
  refine sim_pushScope ?_
  refine sim_untilClose (Stmt.Good.grows depth) hstatement (Nat.le_add_left 1 scopes)
    fun statements read hread hstatements => ?_
  refine sim_expect (by decide) fun stop hstop => ?_
  refine sim_popScope (sim_pure ⟨rfl, by simp, ?_, ?_⟩)
  · exact hread.enclosed hbrace hstop
  · refine GoodBlock.of_statements (fun statement hmem => ?_) ((Covers.token stop).append_right _)
    exact Stmt.Good.grows depth (fun _ h => (h.append_right _).append_left [stop])
      (hstatements statement hmem)

/-- A block in the scope of some bindings. -/
theorem sim_blockWithBindings {limit : ℕ} {names : List String} {block : CursorM (Block × Span)}
    {block' : ParseM (Block × Span)} (hblock : Agree 0 depth block block' (GoodBlock limit))
    {k : Block × Span → CursorM α} {k' : Block × Span → ParseM β}
    (hk : ∀ result read, Neutral read → GoodBlock limit (Covers read) result →
      Sim tokens depth total scopes (done ++ read) (k result) (k' result) scopes' R) :
    Sim tokens depth total scopes done (Cursor.blockWithBindings names block >>= k)
      (Parser.blockWithBindings names block' >>= k') scopes' R := by
  refine sim_bind (P := fun done' a b => b = a ∧ ∃ read, done' = done ++ read ∧ Neutral read ∧
    GoodBlock limit (Covers read) a) (s := scopes) ?_ ?_
  · refine sim_pushScope (hblock.bind (Nat.zero_le _) fun result read _ hread hresult => ?_)
    exact sim_popScope (sim_pure ⟨rfl, read, rfl, hread, hresult⟩)
  · rintro _ _ _ ⟨rfl, read, rfl, hread, hresult⟩
    exact hk _ read hread hresult

/-- A name, a type and an initializer. -/
theorem sim_typedInitializer (hdepth : depth ≤ maxNesting)
    {nameMessage colonMessage equalMessage : String}
    {k : String × ValueType × Expr → CursorM α} {k' : String × ValueType × Expr → ParseM β}
    (hk : ∀ name ty init read, Neutral read → ty.Good maxNesting (Covers read) →
      init.Good depth (Covers read) →
      Sim tokens depth total scopes (done ++ read) (k (name, ty, init)) (k' (name, ty, init))
        scopes' R) :
    Sim tokens depth total scopes done
      (Cursor.typedInitializer nameMessage colonMessage equalMessage >>= k)
      (Parser.typedInitializer depth nameMessage colonMessage equalMessage >>= k') scopes' R := by
  refine sim_bind (P := fun done' a b => b = a ∧ ∃ read, done' = done ++ read ∧ Neutral read ∧
    a.2.1.Good maxNesting (Covers read) ∧ a.2.2.Good depth (Covers read)) (s := scopes) ?_ ?_
  · refine sim_identifier fun name token hname => ?_
    refine sim_expect (by decide) fun colon hcolon => ?_
    refine (parseValueType_agree hdepth).bind (Nat.zero_le _) fun ty read _ hread hty => ?_
    refine sim_expect (by decide) fun equal hequal => ?_
    refine (expression_agree hdepth).bind (Nat.zero_le _) fun init read' _ hread' hinit => ?_
    refine sim_pure ⟨rfl, [token, colon] ++ read ++ [equal] ++ read', by simp, ?_, ?_, ?_⟩
    · have hfirst : Neutral ([token] ++ [colon]) :=
        (Neutral.token (by rw [hname]; rfl)).append_token (by rw [hcolon]; rfl)
      exact ((hfirst.append hread).append_token (by rw [hequal]; rfl)).append hread'
    · exact ValueType.Good.grows maxNesting
        (fun _ h => ((h.append_right _).append_left [equal]).append_left read') hty
    · exact Expr.Good.grows depth (fun _ h => h.append_right _) hinit
  · rintro _ _ _ ⟨rfl, read, rfl, hread, hty, hinit⟩
    exact hk _ _ _ read hread hty hinit

/-! ## Statements -/

theorem letStatement_agree (hdepth : depth ≤ maxNesting) :
    Agree 1 depth Cursor.letStatement (Parser.letStatement depth) (Stmt.Good depth) := by
  intro tokens scopes total hscopes
  refine sim_expect (by decide) fun start hstart => ?_
  refine sim_typedInitializer hdepth fun name ty init read hread hty hinit => ?_
  have hspan : Covers ([] ++ [start] ++ read) start.span := (Covers.token start).append_left read
  have hmerge : Merges ([] ++ [start] ++ read) start.span init.span :=
    .append (.token start) (hinit.spans _ init.span_mem)
  refine sim_simpleSpan hmerge hspan fun span read' hread' hcovers => ?_
  refine sim_bindValue hscopes (sim_pure ⟨rfl, by simp, ?_, ?_, ?_, ?_⟩)
  · exact ((Neutral.token (by rw [hstart]; rfl)).append hread).append hread'
  · exact List.forall_mem_singleton.mpr hinit.within
  · exact List.forall_mem_singleton.mpr hty.fits
  · simp only [Stmt.spans, List.mem_cons, List.mem_append]
    rintro s (rfl | hs | hs)
    · exact hcovers
    · exact ((hty.spans s hs).append_right _).append_left read'
    · exact ((hinit.spans s hs).append_right _).append_left read'

theorem isPlain_of_assignOp {kind : TokenKind} {op : AssignOp} (h : assignOp kind = some op) :
    kind.isPlain := by
  cases kind <;> first | rfl | cases h

theorem sim_assignmentStatement (hdepth : depth ≤ maxNesting) {target : Expr}
    (htarget : target.Good depth (Covers done)) (hneutral : Neutral done) :
    Sim tokens depth total scopes done (Cursor.assignmentStatement target)
      (Parser.assignmentStatement depth target) scopes (Reads (Stmt.Good depth)) := by
  refine sim_advance (fun token hne => ?_) fun token heof hcovers => ?_
  · cases hop : assignOp token.kind with
    | none => exact sim_fail ((Covers.token token).append_right done)
    | some op =>
      refine (expression_agree hdepth).bind (Nat.zero_le _) fun value read _ hread hvalue => ?_
      have htargetSpan := htarget.spans _ target.span_mem
      have hspan : Covers (done ++ [token] ++ read) target.span :=
        (htargetSpan.append_left [token]).append_left read
      have hmerge : Merges (done ++ [token] ++ read) target.span value.span :=
        .append (htargetSpan.append_left [token]) (hvalue.spans _ value.span_mem)
      refine sim_simpleSpan hmerge hspan fun span read' hread' hcovers => ?_
      refine sim_pure ⟨rfl, hcovers.ne_nil, ?_, ?_, by simp [Stmt.types], ?_⟩
      · exact ((hneutral.append_token (isPlain_of_assignOp hop)).append hread).append hread'
      · simp [Stmt.parts, htarget.within, hvalue.within]
      · simp only [Stmt.spans, List.mem_cons, List.mem_append]
        rintro s (rfl | hs | hs)
        · exact hcovers
        · exact (((htarget.spans s hs).append_left [token]).append_left read).append_left read'
        · exact ((hvalue.spans s hs).append_right _).append_left read'
  · rw [heof]
    exact sim_fail_covers hcovers

theorem ifStatement_agree (hdepth : depth ≤ maxNesting) {block : CursorM (Block × Span)}
    {block' : ParseM (Block × Span)} (hblock : Agree 0 depth block block' (GoodBlock depth)) :
    Agree 0 depth (Cursor.ifStatement block) (Parser.ifStatement depth block')
      (Stmt.Good depth) := by
  intro tokens scopes total _
  refine sim_expect (by decide) fun start hstart => ?_
  refine (expression_agree hdepth).bind (Nat.zero_le _) fun condition read _ hread hcondition => ?_
  refine hblock.bind (Nat.zero_le _) fun result read' _ hread' hthen => ?_
  obtain ⟨thenBlock, thenEnd⟩ := result
  have hneutral : Neutral ([] ++ [start] ++ read ++ read') :=
    ((Neutral.token (by rw [hstart]; rfl)).append hread).append hread'
  have hspan : Covers ([] ++ [start] ++ read) start.span := (Covers.token start).append_left read
  refine sim_take (by decide) (fun token htoken => ?_) ?_
  · refine hblock.bind (Nat.zero_le _) fun result read'' _ hread'' helse => ?_
    obtain ⟨elseBlock, stop⟩ := result
    have hmerge : Merges ([] ++ [start] ++ read ++ read' ++ [token] ++ read'') start.span stop :=
      .append ((hspan.append_left read').append_left [token]) helse.stop
    refine sim_merge hmerge (sim_pure ⟨rfl, by simp, ?_, ?_, ?_, ?_⟩)
    · exact (hneutral.append_token (by rw [htoken]; rfl)).append hread''
    · simp [Stmt.parts, hcondition.within, hthen.within, helse.within]
    · intro ty hty
      rcases List.mem_append.mp hty with hty | hty
      · exact hthen.types ty hty
      · exact helse.types ty hty
    · simp only [Stmt.spans, List.mem_cons, List.mem_append]
      rintro s (rfl | (hs | hs) | hs)
      · exact hmerge.covers
      · exact ((((hcondition.spans s hs).append_right _).append_left read').append_left
          [token]).append_left read''
      · exact (((hthen.spans s hs).append_right _).append_left [token]).append_left read''
      · exact (helse.spans s hs).append_right _
  · have hmerge : Merges ([] ++ [start] ++ read ++ read') start.span thenEnd :=
      .append hspan hthen.stop
    refine sim_merge hmerge (sim_pure ⟨rfl, by simp, hneutral, ?_, ?_, ?_⟩)
    · simp [Stmt.parts, hcondition.within, hthen.within]
    · intro ty hty
      rcases List.mem_append.mp hty with hty | hty
      · exact hthen.types ty hty
      · cases hty
    · simp only [Stmt.spans, List.mem_cons, List.mem_append]
      rintro s (rfl | (hs | hs) | hs)
      · exact hmerge.covers
      · exact ((hcondition.spans s hs).append_right _).append_left read'
      · exact (hthen.spans s hs).append_right _
      · cases hs

theorem whileStatement_agree (hdepth : depth ≤ maxNesting) {block : CursorM (Block × Span)}
    {block' : ParseM (Block × Span)} (hblock : Agree 0 depth block block' (GoodBlock depth)) :
    Agree 0 depth (Cursor.whileStatement block) (Parser.whileStatement depth block')
      (Stmt.Good depth) := by
  intro tokens scopes total _
  refine sim_expect (by decide) fun start hstart => ?_
  refine (expression_agree hdepth).bind (Nat.zero_le _) fun condition read _ hread hcondition => ?_
  refine hblock.bind (Nat.zero_le _) fun result read' _ hread' hbody => ?_
  obtain ⟨body, stop⟩ := result
  have hmerge : Merges ([] ++ [start] ++ read ++ read') start.span stop :=
    .append ((Covers.token start).append_left read) hbody.stop
  refine sim_merge hmerge (sim_pure ⟨rfl, by simp, ?_, ?_, hbody.types, ?_⟩)
  · exact ((Neutral.token (by rw [hstart]; rfl)).append hread).append hread'
  · simp [Stmt.parts, hcondition.within, hbody.within]
  · simp only [Stmt.spans, List.mem_cons, List.mem_append]
    rintro s (rfl | hs | hs)
    · exact hmerge.covers
    · exact ((hcondition.spans s hs).append_right _).append_left read'
    · exact (hbody.spans s hs).append_right _

theorem forStatement_agree (hdepth : depth ≤ maxNesting) {block : CursorM (Block × Span)}
    {block' : ParseM (Block × Span)} (hblock : Agree 0 depth block block' (GoodBlock depth)) :
    Agree 0 depth (Cursor.forStatement block) (Parser.forStatement depth block')
      (Stmt.Good depth) := by
  intro tokens scopes total _
  refine sim_expect (by decide) fun start hstart => ?_
  refine sim_identifier fun name token hname => ?_
  refine sim_expect (by decide) fun keyword hkeyword => ?_
  refine (expression_agree hdepth).bind (Nat.zero_le _) fun lower read _ hread hlower => ?_
  refine sim_expect (by decide) fun dots hdots => ?_
  refine (expression_agree hdepth).bind (Nat.zero_le _) fun upper read' _ hread' hupper => ?_
  refine sim_blockWithBindings hblock fun result read'' hread'' hbody => ?_
  obtain ⟨body, stop⟩ := result
  have hhead : Neutral ([] ++ [start] ++ [token] ++ [keyword]) :=
    ((Neutral.token (by rw [hstart]; rfl)).append_token (by rw [hname]; rfl)).append_token
      (by rw [hkeyword]; rfl)
  have hlowerSpans : ∀ s ∈ lower.spans,
      Covers ([] ++ [start] ++ [token] ++ [keyword] ++ read ++ [dots] ++ read' ++ read'') s :=
    fun s hs => ((((hlower.spans s hs).append_right _).append_left [dots]).append_left
      read').append_left read''
  have hstartSpan : Covers ([] ++ [start] ++ [token] ++ [keyword] ++ read ++ [dots] ++ read')
      start.span :=
    (((((Covers.token start).append_left [token]).append_left [keyword]).append_left
      read).append_left [dots]).append_left read'
  have htokenSpan : Covers
      ([] ++ [start] ++ [token] ++ [keyword] ++ read ++ [dots] ++ read' ++ read'') token.span :=
    ((((((Covers.token token).append_right [start]).append_left [keyword]).append_left
      read).append_left [dots]).append_left read').append_left read''
  have hmerge : Merges
      ([] ++ [start] ++ [token] ++ [keyword] ++ read ++ [dots] ++ read' ++ read'') start.span stop :=
    .append hstartSpan hbody.stop
  refine sim_merge hmerge (sim_pure ⟨rfl, by simp, ?_, ?_, hbody.types, ?_⟩)
  · exact (((hhead.append hread).append_token (by rw [hdots]; rfl)).append hread').append hread''
  · simp [Stmt.parts, hlower.within, hupper.within, hbody.within]
  · simp only [Stmt.spans, List.mem_cons, List.mem_append]
    rintro s (rfl | rfl | (hs | hs) | hs)
    · exact hmerge.covers
    · exact htokenSpan
    · exact hlowerSpans s hs
    · exact ((hupper.spans s hs).append_right _).append_left read''
    · exact (hbody.spans s hs).append_right _

/-- The continuations of a look at the current token. -/
theorem sim_current {k : Token → CursorM α} {k' : Parser → ParseM β}
    (hk : ∀ c p, Related tokens depth scopes total done c p →
      EndsAlike tokens depth total done scopes' R (k p.current c) (k' p p)) :
    Sim tokens depth total scopes done (Cursor.current >>= k) (get >>= k') scopes' R := by
  intro c p hrel
  obtain ⟨token, rest, htokens, hcurrent, hget, -⟩ := hrel.exists_token
  rw [run_bind_ok hget, parse_bind_ok (m := get) (p := p) rfl, ← hcurrent]
  exact hk c p hrel

theorem returnStatement_agree (hdepth : depth ≤ maxNesting) :
    Agree 0 depth Cursor.returnStatement (Parser.returnStatement depth) (Stmt.Good depth) := by
  intro tokens scopes total _
  refine sim_expect (by decide) fun start hstart => ?_
  have hneutral : Neutral ([] ++ [start]) := .token (by rw [hstart]; rfl)
  have hspan : Covers ([] ++ [start]) start.span := .token start
  refine sim_current fun c p hrel => ?_
  split
  · refine sim_optionalSemicolon (fun semicolon hkind => ?_) ?_ c p hrel
    · have hmerge : Merges ([] ++ [start] ++ [semicolon]) start.span semicolon.span :=
        .append hspan (.token semicolon)
      refine sim_merge hmerge (sim_pure ⟨rfl, by simp, ?_, by simp [Stmt.parts],
        by simp [Stmt.types], List.forall_mem_singleton.mpr hmerge.covers⟩)
      exact hneutral.append_token (by rw [hkind]; rfl)
    · exact sim_merge (.same rfl hspan) (sim_pure ⟨rfl, by simp, hneutral, by simp [Stmt.parts],
        by simp [Stmt.types], List.forall_mem_singleton.mpr hspan⟩)
  · refine (expression_agree hdepth).bind (Nat.zero_le _) (fun value read _ hread hvalue => ?_)
      c p hrel
    have hmerge : Merges ([] ++ [start] ++ read) start.span value.span :=
      .append hspan (hvalue.spans _ value.span_mem)
    refine sim_simpleSpan hmerge (hspan.append_left read) fun span read' hread' hcovers => ?_
    refine sim_pure ⟨rfl, by simp, (hneutral.append hread).append hread', ?_, by simp [Stmt.types],
      ?_⟩
    · exact List.forall_mem_singleton.mpr hvalue.within
    · refine List.forall_mem_cons.mpr ⟨hcovers, fun s hs => ?_⟩
      exact ((hvalue.spans s hs).append_right _).append_left read'

theorem expressionStatement_agree (hdepth : depth ≤ maxNesting) :
    Agree 0 depth Cursor.expressionStatement (Parser.expressionStatement depth)
      (Stmt.Good depth) := by
  intro tokens scopes total _
  refine (expression_agree hdepth).bind (Nat.zero_le _) fun e read hne hread he => ?_
  have hspan := he.spans _ e.span_mem
  refine sim_current fun c p hrel => ?_
  split
  · exact sim_assignmentStatement hdepth he hread c p hrel
  · refine sim_simpleSpan (.same rfl hspan) hspan (fun span read' hread' hcovers => ?_) c p hrel
    refine sim_pure ⟨rfl, hcovers.ne_nil, Neutral.append hread hread', ?_, by simp [Stmt.types], ?_⟩
    · exact List.forall_mem_singleton.mpr he.within
    · exact List.forall_mem_cons.mpr ⟨hcovers, fun s hs => (he.spans s hs).append_left read'⟩

theorem Agree.weaken {least least' : ℕ} {run : CursorM α} {m : ParseM α}
    {good : (Span → Prop) → α → Prop} (h : Agree least depth run m good) (hle : least ≤ least') :
    Agree least' depth run m good :=
  fun tokens scopes total hscopes => h tokens scopes total (hle.trans hscopes)

theorem statementWith_agree (hdepth : depth ≤ maxNesting) {block : CursorM (Block × Span)}
    {block' : ParseM (Block × Span)} (hblock : Agree 0 depth block block' (GoodBlock depth)) :
    Agree 1 depth (Cursor.statementWith block) (Parser.statementWith depth block')
      (Stmt.Good depth) := by
  intro tokens scopes total hscopes
  refine sim_current fun c p hrel => ?_
  generalize p.current.kind = kind
  cases kind
  case «let» => exact letStatement_agree hdepth tokens scopes total hscopes c p hrel
  case «if» => exact ifStatement_agree hdepth hblock tokens scopes total (Nat.zero_le _) c p hrel
  case «while» =>
    exact whileStatement_agree hdepth hblock tokens scopes total (Nat.zero_le _) c p hrel
  case «for» => exact forStatement_agree hdepth hblock tokens scopes total (Nat.zero_le _) c p hrel
  case «return» => exact returnStatement_agree hdepth tokens scopes total (Nat.zero_le _) c p hrel
  all_goals exact expressionStatement_agree hdepth tokens scopes total (Nat.zero_le _) c p hrel

theorem statement_agree (hdepth : depth ≤ maxNesting) (hlevels : depth < levels) :
    Agree 1 depth (Cursor.statement levels) (Parser.statement depth) (Stmt.Good depth) := by
  induction depth generalizing levels with
  | zero =>
    obtain ⟨levels, rfl⟩ : ∃ n, levels = n + 1 := ⟨levels - 1, by omega⟩
    exact statementWith_agree hdepth nested_zero_agree
  | succ depth ih =>
    obtain ⟨levels, rfl⟩ : ∃ n, levels = n + 1 := ⟨levels - 1, by omega⟩
    have hstatement := @ih levels (by omega) (by omega)
    exact statementWith_agree hdepth (nested_agree (blockContents_agree hstatement))

/-- No path from a block is longer than the levels that were left. -/
theorem block_agree (hdepth : depth ≤ maxNesting) :
    Agree 0 depth Cursor.block (Parser.block depth) (GoodBlock depth) := by
  cases depth with
  | zero => exact nested_zero_agree
  | succ depth =>
    refine nested_agree (blockContents_agree (statement_agree (by omega) ?_))
    rw [Cursor.maxLevels]
    omega

end

end Speck
