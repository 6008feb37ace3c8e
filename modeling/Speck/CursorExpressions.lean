import Speck.CursorRules

/-!
# Expressions on the token vector

The expressions of the two parsers agree : `expression` reads neutral tokens, its tree is no deeper
than the levels of nesting that were left, whether recursion or a loop built it, and its spans are
spans of what it read (`expression_agree`).
-/

namespace Speck

open Speck.Parser (maxNesting factorOperators termOperators comparisonOperators equalityOperators
  logicalAndOperators logicalOrOperators)

/-! ## What an expression leaves -/

/-- A bounded tree with its spans among some. -/
structure Expr.Good (limit : ℕ) (covers : Span → Prop) (e : Expr) : Prop where
  within : e.Within limit
  spans : ∀ span ∈ e.spans, covers span

theorem Expr.Good.grows (limit : ℕ) : Grows (Expr.Good limit) :=
  fun hcovers _ h => ⟨h.within, fun span hspan => hcovers span (h.spans span hspan)⟩

/-- A good initializer of a struct literal. -/
structure FieldInitializer.Good (limit : ℕ) (covers : Span → Prop)
    (initializer : FieldInitializer Expr) : Prop where
  value : initializer.value.Good limit covers
  span : covers initializer.span

theorem FieldInitializer.Good.grows (limit : ℕ) : Grows (FieldInitializer.Good limit) :=
  fun hcovers _ h => ⟨Expr.Good.grows limit hcovers h.value, hcovers _ h.span⟩

theorem forall_elementSpans {limit : ℕ} {covers : Span → Prop} {es : List Expr}
    (h : ∀ e ∈ es, e.Good limit covers) : ∀ span ∈ elementSpans es, covers span := by
  intro span hspan
  rw [elementSpans_eq] at hspan
  obtain ⟨e, he, hspan⟩ := List.mem_flatMap.mp hspan
  exact (h e he).spans span hspan

theorem forall_initializerSpans {limit : ℕ} {covers : Span → Prop}
    {fields : List (FieldInitializer Expr)} (h : ∀ field ∈ fields, field.Good limit covers) :
    ∀ span ∈ initializerSpans fields, covers span := by
  intro span hspan
  rw [initializerSpans_eq] at hspan
  obtain ⟨field, hfield, hspan⟩ := List.mem_flatMap.mp hspan
  rcases List.mem_cons.mp hspan with rfl | hspan
  · exact (h field hfield).span
  · exact (h field hfield).value.spans span hspan

section

variable {α β : Type} {tokens done : List Token} {depth scopes scopes' total : ℕ}
  {R : List Token → α → β → Prop} {expr : CursorM Expr} {expr' : ParseM Expr}

/-- A checked node is what its production leaves. -/
theorem sim_checked_last {e : Expr} (hspans : ∀ span ∈ e.spans, Covers done span)
    (hneutral : Neutral done) :
    Sim tokens depth total scopes done (Cursor.checked e) (Parser.checked depth e) scopes
      (Reads (Expr.Good (depth + 1))) := by
  refine (sim_checked_only hspans).mono ?_
  rintro _ _ _ ⟨rfl, rfl, rfl, hwithin⟩
  exact ⟨rfl, (hspans _ (Expr.span_mem _)).ne_nil, hneutral, hwithin, hspans⟩

/-! ## Names and primaries -/

theorem sim_qualifiedName {name : String} {start : Span} (hstart : Covers done start)
    {k : String × Span → CursorM α} {k' : String × Span → ParseM β}
    (hk : ∀ name span read, Neutral read → Covers (done ++ read) span →
      Sim tokens depth total scopes (done ++ read) (k (name, span)) (k' (name, span)) scopes' R) :
    Sim tokens depth total scopes done (Cursor.qualifiedName name start >>= k)
      (Parser.qualifiedName name start >>= k') scopes' R := by
  refine sim_bind (P := fun done' a b => ∃ name span read, a = (name, span) ∧ b = (name, span) ∧
    done' = done ++ read ∧ Neutral read ∧ Covers (done ++ read) span) (s := scopes) ?_ ?_
  · refine sim_take (by decide) (fun colons hcolons => ?_) ?_
    · refine sim_identifier fun member token hmember => ?_
      refine sim_isAt fun b => ?_
      cases b with
      | true => exact sim_errorHere
      | false =>
        have hmerge : Merges (done ++ [colons] ++ [token]) start token.span :=
          .append (hstart.append_left _) (.token token)
        refine sim_merge hmerge (sim_pure ⟨_, _, [colons, token], rfl, rfl, by simp, ?_, ?_⟩)
        · exact (Neutral.token (t := colons) (by rw [hcolons]; rfl)).append_token
            (t := token) (by rw [hmember]; rfl)
        · have hcovers := hmerge.covers
          rwa [List.append_assoc] at hcovers
    · exact sim_pure ⟨_, _, [], rfl, rfl, by simp, .nil, by rwa [List.append_nil]⟩
  · rintro _ _ _ ⟨name, span, read, rfl, rfl, rfl, hneutral, hspan⟩
    exact hk name span read hneutral hspan

theorem sim_arguments {limit : ℕ} (hexpr : Agree 0 depth expr expr' (Expr.Good limit))
    {k : List Expr × Span → CursorM α} {k' : List Expr × Span → ParseM β}
    (hk : ∀ args stop read, Neutral read → (∀ arg ∈ args, arg.Good limit (Covers read)) →
      Covers read stop →
      Sim tokens depth total scopes (done ++ read) (k (args, stop)) (k' (args, stop)) scopes' R) :
    Sim tokens depth total scopes done (Cursor.arguments expr >>= k)
      (Parser.arguments expr' >>= k') scopes' R := by
  refine sim_bind (P := fun done' a b => ∃ args stop read, a = (args, stop) ∧ b = (args, stop) ∧
    done' = done ++ read ∧ Neutral read ∧ (∀ arg ∈ args, arg.Good limit (Covers read)) ∧
    Covers read stop) (s := scopes) ?_ ?_
  · unfold Cursor.arguments Parser.arguments
    refine sim_commaList (Expr.Good.grows limit) hexpr (Nat.zero_le _) (fun _ => sim_stop_false)
      fun args read hread hargs => ?_
    refine sim_expect (by decide) fun stop hstop => ?_
    refine sim_pure ⟨_, _, read ++ [stop], rfl, rfl, List.append_assoc .., ?_, ?_, ?_⟩
    · exact hread.append_token (by rw [hstop]; rfl)
    · exact fun arg harg => Expr.Good.grows limit (fun _ h => h.append_left _) (hargs arg harg)
    · exact (Covers.token stop).append_right read
  · rintro _ _ _ ⟨args, stop, read, rfl, rfl, rfl, hneutral, hargs, hstop⟩
    exact hk args stop read hneutral hargs hstop

theorem sim_arrayLiteral {limit : ℕ} (hexpr : Agree 0 depth expr expr' (Expr.Good limit))
    {start : Span} (hstart : Covers done start) (hneutral : Neutral done) :
    Sim tokens depth total scopes done (Cursor.arrayLiteral expr start)
      (Parser.arrayLiteral depth expr' start) scopes (Reads (Expr.Good (depth + 1))) := by
  unfold Cursor.arrayLiteral Parser.arrayLiteral
  refine sim_commaList (Expr.Good.grows limit) hexpr (Nat.zero_le _)
    (fun _ => sim_stop_isAt _) fun elements read hread helements => ?_
  refine sim_expect (by decide) fun stop hkind => ?_
  have hmerge : Merges (done ++ read ++ [stop]) start stop.span :=
    .append (hstart.append_left read) (.token stop)
  refine sim_merge hmerge (sim_checked_last ?_ ?_)
  · refine List.forall_mem_cons.mpr ⟨hmerge.covers, fun span hspan => ?_⟩
    exact ((forall_elementSpans helements span hspan).append_right done).append_left [stop]
  · exact (hneutral.append hread).append_token (by rw [hkind]; rfl)

theorem sim_conversion {limit : ℕ} (hexpr : Agree 0 depth expr expr' (Expr.Good limit))
    {target : NumericType} {start : Span} (hstart : Covers done start) (hneutral : Neutral done) :
    Sim tokens depth total scopes done (Cursor.conversion expr target start)
      (Parser.conversion depth expr' target start) scopes (Reads (Expr.Good (depth + 1))) := by
  refine sim_expect (by decide) fun paren hparen => ?_
  refine sim_arguments hexpr fun args stop read hread hargs hstop => ?_
  have hmerge : Merges (done ++ [paren] ++ read) start stop :=
    .append (hstart.append_left [paren]) hstop
  refine sim_merge hmerge (sim_checked_last ?_ ?_)
  · refine List.forall_mem_cons.mpr ⟨hmerge.covers, fun span hspan => ?_⟩
    exact (forall_elementSpans hargs span hspan).append_right _
  · exact (hneutral.append_token (by rw [hparen]; rfl)).append hread

theorem fieldInitializer_agree {limit : ℕ} (hexpr : Agree 0 depth expr expr' (Expr.Good limit)) :
    Agree 0 depth (Cursor.fieldInitializer expr) (Parser.fieldInitializer expr')
      (FieldInitializer.Good limit) := by
  intro tokens scopes total _
  refine sim_identifier fun name token hname => ?_
  refine sim_expect (by decide) fun colon hcolon => ?_
  refine hexpr.bind (Nat.zero_le _) fun value read hne hread hvalue => ?_
  have hfirst : Neutral ([] ++ [token] ++ [colon]) :=
    (Neutral.nil.append_token (by rw [hname]; rfl)).append_token (by rw [hcolon]; rfl)
  have hmerge : Merges ([] ++ [token] ++ [colon] ++ read) token.span value.span :=
    .append ((Covers.token token).append_left [colon]) (hvalue.spans _ value.span_mem)
  have hgood : FieldInitializer.Good limit (Covers ([] ++ [token] ++ [colon] ++ read))
      ⟨name, value, token.span.merge value.span⟩ :=
    ⟨Expr.Good.grows limit (fun _ h => h.append_right _) hvalue, hmerge.covers⟩
  refine sim_merge hmerge ?_
  refine sim_take (by decide) (fun comma hcomma => ?_) ?_
  · refine sim_pure ⟨rfl, by simp, ?_, ?_⟩
    · exact (hfirst.append hread).append_token (by rw [hcomma]; rfl)
    · exact FieldInitializer.Good.grows limit (fun _ h => h.append_left _) hgood
  · exact sim_pure ⟨rfl, by simp, hfirst.append hread, hgood⟩

theorem sim_structLiteral {limit : ℕ} (hexpr : Agree 0 depth expr expr' (Expr.Good limit))
    {name : String} {start : Span} (hstart : Covers done start) (hneutral : Neutral done) :
    Sim tokens depth total scopes done (Cursor.structLiteral expr name start)
      (Parser.structLiteral depth expr' name start) scopes (Reads (Expr.Good (depth + 1))) := by
  refine sim_expect (by decide) fun brace hbrace => ?_
  refine sim_untilClose (FieldInitializer.Good.grows limit) (fieldInitializer_agree hexpr)
    (Nat.zero_le _) fun fields read hread hfields => ?_
  refine sim_expect (by decide) fun stop hstop => ?_
  have hmerge : Merges (done ++ [brace] ++ read ++ [stop]) start stop.span :=
    .append ((hstart.append_left [brace]).append_left read) (.token stop)
  refine sim_merge hmerge (sim_checked_last ?_ ?_)
  · refine List.forall_mem_cons.mpr ⟨hmerge.covers, fun span hspan => ?_⟩
    exact ((forall_initializerSpans hfields span hspan).append_right _).append_left [stop]
  · rw [List.append_assoc, List.append_assoc, ← List.append_assoc [brace]]
    exact hneutral.append (hread.enclosed hbrace hstop)

/-- Both parsers see a struct literal alike. -/
theorem looksLikeStructLiteral_eq {c : Cursor} {p : Parser} (name : String)
    (hrel : Related tokens depth scopes total done c p) :
    Cursor.looksLikeStructLiteral name c = .ok (p.looksLikeStructLiteral name, c) := by
  obtain ⟨token, rest, htokens, hcurrent, hget, -⟩ := hrel.exists_token
  have hpeek : ∀ offset, p.peek offset = (c.peek offset).getD .eof := by
    intro offset
    rw [Parser.peek, Cursor.peek, hrel.rest, List.getElem?_drop, hrel.vector]
  have hbinding : c.isValueBinding name = p.isValueBinding name := by
    rw [Cursor.isValueBinding, Parser.isValueBinding, hrel.valueScopes]
  have hfields : Cursor.startsField (c.peek 1) (c.peek 2) =
      ((p.peek 1).isIdentifier && decide (p.peek 2 = .colon)) := by
    rw [hpeek 1, hpeek 2]
    unfold Cursor.startsField
    split
    · next heq1 heq2 =>
      rw [heq1, heq2]
      rfl
    · next hother =>
      cases h1 : c.peek 1 with
      | none => rfl
      | some kind =>
        cases kind with
        | identifier field =>
          cases h2 : c.peek 2 with
          | none => rfl
          | some kind' =>
            have hne : kind' ≠ .colon := fun h => hother field h1 (h ▸ h2)
            simp [hne]
        | _ => rfl
  rw [Cursor.looksLikeStructLiteral, run_bind_ok hget, run_bind_ok (m := get) (c := c) rfl,
    Parser.looksLikeStructLiteral, hcurrent, hbinding, hfields, hrel.structNames]
  rfl

theorem sim_namedExpression {limit : ℕ} (hexpr : Agree 0 depth expr expr' (Expr.Good limit))
    {name : String} {start : Span} (hstart : Covers done start) (hneutral : Neutral done) :
    Sim tokens depth total scopes done (Cursor.namedExpression expr name start)
      (Parser.namedExpression depth expr' name start) scopes (Reads (Expr.Good (depth + 1))) := by
  refine sim_qualifiedName hstart fun name nameSpan read hread hspan => ?_
  have hdone := hneutral.append hread
  intro c p hrel
  dsimp only
  rw [run_bind_ok (looksLikeStructLiteral_eq name hrel), parse_bind_ok (m := get) (p := p) rfl]
  cases p.looksLikeStructLiteral name with
  | true => exact sim_structLiteral hexpr hspan hdone c p hrel
  | false =>
    refine sim_take (by decide) (fun paren hparen => ?_) ?_ c p hrel
    · refine sim_arguments hexpr fun args stop read' hread' hargs hstop => ?_
      have hmerge : Merges (done ++ read ++ [paren] ++ read') start stop :=
        .append ((hstart.append_left read).append_left [paren]) hstop
      refine sim_merge hmerge (sim_checked_last ?_ ?_)
      · refine List.forall_mem_cons.mpr ⟨hmerge.covers, fun span hspan => ?_⟩
        exact (forall_elementSpans hargs span hspan).append_right _
      · exact (hdone.append_token (by rw [hparen]; rfl)).append hread'
    · exact sim_checked_last (List.forall_mem_singleton.mpr hspan) hdone

theorem primary_agree (hexpr : Agree 0 depth expr expr' (Expr.Good (depth + 1))) :
    Agree 0 depth (Cursor.primary expr) (Parser.primary depth expr')
      (Expr.Good (depth + 1)) := by
  intro tokens scopes total _
  refine sim_advance (fun token hne => ?_) fun token heof hcovers => ?_
  · have hspan : Covers ([] ++ [token]) token.span := .token token
    obtain ⟨kind, span⟩ := token
    cases kind
    case integer value | float value | true | false =>
      exact sim_checked_last (List.forall_mem_singleton.mpr hspan) (.token rfl)
    case leftBracket => exact sim_arrayLiteral hexpr hspan (.token rfl)
    case identifier name => exact sim_namedExpression hexpr hspan (.token rfl)
    case i32 | f32 => exact sim_conversion hexpr hspan (.token rfl)
    case leftParen =>
      refine hexpr.bind (Nat.zero_le _) fun e read _ hread he => ?_
      refine sim_expect (by decide) fun stop hstop => ?_
      have hmerge : Merges ([] ++ [⟨.leftParen, span⟩] ++ read ++ [stop]) span stop.span :=
        .append (hspan.append_left read) (.token stop)
      refine sim_merge hmerge (sim_pure ⟨rfl, by simp, ?_, ?_, fun s hs => ?_⟩)
      · exact ((Neutral.token rfl).append hread).append_token (by rw [hstop]; rfl)
      · exact Expr.within_withSpan he.within _
      · rcases Expr.mem_spans_withSpan hs with rfl | hs
        · exact hmerge.covers
        · exact ((he.spans s hs).append_right _).append_left [stop]
    all_goals exact sim_fail hspan
  · rw [heof]
    exact sim_fail_covers hcovers

/-! ## Operators -/

/-- Every turn of the loop reads a token, and its bound is the number of tokens that were left. -/
theorem sim_postfixLoop (hexpr : Agree 0 depth expr expr' (Expr.Good (depth + 1))) (fuel : ℕ)
    {e : Expr} (hneutral : Neutral done) (he : e.Good (depth + 1) (Covers done))
    (hfuel : total ≤ done.length + fuel) :
    Sim tokens depth total scopes done (Cursor.postfixLoop expr fuel e)
      (Parser.postfixLoop depth expr' fuel e) scopes (Reads (Expr.Good (depth + 1))) := by
  induction fuel generalizing done e with
  | zero =>
    intro c p hrel
    obtain ⟨token, rest, htokens, -⟩ := hrel.exists_token
    have htotal := hrel.total
    rw [htokens, List.length_append, List.length_cons] at htotal
    omega
  | succ fuel ih =>
    have hspan := he.spans _ e.span_mem
    unfold Cursor.postfixLoop Parser.postfixLoop
    refine sim_take (by decide) (fun bracket hbracket => ?_) ?_
    · refine hexpr.bind (Nat.zero_le _) fun subscript read hne hread hsubscript => ?_
      refine sim_expect (by decide) fun stop hstop => ?_
      have hmerge : Merges (done ++ [bracket] ++ read ++ [stop]) e.span stop.span :=
        .append ((hspan.append_left [bracket]).append_left read) (.token stop)
      have hspans : ∀ span ∈ (Expr.index e subscript (e.span.merge stop.span)).spans,
          Covers (done ++ [bracket] ++ read ++ [stop]) span := by
        simp only [Expr.spans, List.mem_cons, List.mem_append]
        rintro span (rfl | hs | hs)
        · exact hmerge.covers
        · exact (((he.spans span hs).append_left [bracket]).append_left read).append_left [stop]
        · exact ((hsubscript.spans span hs).append_right _).append_left [stop]
      refine sim_merge hmerge (sim_checked hspans fun hwithin => ih ?_ ⟨hwithin, hspans⟩ ?_)
      · exact ((hneutral.append_token (by rw [hbracket]; rfl)).append hread).append_token
          (by rw [hstop]; rfl)
      · simp only [List.length_append, List.length_singleton]
        omega
    · refine sim_take (by decide) (fun dot hdot => ?_) ?_
      · refine sim_identifier fun name token hname => ?_
        have hmerge : Merges (done ++ [dot] ++ [token]) e.span token.span :=
          .append (hspan.append_left [dot]) (.token token)
        have hspans : ∀ span ∈ (Expr.field e name token.span (e.span.merge token.span)).spans,
            Covers (done ++ [dot] ++ [token]) span := by
          simp only [Expr.spans, List.mem_cons]
          rintro span (rfl | rfl | hs)
          · exact hmerge.covers
          · exact (Covers.token token).append_right _
          · exact ((he.spans span hs).append_left [dot]).append_left [token]
        refine sim_merge hmerge (sim_checked hspans fun hwithin => ih ?_ ⟨hwithin, hspans⟩ ?_)
        · exact (hneutral.append_token (by rw [hdot]; rfl)).append_token (by rw [hname]; rfl)
        · simp only [List.length_append, List.length_singleton]
          omega
      · exact sim_pure ⟨rfl, hspan.ne_nil, hneutral, he⟩

theorem postfixOperators_agree (hexpr : Agree 0 depth expr expr' (Expr.Good (depth + 1))) :
    Agree 0 depth (Cursor.postfixOperators expr) (Parser.postfixOperators depth expr')
      (Expr.Good (depth + 1)) := by
  intro tokens scopes total _
  refine (primary_agree hexpr).bind (Nat.zero_le _) fun e read _ hread he => ?_
  exact sim_remaining fun left hleft _ => sim_postfixLoop hexpr left hread he (by omega)

/-- What the prefix operators leave : one of them was read, the token at the cursor, or nothing. -/
theorem unaryOperator_cases {c : Cursor} {p : Parser}
    (hrel : Related tokens depth scopes total done c p) :
    (p.current.kind.isPlain ∧ ∃ op c' p', Cursor.unaryOperator c = .ok (some op, c') ∧
        Parser.unaryOperator p = .ok (some op, p') ∧
        Related tokens depth scopes total (done ++ [p.current]) c' p') ∨
      (Cursor.unaryOperator c = .ok (none, c) ∧ Parser.unaryOperator p = .ok (none, p)) := by
  rw [Cursor.unaryOperator, Parser.unaryOperator]
  rcases take_cases .minus (by decide) hrel with ⟨hat, c', p', hc, hp, hrel'⟩ | ⟨-, hc, hp⟩
  · rw [run_bind_ok hc, parse_bind_ok hp]
    exact .inl ⟨by rw [hat]; rfl, .negate, c', p', rfl, rfl, hrel'⟩
  · rw [run_bind_ok hc, parse_bind_ok hp]
    rcases take_cases .bang (by decide) hrel with
      ⟨hat, c', p', hc, hp, hrel'⟩ | ⟨-, hc, hp⟩
    · refine .inl ⟨by rw [hat]; rfl, .not, c', p', ?_, ?_, hrel'⟩
      · rw [if_neg Bool.false_ne_true, run_bind_ok hc]
        rfl
      · rw [if_neg Bool.false_ne_true, parse_bind_ok hp]
        rfl
    · refine .inr ⟨?_, ?_⟩
      · rw [if_neg Bool.false_ne_true, run_bind_ok hc]
        rfl
      · rw [if_neg Bool.false_ne_true, parse_bind_ok hp]
        rfl

theorem unaryWith_agree {operand : CursorM Expr} {operand' : ParseM Expr} {limit : ℕ}
    (hexpr : Agree 0 depth expr expr' (Expr.Good (depth + 1)))
    (hoperand : Agree 0 depth operand operand' (Expr.Good limit)) :
    Agree 0 depth (Cursor.unaryWith expr operand) (Parser.unaryWith depth expr' operand')
      (Expr.Good (depth + 1)) := by
  intro tokens scopes total _ c p hrel
  obtain ⟨token, rest, htokens, hcurrent, hget, -⟩ := hrel.exists_token
  rw [Cursor.unaryWith, run_bind_ok hget, Parser.unaryWith, parse_bind_ok (m := get) (p := p) rfl,
    hcurrent]
  rcases unaryOperator_cases hrel with ⟨hplain, op, c', p', hc, hp, hrel'⟩ | ⟨hc, hp⟩
  · rw [hcurrent] at hplain hrel'
    rw [run_bind_ok hc, parse_bind_ok hp]
    refine EndsAlike.append [token] ?_
    refine hoperand.bind (Nat.zero_le _) (fun operand read hne hread he => ?_) c' p' hrel'
    have hmerge : Merges ([] ++ [token] ++ read) token.span operand.span :=
      .append (.token token) (he.spans _ operand.span_mem)
    refine sim_merge hmerge (sim_checked_last ?_ ((Neutral.token hplain).append hread))
    simp only [Expr.spans, List.mem_cons]
    rintro span (rfl | hs)
    · exact hmerge.covers
    · exact (he.spans span hs).append_right _
  · rw [run_bind_ok hc, parse_bind_ok hp]
    exact postfixOperators_agree hexpr tokens scopes total (Nat.zero_le _) c p hrel

theorem sim_takeOperator {operators : List (TokenKind × BinaryOp)}
    (hplain : ∀ operator ∈ operators, operator.1.isPlain) {k : Option BinaryOp → CursorM α}
    {k' : Option BinaryOp → ParseM β}
    (hsome : ∀ op token, token.kind.isPlain →
      Sim tokens depth total scopes (done ++ [token]) (k (some op)) (k' (some op)) scopes' R)
    (hnone : Sim tokens depth total scopes done (k none) (k' none) scopes' R) :
    Sim tokens depth total scopes done (Cursor.takeOperator operators >>= k)
      (Parser.takeOperator operators >>= k') scopes' R := by
  refine sim_bind (P := fun done' a b => b = a ∧ ((∃ op token, token.kind.isPlain ∧ a = some op ∧
    done' = done ++ [token]) ∨ (a = none ∧ done' = done))) (s := scopes) ?_ ?_
  · induction operators with
    | nil => exact sim_pure ⟨rfl, .inr ⟨rfl, rfl⟩⟩
    | cons operator operators ih =>
      obtain ⟨hfirst, hrest⟩ := List.forall_mem_cons.mp hplain
      refine sim_take (fun h => ?_) (fun token hkind => ?_) (ih hrest)
      · rw [h] at hfirst
        cases hfirst
      · exact sim_pure ⟨rfl, .inl ⟨operator.2, token, by rw [hkind]; exact hfirst, rfl, rfl⟩⟩
  · rintro _ _ _ ⟨rfl, ⟨op, token, hkind, rfl, rfl⟩ | ⟨rfl, rfl⟩⟩
    · exact hsome op token hkind
    · exact hnone

theorem sim_binaryLoop {operators : List (TokenKind × BinaryOp)} {operand : CursorM Expr}
    {operand' : ParseM Expr} (hplain : ∀ operator ∈ operators, operator.1.isPlain)
    (hoperand : Agree 0 depth operand operand' (Expr.Good (depth + 1))) (fuel : ℕ) {left : Expr}
    (hneutral : Neutral done) (hleft : left.Good (depth + 1) (Covers done))
    (hfuel : total ≤ done.length + fuel) :
    Sim tokens depth total scopes done (Cursor.binaryLoop operators operand fuel left)
      (Parser.binaryLoop operators depth operand' fuel left) scopes
      (Reads (Expr.Good (depth + 1))) := by
  induction fuel generalizing done left with
  | zero =>
    intro c p hrel
    obtain ⟨token, rest, htokens, -⟩ := hrel.exists_token
    have htotal := hrel.total
    rw [htokens, List.length_append, List.length_cons] at htotal
    omega
  | succ fuel ih =>
    have hspan := hleft.spans _ left.span_mem
    unfold Cursor.binaryLoop Parser.binaryLoop
    refine sim_takeOperator hplain (fun op token hkind => ?_) ?_
    · refine hoperand.bind (Nat.zero_le _) fun right read hne hread hright => ?_
      have hmerge : Merges (done ++ [token] ++ read) left.span right.span :=
        .append (hspan.append_left [token]) (hright.spans _ right.span_mem)
      have hspans : ∀ span ∈ (Expr.binary left op right (left.span.merge right.span)).spans,
          Covers (done ++ [token] ++ read) span := by
        simp only [Expr.spans, List.mem_cons, List.mem_append]
        rintro span (rfl | hs | hs)
        · exact hmerge.covers
        · exact ((hleft.spans span hs).append_left [token]).append_left read
        · exact (hright.spans span hs).append_right _
      refine sim_merge hmerge (sim_checked hspans fun hwithin => ih ?_ ⟨hwithin, hspans⟩ ?_)
      · exact (hneutral.append_token hkind).append hread
      · simp only [List.length_append, List.length_singleton]
        omega
    · exact sim_pure ⟨rfl, hspan.ne_nil, hneutral, hleft⟩

theorem binaryLevel_agree (operators : List (TokenKind × BinaryOp)) {operand : CursorM Expr}
    {operand' : ParseM Expr} (hplain : ∀ operator ∈ operators, operator.1.isPlain)
    (hoperand : Agree 0 depth operand operand' (Expr.Good (depth + 1))) :
    Agree 0 depth (Cursor.binaryLevel operators operand)
      (Parser.binaryLevel operators depth operand') (Expr.Good (depth + 1)) := by
  intro tokens scopes total _
  refine hoperand.bind (Nat.zero_le _) fun left read _ hread he => ?_
  exact sim_remaining fun n hn _ => sim_binaryLoop hplain hoperand n hread he (by omega)

theorem logicalOr_agree {unary : CursorM Expr} {unary' : ParseM Expr}
    (hunary : Agree 0 depth unary unary' (Expr.Good (depth + 1))) :
    Agree 0 depth (Cursor.logicalOr unary) (Parser.logicalOr depth unary')
      (Expr.Good (depth + 1)) := by
  have hfactor := binaryLevel_agree factorOperators (by decide) hunary
  have hterm := binaryLevel_agree termOperators (by decide) hfactor
  have hcomparison := binaryLevel_agree comparisonOperators (by decide) hterm
  have hequality := binaryLevel_agree equalityOperators (by decide) hcomparison
  have hlogicalAnd := binaryLevel_agree logicalAndOperators (by decide) hequality
  exact binaryLevel_agree logicalOrOperators (by decide) hlogicalAnd

end

section

variable {depth levels : ℕ}

/-- One level of nesting is left to the production. -/
theorem nested_agree {α : Type} {least : ℕ} {run : CursorM α} {m : ParseM α}
    {good : (Span → Prop) → α → Prop} (h : Agree least depth run m good) :
    Agree least (depth + 1) (Cursor.nested run) m good :=
  fun tokens scopes total hleast => sim_nested (h tokens scopes total hleast)

theorem nested_zero_agree {α : Type} {least : ℕ} {run : CursorM α}
    {good : (Span → Prop) → α → Prop} : Agree least 0 (Cursor.nested run) Parser.exceeded good :=
  fun _ _ _ _ => sim_nested_zero

theorem Agree.mono {α : Type} {least : ℕ} {run : CursorM α} {m : ParseM α}
    {good good' : (Span → Prop) → α → Prop} (h : Agree least depth run m good)
    (hgood : ∀ covers a, good covers a → good' covers a) : Agree least depth run m good' :=
  fun tokens scopes total hleast => (h tokens scopes total hleast).mono fun _ _ _ hreads =>
    { hreads with good := hgood _ _ hreads.good }

theorem Expr.Good.succ {limit : ℕ} {covers : Span → Prop} {e : Expr} (h : e.Good limit covers) :
    e.Good (limit + 1) covers := ⟨h.within.mono (Nat.le_succ limit), h.spans⟩

/-- The recursion here has one level more than the nesting. -/
theorem unary_agree (hlevels : depth < levels) :
    Agree 0 depth (Cursor.unary levels) (Parser.unary depth) (Expr.Good (depth + 1)) := by
  induction depth generalizing levels with
  | zero =>
    obtain ⟨levels, rfl⟩ : ∃ n, levels = n + 1 := ⟨levels - 1, by omega⟩
    exact @unaryWith_agree _ _ _ _ _ 1 nested_zero_agree nested_zero_agree
  | succ depth ih =>
    obtain ⟨levels, rfl⟩ : ∃ n, levels = n + 1 := ⟨levels - 1, by omega⟩
    have hunary := @ih levels (by omega)
    refine unaryWith_agree ?_ (nested_agree hunary)
    exact (nested_agree (logicalOr_agree hunary)).mono fun _ _ h => h.succ

/-- An expression is no deeper than the levels that were left. -/
theorem expression_agree (hdepth : depth ≤ maxNesting) :
    Agree 0 depth Cursor.expression (Parser.expression depth) (Expr.Good depth) := by
  cases depth with
  | zero => exact nested_zero_agree
  | succ depth =>
    refine nested_agree (logicalOr_agree (unary_agree ?_))
    rw [Cursor.maxLevels]
    omega

end

end Speck
