import Speck.ParserExpression

/-!
# The spans of a syntax tree

Every span of a tree is read off the tokens it was parsed from : it starts where one of them
starts and stops where that one or a later one stops (`Covers`). Two spans are merged in the order
of their tokens (`Merges`).
-/

namespace Speck

/-! ## The spans of a program -/

mutual

def Expr.spans : Expr → List Span
  | .i32 _ span | .f32 _ span | .bool _ span | .var _ span => [span]
  | .arrayLiteral elements span | .call _ elements span | .conversion _ elements span =>
    span :: elementSpans elements
  | .structLiteral _ fields span => span :: initializerSpans fields
  | .index base index span => span :: (base.spans ++ index.spans)
  | .field base _ nameSpan span => span :: nameSpan :: base.spans
  | .unary _ operand span => span :: operand.spans
  | .binary left _ right span => span :: (left.spans ++ right.spans)

def elementSpans : List Expr → List Span
  | [] => []
  | e :: rest => e.spans ++ elementSpans rest

def initializerSpans : List (FieldInitializer Expr) → List Span
  | [] => []
  | ⟨_, value, span⟩ :: rest => span :: (value.spans ++ initializerSpans rest)

end

def FieldInitializer.spans (initializer : FieldInitializer Expr) : List Span :=
  initializer.span :: initializer.value.spans

def ArrayLength.spans : ArrayLength → List Span
  | .literal _ span | .constant _ span => [span]
  | _ => []

def ValueType.spans : ValueType → List Span
  | .array element length => element.spans ++ length.spans
  | _ => []

def ReturnType.spans : ReturnType → List Span
  | .value ty => ty.spans
  | .void => []

mutual

def Stmt.spans : Stmt → List Span
  | .letVar _ ty init span => span :: (ty.spans ++ init.spans)
  | .assign target _ value span => span :: (target.spans ++ value.spans)
  | .expr e span => span :: e.spans
  | .ifElse condition thenBlock elseBlock span =>
    span :: (condition.spans ++ blockSpans thenBlock ++
      match elseBlock with
      | some elseBlock => blockSpans elseBlock
      | none => [])
  | .whileLoop condition body span => span :: (condition.spans ++ blockSpans body)
  | .forLoop _ nameSpan lower upper body span =>
    span :: nameSpan :: (lower.spans ++ upper.spans ++ blockSpans body)
  | .ret value span => span :: (value.map Expr.spans).getD []

def blockSpans : List Stmt → List Span
  | [] => []
  | statement :: rest => statement.spans ++ blockSpans rest

end

def StructField.spans (field : StructField) : List Span := field.span :: field.ty.spans

def StructDecl.spans (decl : StructDecl) : List Span :=
  decl.span :: decl.fields.flatMap StructField.spans

def Constant.spans (constant : Constant) : List Span :=
  constant.span :: (constant.ty.spans ++ constant.init.spans)

def Global.spans (global : Global) : List Span :=
  global.span :: (global.ty.spans ++ global.init.spans)

def Param.spans (param : Param) : List Span := param.span :: param.ty.spans

def Function.spans (function : Function) : List Span :=
  function.span ::
    (function.params.flatMap Param.spans ++ function.returnType.spans ++ blockSpans function.body)

def Program.spans (program : Program) : List Span :=
  program.titleSpan :: (program.structs.flatMap StructDecl.spans ++
    program.sounds.map (·.span) ++ program.constants.flatMap Constant.spans ++
    program.globals.flatMap Global.spans ++ program.functions.flatMap Function.spans)

theorem elementSpans_eq (es : List Expr) : elementSpans es = es.flatMap Expr.spans := by
  induction es with
  | nil => rfl
  | cons e es ih => rw [elementSpans, ih, List.flatMap_cons]

theorem initializerSpans_eq (fields : List (FieldInitializer Expr)) :
    initializerSpans fields = fields.flatMap FieldInitializer.spans := by
  induction fields with
  | nil => rfl
  | cons field fields ih =>
    rw [initializerSpans, ih, List.flatMap_cons]
    rfl

theorem blockSpans_eq (statements : List Stmt) :
    blockSpans statements = statements.flatMap Stmt.spans := by
  induction statements with
  | nil => rfl
  | cons statement statements ih => rw [blockSpans, ih, List.flatMap_cons]

theorem Expr.span_mem (e : Expr) : e.span ∈ e.spans := by
  cases e <;> simp [Expr.span, Expr.spans]

theorem Expr.span_withSpan (e : Expr) (span : Span) : (e.withSpan span).span = span := by
  cases e <;> rfl

theorem Expr.mem_spans_withSpan {e : Expr} {span s : Span} (h : s ∈ (e.withSpan span).spans) :
    s = span ∨ s ∈ e.spans := by
  cases e <;> simp only [withSpan, spans, List.mem_cons] at h ⊢ <;> tauto

/-- The spans of the parts are spans of the whole. -/
theorem Expr.spans_parts {e part : Expr} (h : part ∈ e.parts) {s : Span} (hs : s ∈ part.spans) :
    s ∈ e.spans := by
  cases e with
  | i32 value span | f32 value span | bool value span | var name span => cases h
  | arrayLiteral elements span | call name elements span | conversion target elements span =>
    rw [spans, elementSpans_eq]
    exact List.mem_cons_of_mem _ (List.mem_flatMap.mpr ⟨part, h, hs⟩)
  | structLiteral name fields span =>
    obtain ⟨field, hfield, rfl⟩ := List.mem_map.mp h
    rw [spans, initializerSpans_eq]
    exact List.mem_cons_of_mem _
      (List.mem_flatMap.mpr ⟨field, hfield, List.mem_cons_of_mem _ hs⟩)
  | index base index span =>
    simp only [parts, List.mem_cons, List.not_mem_nil, or_false] at h
    rcases h with rfl | rfl <;> simp [spans, hs]
  | binary left op right span =>
    simp only [parts, List.mem_cons, List.not_mem_nil, or_false] at h
    rcases h with rfl | rfl <;> simp [spans, hs]
  | field base name nameSpan span =>
    obtain rfl := List.mem_singleton.mp h
    simp [spans, hs]
  | unary op operand span =>
    obtain rfl := List.mem_singleton.mp h
    simp [spans, hs]

open Speck.Parser (checkPending) in
/-- The check of the nesting reports at an expression that it was given, or below one. -/
theorem span_of_checkPending {pending : List (Expr × ℕ)} {d : Diagnostic}
    (h : checkPending pending = .error d) : ∃ item ∈ pending, d.span ∈ item.1.spans := by
  fun_induction checkPending pending with
  | case1 => cases h
  | case2 e depth pending hdeep =>
    obtain rfl := Except.error.inj h
    exact ⟨(e, depth), List.mem_cons_self, e.span_mem⟩
  | case3 e depth pending hdeep ih =>
    obtain ⟨item, hitem, hspan⟩ := ih h
    rcases List.mem_append.mp hitem with hpart | hrest
    · obtain ⟨part, hmem, rfl⟩ := List.mem_map.mp (List.mem_reverse.mp hpart)
      exact ⟨(e, depth), List.mem_cons_self, Expr.spans_parts hmem hspan⟩
    · exact ⟨item, List.mem_cons_of_mem _ hrest, hspan⟩

/-! ## Spans of tokens -/

/-- The span starts with one of the tokens and stops with that one or a later one. -/
structure Covers (tokens : List Token) (span : Span) : Prop where
  exists_tokens : ∃ before after first last, tokens = before ++ after ∧ after.head? = some first ∧
    last ∈ after ∧ span = ⟨first.span.source, first.span.start, last.span.stop⟩

theorem Covers.token (token : Token) : Covers [token] token.span :=
  ⟨[], [token], token, token, rfl, rfl, List.mem_singleton_self _, rfl⟩

theorem Covers.append_left {tokens : List Token} {span : Span} (h : Covers tokens span)
    (rest : List Token) : Covers (tokens ++ rest) span := by
  obtain ⟨before, after, first, last, rfl, hfirst, hlast, hspan⟩ := h
  refine ⟨before, after ++ rest, first, last, by rw [List.append_assoc], ?_,
    List.mem_append_left _ hlast, hspan⟩
  rw [List.head?_append, hfirst]
  rfl

theorem Covers.append_right {tokens : List Token} {span : Span} (h : Covers tokens span)
    (before : List Token) : Covers (before ++ tokens) span := by
  obtain ⟨before', after, first, last, rfl, hfirst, hlast, hspan⟩ := h
  exact ⟨before ++ before', after, first, last, by rw [List.append_assoc], hfirst, hlast, hspan⟩

theorem Covers.ne_nil {tokens : List Token} {span : Span} (h : Covers tokens span) :
    tokens ≠ [] := by
  obtain ⟨before, after, first, last, rfl, hfirst, hlast, hspan⟩ := h
  intro hnil
  rw [List.append_eq_nil_iff] at hnil
  rw [hnil.2] at hlast
  cases hlast

/-- The tokens of one file. -/
def OneFile (tokens : List Token) : Prop :=
  ∀ t ∈ tokens, ∀ u ∈ tokens, t.span.source = u.span.source

/-- Every token stops after it starts and before the next one starts. -/
structure InOrder (tokens : List Token) : Prop where
  pairwise : tokens.Pairwise fun t u => t.span.stop ≤ u.span.start
  each : ∀ t ∈ tokens, t.span.start ≤ t.span.stop

theorem OneFile.mono {tokens tokens' : List Token} (h : OneFile tokens)
    (hsub : tokens' ⊆ tokens) : OneFile tokens' := fun t ht u hu => h t (hsub ht) u (hsub hu)

theorem InOrder.sublist {tokens tokens' : List Token} (h : InOrder tokens)
    (hsub : tokens'.Sublist tokens) : InOrder tokens' :=
  ⟨h.pairwise.sublist hsub, fun t ht => h.each t (hsub.subset ht)⟩

theorem Covers.source_eq {tokens : List Token} {span : Span} (h : Covers tokens span) :
    ∃ t ∈ tokens, span.source = t.span.source := by
  obtain ⟨before, after, first, last, rfl, hfirst, hlast, rfl⟩ := h
  exact ⟨first, List.mem_append_right _ (List.mem_of_mem_head? hfirst), rfl⟩

theorem Covers.start_eq {tokens : List Token} {span : Span} (h : Covers tokens span) :
    ∃ t ∈ tokens, span.start = t.span.start := by
  obtain ⟨before, after, first, last, rfl, hfirst, hlast, rfl⟩ := h
  exact ⟨first, List.mem_append_right _ (List.mem_of_mem_head? hfirst), rfl⟩

theorem Covers.stop_eq {tokens : List Token} {span : Span} (h : Covers tokens span) :
    ∃ t ∈ tokens, span.stop = t.span.stop := by
  obtain ⟨before, after, first, last, rfl, hfirst, hlast, rfl⟩ := h
  exact ⟨last, List.mem_append_right _ hlast, rfl⟩

theorem InOrder.start_le_stop {tokens : List Token} (h : InOrder tokens) {span : Span}
    (hcovers : Covers tokens span) : span.start ≤ span.stop := by
  obtain ⟨before, after, first, last, rfl, hfirst, hlast, rfl⟩ := hcovers
  cases after with
  | nil => cases hlast
  | cons head after =>
    obtain rfl : head = first := Option.some.inj hfirst
    have hhead : head.span.start ≤ head.span.stop :=
      h.each head (List.mem_append_right _ List.mem_cons_self)
    rcases List.mem_cons.mp hlast with rfl | hmem
    · exact hhead
    · have hpair := (List.pairwise_append.mp h.pairwise).2.1
      have hbetween := (List.pairwise_cons.mp hpair).1 last hmem
      have hlastSpan : last.span.start ≤ last.span.stop :=
        h.each last (List.mem_append_right _ hlast)
      dsimp only
      omega

/-! ## Merging -/

/-- The tokens of `a` are before those of `b`, or `b` is `a`. -/
inductive Merges (tokens : List Token) (a b : Span) : Prop where
  | before (left right : List Token) (append : tokens = left ++ right) (ha : Covers left a)
      (hb : Covers right b)
  | same (eq : b = a) (ha : Covers tokens a)

theorem Merges.append {left right : List Token} {a b : Span} (ha : Covers left a)
    (hb : Covers right b) : Merges (left ++ right) a b := .before left right rfl ha hb

theorem Merges.append_left {tokens : List Token} {a b : Span} (h : Merges tokens a b)
    (rest : List Token) : Merges (tokens ++ rest) a b := by
  cases h with
  | before left right append ha hb =>
    exact .before left (right ++ rest) (by rw [append, List.append_assoc]) ha (hb.append_left rest)
  | same eq ha => exact .same eq (ha.append_left rest)

theorem Merges.append_right {tokens : List Token} {a b : Span} (h : Merges tokens a b)
    (before : List Token) : Merges (before ++ tokens) a b := by
  cases h with
  | before left right append ha hb =>
    exact .before (before ++ left) right (by rw [append, List.append_assoc])
      (ha.append_right before) hb
  | same eq ha => exact .same eq (ha.append_right before)

theorem Merges.covers {tokens : List Token} {a b : Span} (h : Merges tokens a b) :
    Covers tokens (a.merge b) := by
  cases h with
  | before left right append ha hb =>
    obtain ⟨before, after, first, last, rfl, hfirst, hlast, rfl⟩ := ha
    obtain ⟨before', after', first', last', rfl, hfirst', hlast', rfl⟩ := hb
    refine ⟨before, after ++ (before' ++ after'), first, last',
      by rw [append, List.append_assoc], ?_, by simp [hlast'], rfl⟩
    rw [List.head?_append, hfirst]
    rfl
  | same eq ha =>
    subst eq
    exact ha

/-- The assertion of `Span::merge`. -/
theorem Merges.source_eq {tokens : List Token} {a b : Span} (h : Merges tokens a b)
    (hfile : OneFile tokens) : a.source = b.source := by
  cases h with
  | before left right append ha hb =>
    obtain ⟨t, ht, hat⟩ := ha.source_eq
    obtain ⟨u, hu, hbu⟩ := hb.source_eq
    rw [hat, hbu]
    exact hfile t (by simp [append, ht]) u (by simp [append, hu])
  | same eq ha => rw [eq]

theorem Merges.in_order {tokens : List Token} {a b : Span} (h : Merges tokens a b)
    (horder : InOrder tokens) : a.start ≤ b.start ∧ a.stop ≤ b.stop := by
  cases h with
  | before left right append ha hb =>
    rw [append] at horder
    obtain ⟨t, ht, hastop⟩ := ha.stop_eq
    obtain ⟨u, hu, hbstart⟩ := hb.start_eq
    have hbetween := (List.pairwise_append.mp horder.pairwise).2.2 t ht u hu
    have hstarts := (horder.sublist (List.sublist_append_left _ _)).start_le_stop ha
    have hstops := (horder.sublist (List.sublist_append_right _ _)).start_le_stop hb
    omega
  | same eq ha =>
    subst eq
    exact ⟨le_refl _, le_refl _⟩

end Speck
