import Speck.ParseRules

/-!
# Parsing printed expressions

The parser of a level reads what is printed at that level, up to a token that does not continue an
expression there. The loops of binary operators and of postfix chains fold to the left, so they are
followed along the left spine of the expression, with the rest of the loop as a continuation.
-/

namespace Speck

/-! ## Names -/

theorem splitQualified_eq {chars : List Char} {qualifier member : List Char}
    (h : splitQualified chars = some (qualifier, member)) :
    chars = qualifier ++ ':' :: ':' :: member := by
  fun_induction splitQualified chars generalizing qualifier with
  | case1 member' =>
    simp only [Option.some.injEq, Prod.mk.injEq] at h
    simp [← h.1, ← h.2]
  | case2 c cs _ ih =>
    simp only [Option.map_eq_some_iff, Prod.exists, Prod.mk.injEq] at h
    obtain ⟨qualifier', member', hsplit, rfl, rfl⟩ := h
    rw [ih hsplit]
    rfl
  | case3 => cases h

/-- A name is an identifier, or an alias and a member. -/
theorem nameTokens_cases (name : String) :
    nameTokens name = [.identifier name] ∨
      ∃ qualifier member, nameTokens name = [.identifier qualifier, .colonColon, .identifier member] ∧
        qualifier ++ "::" ++ member = name := by
  unfold nameTokens
  cases h : splitQualified name.toList with
  | none => exact .inl rfl
  | some result =>
    obtain ⟨qualifier, member⟩ := result
    refine .inr ⟨_, _, rfl, ?_⟩
    rw [← String.toList_inj, splitQualified_eq h]
    simp

/-! ## Levels -/

theorem Expr.one_le_level (e : Expr) : 1 ≤ e.level := by
  cases e with
  | binary left op right span => cases op <;> simp [level, BinaryOp.level]
  | _ => simp [level]

/-- Only the binary operators are looser than the prefix operators. -/
theorem Expr.binary_of_level_le {e : Expr} (h : e.level ≤ 6) :
    ∃ left op right span, e = .binary left op right span := by
  cases e with
  | binary left op right span => exact ⟨left, op, right, span, rfl⟩
  | _ => simp [level] at h

theorem Expr.unary_of_level {e : Expr} (h : e.level = 7) :
    ∃ op operand span, e = .unary op operand span := by
  cases e with
  | unary op operand span => exact ⟨op, operand, span, rfl⟩
  | binary left op right span => cases op <;> simp [level, BinaryOp.level] at h
  | _ => simp [level] at h

theorem BinaryOp.level_le (op : BinaryOp) : op.level ≤ 6 := by
  cases op <;> simp [level]

theorem BinaryOp.kind_ne_eof (op : BinaryOp) : op.kind ≠ .eof := by cases op <;> simp [kind]

theorem BinaryOp.kind_injective {op op' : BinaryOp} (h : op.kind = op'.kind) : op = op' := by
  cases op <;> cases op' <;> simp_all [kind]

theorem enclose_of_le {least level : ℕ} (h : least ≤ level) (tokens : List TokenKind) :
    enclose least level tokens = tokens := if_neg (by omega)

/-- Another level than `least` is enclosed for it as for the next. -/
theorem enclose_succ {least level : ℕ} (h : level ≠ least) (tokens : List TokenKind) :
    enclose least level tokens = enclose (least + 1) level tokens := by
  unfold enclose
  by_cases hlt : level < least
  · rw [if_pos hlt, if_pos (by omega)]
  · rw [if_neg hlt, if_neg (by omega)]

namespace Parser

/-- The level at which a token continues an expression. -/
def operatorLevel : TokenKind → ℕ
  | .orOr => 1
  | .andAnd => 2
  | .equalEqual | .bangEqual => 3
  | .less | .lessEqual | .greater | .greaterEqual => 4
  | .plus | .minus => 5
  | .star | .slash | .percent => 6
  | .leftBracket | .dot => 8
  | .leftParen | .colonColon => 9
  | _ => 0

/-- The tokens do not continue an expression of level `k`, nor are they the fields of a struct
literal. -/
structure Follows (k : ℕ) (rest : List TokenKind) : Prop where
  operator : operatorLevel (rest.headD .eof) < k
  fields : ∀ name tail, rest ≠ .leftBrace :: .identifier name :: .colon :: tail

theorem Follows.mono {k l : ℕ} {rest : List TokenKind} (h : Follows k rest) (hkl : k ≤ l) :
    Follows l rest := ⟨h.operator.trans_le hkl, h.fields⟩

/-- A token that is neither an operator of the level nor `{`. -/
theorem follows_cons {k : ℕ} {kind : TokenKind} {rest : List TokenKind}
    (hlevel : operatorLevel kind < k) (hbrace : kind ≠ .leftBrace) : Follows k (kind :: rest) :=
  ⟨hlevel, fun _ _ h => hbrace (List.cons.inj h).1⟩

theorem operatorLevel_kind (op : BinaryOp) : operatorLevel op.kind = op.level := by
  cases op <;> rfl

theorem follows_operator (op : BinaryOp) (rest : List TokenKind) :
    Follows (op.level + 1) (op.kind :: rest) :=
  follows_cons (by rw [operatorLevel_kind]; omega) (by cases op <;> simp [BinaryOp.kind])

/-! ## First tokens -/

/-- The tokens with which an expression starts. -/
def startsExpression : TokenKind → Bool
  | .identifier _ | .integer _ | .float _ | .true | .false | .i32 | .f32 | .leftParen
  | .leftBracket | .minus | .bang => true
  | _ => false

/-- Tokens that start as an expression does, and not as the field of a struct literal. -/
def Opens (kinds : List TokenKind) : Prop :=
  ∃ head tail, kinds = head :: tail ∧ startsExpression head = true ∧
    tail.head? ≠ some .colon

theorem Opens.append {kinds : List TokenKind} (h : Opens kinds) {rest : List TokenKind}
    (hrest : rest.head? ≠ some .colon) : Opens (kinds ++ rest) := by
  obtain ⟨head, tail, rfl, hhead, htail⟩ := h
  refine ⟨head, tail ++ rest, rfl, hhead, ?_⟩
  cases tail with
  | nil => exact hrest
  | cons kind tail => exact htail

theorem Opens.cons {kind : TokenKind} {rest : List TokenKind} (hkind : startsExpression kind = true)
    (hrest : rest.head? ≠ some .colon) : Opens (kind :: rest) := ⟨kind, rest, rfl, hkind, hrest⟩

theorem Opens.headD_ne {kinds : List TokenKind} (h : Opens kinds) {kind : TokenKind}
    (hkind : startsExpression kind = false) (rest : List TokenKind) :
    (kinds ++ rest).headD .eof ≠ kind := by
  obtain ⟨head, tail, rfl, hhead, -⟩ := h
  rintro rfl
  exact absurd hhead (by simpa using hkind)

theorem opens_nameTokens (name : String) : Opens (nameTokens name) := by
  rcases nameTokens_cases name with h | ⟨qualifier, member, h, -⟩
  · rw [h]
    exact .cons rfl (by simp)
  · rw [h]
    exact .cons rfl (by simp)

theorem startsExpression_ne_colon {head : TokenKind} (h : startsExpression head = true) :
    head ≠ .colon := by
  rintro rfl
  cases h

theorem Opens.head?_ne {kinds : List TokenKind} (h : Opens kinds) (rest : List TokenKind) :
    (kinds ++ rest).head? ≠ some .colon := by
  obtain ⟨head, tail, rfl, hhead, -⟩ := h
  simpa using startsExpression_ne_colon hhead

theorem opens_enclose {kinds : List TokenKind} (h : Opens kinds) (least level : ℕ) :
    Opens (enclose least level kinds) := by
  unfold enclose
  split
  · exact .cons rfl (h.head?_ne _)
  · exact h

theorem opens_tokens {structs bound : List String} {e : Expr} (he : e.Printable structs bound) :
    Opens e.tokens := by
  induction he with
  | @intro e _ _ ih =>
    cases e with
    | i32 value span | f32 value span => exact .cons rfl (by simp)
    | bool value span => cases value <;> exact .cons rfl (by simp)
    | arrayLiteral elements span =>
      refine .cons rfl ?_
      cases elements with
      | nil => simp [listTokens]
      | cons e es =>
        have hopens : Opens e.tokens := ih e (by simp [Expr.parts])
        cases es with
        | nil => exact hopens.head?_ne _
        | cons e' es =>
          simp only [listTokens, List.append_assoc]
          exact hopens.head?_ne _
    | structLiteral name fields span =>
      exact (opens_nameTokens name).append (by simp)
    | var name span => exact opens_nameTokens name
    | index base subscript span =>
      have hopens : Opens base.tokens := ih base (by simp [Expr.parts])
      exact (opens_enclose hopens _ _).append (by simp)
    | field base name nameSpan span =>
      have hopens : Opens base.tokens := ih base (by simp [Expr.parts])
      exact (opens_enclose hopens _ _).append (by simp)
    | unary op operand span =>
      have hopens : Opens operand.tokens := ih operand (by simp [Expr.parts])
      have hclosed := (opens_enclose hopens 7 operand.level).head?_ne []
      rw [List.append_nil] at hclosed
      exact .cons (by cases op <;> rfl) hclosed
    | binary left op right span =>
      have hopens : Opens left.tokens := ih left (by simp [Expr.parts])
      exact (opens_enclose hopens _ _).append (by cases op <;> simp [BinaryOp.kind])
    | call name args span => exact (opens_nameTokens name).append (by simp)
    | conversion target args span =>
      refine .cons ?_ (by simp)
      unfold NumericType.kind
      split <;> rfl

/-! ## Reading a level -/

variable {β : Type} {p : Parser} {structs : List String} {scopes : List (List String)}
  {kinds : List TokenKind} {post : β → Parser → Prop}

/-- The parser reads `e` where it is printed for level `k`. -/
def Reads (structs : List String) (scopes : List (List String)) (parser : ParseM Expr) (k : ℕ)
    (e : Expr) : Prop :=
  ∀ rest p, Follows k rest → p.At structs scopes (enclose k e.level e.tokens ++ rest) →
    Parses parser p fun e' p' => e'.strip = e.strip ∧ p'.At structs scopes rest

/-- The parser reads every printable expression. -/
def ReadsAll (structs : List String) (scopes : List (List String)) (parser : ParseM Expr)
    (k : ℕ) : Prop :=
  ∀ e, e.Printable structs scopes.flatten → Reads structs scopes parser k e

theorem readsAll_exceeded (k : ℕ) : ReadsAll structs scopes exceeded k :=
  fun _ _ _ _ _ _ => parses_exceeded

/-- An expression at the loosest level is printed without parentheses. -/
theorem ReadsAll.read {parser : ParseM Expr} (h : ReadsAll structs scopes parser 1) {e : Expr}
    (he : e.Printable structs scopes.flatten) {rest : List TokenKind} (hrest : Follows 1 rest)
    (hp : p.At structs scopes (e.tokens ++ rest)) {k : Expr → ParseM β}
    (hk : ∀ e' p', e'.strip = e.strip → p'.At structs scopes rest → Parses (k e') p' post) :
    Parses (parser >>= k) p post := by
  refine parses_bind _ (h e he rest p hrest ?_) fun e' p' ⟨hstrip, hp'⟩ => hk e' p' hstrip hp'
  rwa [enclose_of_le e.one_le_level]

/-! ## Binary operators -/

/-- The operators of a level, under their tokens. -/
structure IsLevel (operators : List (TokenKind × BinaryOp)) (n : ℕ) : Prop where
  mem : ∀ op : BinaryOp, op.level = n → (op.kind, op) ∈ operators
  kind : ∀ pair ∈ operators, pair = (pair.2.kind, pair.2) ∧ pair.2.level = n

theorem takeOperator_some {operators : List (TokenKind × BinaryOp)} {op : BinaryOp}
    (hkinds : ∀ pair ∈ operators, pair = (pair.2.kind, pair.2)) (hmem : (op.kind, op) ∈ operators)
    (h : p.At structs scopes (op.kind :: kinds)) {k : Option BinaryOp → ParseM β}
    (hk : ∀ p', p'.At structs scopes kinds → Parses (k (some op)) p' post) :
    Parses (takeOperator operators >>= k) p post := by
  refine parses_bind (fun result p' => result = some op ∧ p'.At structs scopes kinds) ?_ ?_
  · induction operators with
    | nil => simp at hmem
    | cons pair operators ih =>
      obtain ⟨kind, op'⟩ := pair
      have hkind : kind = op'.kind := (Prod.mk.inj (hkinds _ (by simp))).1
      unfold takeOperator
      by_cases heq : op = op'
      · subst heq
        rw [hkind]
        exact h.take_true (BinaryOp.kind_ne_eof op) fun p' hp' => parses_pure ⟨rfl, hp'⟩
      · refine h.take_false ?_ (ih (fun pair hpair => hkinds pair (by simp [hpair])) ?_)
        · rw [hkind]
          exact fun h => heq (BinaryOp.kind_injective h)
        · rcases List.mem_cons.mp hmem with hhead | htail
          · exact absurd (Prod.mk.inj hhead).2 heq
          · exact htail
  · rintro _ p' ⟨rfl, hp'⟩
    exact hk p' hp'

theorem takeOperator_none {operators : List (TokenKind × BinaryOp)}
    (hne : ∀ pair ∈ operators, kinds.headD .eof ≠ pair.1) (h : p.At structs scopes kinds)
    {k : Option BinaryOp → ParseM β} (hk : Parses (k none) p post) :
    Parses (takeOperator operators >>= k) p post := by
  refine parses_bind (fun result p' => result = none ∧ p' = p) ?_ ?_
  · induction operators with
    | nil => exact parses_pure ⟨rfl, rfl⟩
    | cons pair operators ih =>
      unfold takeOperator
      exact h.take_false (hne pair (by simp)) (ih fun pair hpair => hne pair (by simp [hpair]))
  · rintro _ _ ⟨rfl, rfl⟩
    exact hk

/-- A token that follows a level ends its loop. -/
theorem binaryLoop_stop {operators : List (TokenKind × BinaryOp)} {n : ℕ}
    (hlevel : IsLevel operators n) {depth fuel : ℕ} {operand : ParseM Expr} {left : Expr}
    (hrest : Follows n kinds) (h : p.At structs scopes kinds) {post : Expr → Parser → Prop}
    (hpost : post left p) : Parses (binaryLoop operators depth operand fuel left) p post := by
  cases fuel with
  | zero => exact parses_pure hpost
  | succ fuel =>
    unfold binaryLoop
    refine takeOperator_none (fun pair hpair heq => ?_) h (parses_pure hpost)
    have hoperator := hrest.operator
    obtain ⟨hkind, hn⟩ := hlevel.kind pair hpair
    rw [heq, (Prod.mk.inj hkind).1, operatorLevel_kind, hn] at hoperator
    omega

/-- One turn of the loop reads an operator and its right operand. -/
theorem binaryLoop_step {operators : List (TokenKind × BinaryOp)} {op : BinaryOp}
    (hlevel : IsLevel operators op.level) {depth fuel : ℕ} {operand : ParseM Expr}
    {left left' right : Expr} {span : Span} (hright : Reads structs scopes operand (op.level + 1) right)
    {rest : List TokenKind} (hrest : Follows (op.level + 1) rest)
    (hleft : left'.strip = left.strip)
    (h : p.At structs scopes
      (op.kind :: (enclose (op.level + 1) right.level right.tokens ++ rest)))
    (hfuel : rest.length < fuel) {post : Expr → Parser → Prop}
    (hk : ∀ fuel e' p', rest.length ≤ fuel → e'.strip = (Expr.binary left op right span).strip →
      p'.At structs scopes rest → Parses (binaryLoop operators depth operand fuel e') p' post) :
    Parses (binaryLoop operators depth operand fuel left') p post := by
  obtain _ | fuel := fuel
  · omega
  unfold binaryLoop
  refine takeOperator_some (fun pair hpair => (hlevel.kind pair hpair).1) (hlevel.mem op rfl) h
    fun p' hp' => ?_
  refine parses_bind _ (hright rest p' hrest hp') ?_
  rintro right' p'' ⟨hstrip, hp''⟩
  refine parses_checked_bind (hk fuel _ p'' (by omega) ?_ hp'')
  simp [Expr.strip, hleft, hstrip]

/-- The left spine of a level, with the rest of the loop as a continuation. -/
theorem binaryLevel_spine {operators : List (TokenKind × BinaryOp)} {n : ℕ}
    (hlevel : IsLevel operators n) (hn : n ≤ 6) {depth : ℕ} {operand : ParseM Expr}
    (hoperand : ReadsAll structs scopes operand (n + 1)) {e : Expr}
    (he : e.Printable structs scopes.flatten) {rest : List TokenKind}
    (hrest : Follows (n + 1) rest)
    (h : p.At structs scopes (enclose n e.level e.tokens ++ rest)) {post : Expr → Parser → Prop}
    (hk : ∀ fuel e' p', rest.length ≤ fuel → e'.strip = e.strip → p'.At structs scopes rest →
      Parses (binaryLoop operators depth operand fuel e') p' post) :
    Parses (binaryLevel operators depth operand) p post := by
  induction he generalizing rest with
  | @intro e named parts ih =>
    by_cases heq : e.level = n
    · obtain ⟨left, op, right, span, rfl⟩ := e.binary_of_level_le (heq ▸ hn)
      subst heq
      rw [enclose_of_le le_rfl] at h
      simp only [Expr.tokens, Expr.level, List.append_assoc, List.cons_append] at h hrest hoperand
      refine ih left (by simp [Expr.parts]) (follows_operator op _) h fun fuel left' p' hfuel hleft hp' => ?_
      refine binaryLoop_step hlevel (hoperand right (parts right (by simp [Expr.parts]))) hrest hleft
        hp' ?_ hk
      simp only [List.length_cons, List.length_append] at hfuel
      omega
    · refine parses_bind _ (hoperand e ⟨named, parts⟩ rest p hrest ?_) ?_
      · rwa [← enclose_succ heq]
      · rintro e' p' ⟨hstrip, hp'⟩
        exact hp'.remaining (hk _ e' p' le_rfl hstrip hp')

/-- A level of left-associative operators reads what is printed at it. -/
theorem binaryLevel_reads {operators : List (TokenKind × BinaryOp)} {n : ℕ}
    (hlevel : IsLevel operators n) (hn : n ≤ 6) {depth : ℕ} {operand : ParseM Expr}
    (hoperand : ReadsAll structs scopes operand (n + 1)) :
    ReadsAll structs scopes (binaryLevel operators depth operand) n := by
  intro e he rest p hrest h
  refine binaryLevel_spine hlevel hn hoperand he (hrest.mono (by omega)) h ?_
  exact fun fuel e' p' _ hstrip hp' => binaryLoop_stop hlevel hrest hp' ⟨hstrip, hp'⟩

/-- The operators of each level. -/
def levelOperators : ℕ → List (TokenKind × BinaryOp)
  | 1 => logicalOrOperators
  | 2 => logicalAndOperators
  | 3 => equalityOperators
  | 4 => comparisonOperators
  | 5 => termOperators
  | 6 => factorOperators
  | _ => []

/-- The six levels, over the prefix operators. -/
theorem logicalOr_reads {depth : ℕ} {unary : ParseM Expr}
    (hunary : ReadsAll structs scopes unary 7) :
    ReadsAll structs scopes (logicalOr depth unary) 1 := by
  have hmem : ∀ op : BinaryOp, (op.kind, op) ∈ levelOperators op.level := by
    intro op
    cases op <;> decide
  have hlevel : ∀ n, 1 ≤ n → n ≤ 6 → IsLevel (levelOperators n) n := by
    refine fun n hone hsix => ⟨fun op hop => hop ▸ hmem op, ?_⟩
    interval_cases n <;> decide
  have hread : ∀ n, 1 ≤ n → n ≤ 6 → ∀ operand, ReadsAll structs scopes operand (n + 1) →
      ReadsAll structs scopes (binaryLevel (levelOperators n) depth operand) n :=
    fun n hone hsix _ hoperand => binaryLevel_reads (hlevel n hone hsix) hsix hoperand
  have hfactor := hread 6 (by omega) (by omega) _ hunary
  have hterm := hread 5 (by omega) (by omega) _ hfactor
  have hcomparison := hread 4 (by omega) (by omega) _ hterm
  have hequality := hread 3 (by omega) (by omega) _ hcomparison
  have hand := hread 2 (by omega) (by omega) _ hequality
  exact hread 1 (by omega) (by omega) _ hand

/-! ## Names and primaries -/

theorem commaTokens_listTokens (es : List Expr) :
    listTokens es = commaTokens (es.map Expr.tokens) := by
  induction es with
  | nil => simp [listTokens, commaTokens]
  | cons e es ih => cases es <;> simp_all [listTokens, commaTokens]

theorem map_strip (es : List Expr) : stripList es = es.map Expr.strip := by
  induction es with
  | nil => simp [stripList]
  | cons e es ih => simp [stripList, ih]

theorem qualifiedName_reads {name head : String} {tail rest : List TokenKind}
    (hname : nameTokens name = .identifier head :: tail) (hrest : rest.headD .eof ≠ .colonColon)
    (h : p.At structs scopes (tail ++ rest)) {start : Span} {k : String × Span → ParseM β}
    (hk : ∀ span p', p'.At structs scopes rest → Parses (k (name, span)) p' post) :
    Parses (qualifiedName head start >>= k) p post := by
  refine parses_bind (fun result p' => result.1 = name ∧ p'.At structs scopes rest) ?_ ?_
  · rcases nameTokens_cases name with hsimple | ⟨qualifier, member, hqualified, hjoin⟩
    · rw [hsimple] at hname
      obtain ⟨hhead, rfl⟩ := List.cons.inj hname
      exact h.take_false hrest (parses_pure ⟨(TokenKind.identifier.inj hhead).symm, h⟩)
    · rw [hqualified] at hname
      obtain ⟨hhead, rfl⟩ := List.cons.inj hname
      obtain rfl := TokenKind.identifier.inj hhead
      refine h.take_true (by simp) fun p' hp' => ?_
      refine hp'.identifier fun span p'' hp'' => ?_
      exact hp''.isAt_false hrest (parses_pure ⟨hjoin, hp''⟩)
  · rintro ⟨_, span⟩ p' ⟨rfl, hp'⟩
    exact hk span p' hp'

/-- The name of a struct that is not bound, before its fields. -/
theorem At.isStructLiteral {name : String} (h : p.At structs scopes (.leftBrace :: kinds))
    (hname : name ∈ structs) (hbound : name ∉ scopes.flatten) :
    p.looksLikeStructLiteral name = true := by
  have hvalue : p.isValueBinding name = false := by
    simpa using mt (h.isValueBinding name).mp hbound
  unfold looksLikeStructLiteral
  rw [h.current_kind, h.structs, hvalue]
  simp [hname]

theorem At.isNotStructLiteral (h : p.At structs scopes kinds)
    (hkinds : kinds.headD .eof ≠ .leftBrace) (name : String) :
    p.looksLikeStructLiteral name = false := by
  unfold looksLikeStructLiteral
  rw [h.current_kind, if_pos (by simp_all)]

/-- A variable before tokens that are not the fields of a struct literal. -/
theorem At.isVariable {name : String} {k : ℕ} (h : p.At structs scopes kinds)
    (hname : name ∈ structs → name ∈ scopes.flatten) (hkinds : Follows k kinds) :
    p.looksLikeStructLiteral name = false := by
  unfold looksLikeStructLiteral
  rw [h.current_kind, h.peek, h.peek, h.structs]
  split
  · rfl
  · rename_i hbrace
    have hfree : name ∉ scopes.flatten := by
      rw [← h.isValueBinding]
      simp_all
    have hfields := hkinds.fields
    have hstruct : name ∉ structs := fun hmem => hfree (hname hmem)
    obtain _ | ⟨kind, _ | ⟨field, _ | ⟨mark, tail⟩⟩⟩ := kinds <;> simp_all
    cases field <;> simp_all [TokenKind.isIdentifier]

/-- A list of expressions up to the token that closes it. -/
theorem elements_reads {expression : ParseM Expr} (hexpression : ReadsAll structs scopes expression 1)
    {close : TokenKind} (hcomma : close ≠ .comma) (hbrace : close ≠ .leftBrace)
    (hlevel : operatorLevel close < 1) {stop : ParseM Bool} {es : List Expr}
    (hstop : ∀ e ∈ es, ∀ rest p, p.At structs scopes (e.tokens ++ rest) → stop p = .ok (false, p))
    (hne : es ≠ []) (hes : ∀ e ∈ es, e.Printable structs scopes.flatten) {rest : List TokenKind}
    (h : p.At structs scopes (listTokens es ++ close :: rest)) {k : List Expr → ParseM β}
    (hk : ∀ es' p', stripList es' = stripList es → p'.At structs scopes (close :: rest) →
      Parses (k es') p' post) :
    Parses (do
      let bound ← remaining
      let es' ← commaList expression stop (bound + 1)
      k es') p post := by
  rw [commaTokens_listTokens] at h
  refine h.remaining (parses_bind _ (commaList_reads Expr.strip rest hcomma es hne hstop ?_ ?_ h) ?_)
  · intro e he rest' q hrest' hq
    have hfollows : Follows 1 rest' := by
      obtain _ | ⟨kind, tail⟩ := rest'
      · exact ⟨by simp [operatorLevel], by simp⟩
      · rcases hrest' with hkind | hkind
        · obtain rfl : kind = .comma := hkind
          exact follows_cons (by simp [operatorLevel]) (by simp)
        · obtain rfl : kind = close := hkind
          exact follows_cons hlevel hbrace
    refine hexpression e (hes e he) rest' q hfollows ?_
    rwa [enclose_of_le e.one_le_level]
  · have hlength := length_le_commaTokens (es.map Expr.tokens)
    rw [List.length_map] at hlength
    rw [List.length_append]
    omega
  · rintro es' p' ⟨hstrip, hp'⟩
    exact hk es' p' (by rw [map_strip, map_strip, hstrip]) hp'

theorem listTokens_headD_ne {e : Expr} {es : List Expr} {kind : TokenKind}
    (hkind : startsExpression kind = false) (h : Opens e.tokens) (rest : List TokenKind) :
    (listTokens (e :: es) ++ rest).headD .eof ≠ kind := by
  cases es with
  | nil => exact h.headD_ne hkind rest
  | cons e' es =>
    simp only [listTokens, List.append_assoc]
    exact h.headD_ne hkind _

theorem arguments_reads {expression : ParseM Expr} (hexpression : ReadsAll structs scopes expression 1)
    {args : List Expr} (hargs : ∀ e ∈ args, e.Printable structs scopes.flatten)
    {rest : List TokenKind} (h : p.At structs scopes (listTokens args ++ .rightParen :: rest))
    {k : List Expr × Span → ParseM β}
    (hk : ∀ args' span p', stripList args' = stripList args → p'.At structs scopes rest →
      Parses (k (args', span)) p' post) :
    Parses (arguments expression >>= k) p post := by
  refine parses_bind (fun result p' => stripList result.1 = stripList args ∧
    p'.At structs scopes rest) ?_ fun ⟨args', span⟩ p' ⟨hstrip, hp'⟩ => hk args' span p' hstrip hp'
  unfold arguments
  cases args with
  | nil =>
    refine h.isAt_true (parses_pure_bind (h.expect (by simp) fun token p' hp' => ?_))
    exact parses_pure ⟨rfl, hp'⟩
  | cons e es =>
    have hopens : Opens e.tokens := opens_tokens (hargs e (by simp))
    refine h.isAt_false (listTokens_headD_ne rfl hopens _) ?_
    refine elements_reads hexpression (by simp) (by simp) (by simp [operatorLevel])
      (fun _ _ _ _ _ => rfl) (by simp) hargs h fun args' p' hstrip hp' => ?_
    exact hp'.expect (by simp) fun token p'' hp'' => parses_pure ⟨hstrip, hp''⟩

theorem arrayLiteral_reads {depth : ℕ} {expression : ParseM Expr}
    (hexpression : ReadsAll structs scopes expression 1) {elements : List Expr} {start span : Span}
    (helements : ∀ e ∈ elements, e.Printable structs scopes.flatten) {rest : List TokenKind}
    (h : p.At structs scopes (listTokens elements ++ .rightBracket :: rest)) :
    Parses (arrayLiteral depth expression start) p fun e' p' =>
      e'.strip = (Expr.arrayLiteral elements span).strip ∧ p'.At structs scopes rest := by
  unfold arrayLiteral
  cases elements with
  | nil =>
    refine h.isAt_true (parses_pure_bind (h.expect (by simp) fun token p' hp' => ?_))
    exact parses_checked ⟨rfl, hp'⟩
  | cons e es =>
    have hopens : Opens e.tokens := opens_tokens (helements e (by simp))
    refine h.isAt_false (listTokens_headD_ne rfl hopens _) ?_
    refine elements_reads hexpression (by simp) (by simp) (by simp [operatorLevel])
      (fun e' he' rest' q hq => ?_) (by simp) helements h fun es' p' hstrip hp' => ?_
    · have hopens' : Opens e'.tokens := opens_tokens (helements e' he')
      exact hq.isAt_eq_false (hopens'.headD_ne rfl rest')
    · refine hp'.expect (by simp) fun token p'' hp'' => parses_checked ⟨?_, hp''⟩
      simp [Expr.strip, hstrip]

/-! ## Struct literals -/

theorem map_strip_fields (fields : List (FieldInitializer Expr)) :
    stripFields fields =
      fields.map fun field => (⟨field.name, field.value.strip, default⟩ : FieldInitializer Expr) := by
  induction fields with
  | nil => simp [stripFields]
  | cons field fields ih => simp [stripFields, ih]

theorem fieldTokens_cons (name : String) (value : Expr) (span : Span)
    (fields : List (FieldInitializer Expr)) :
    fieldTokens (⟨name, value, span⟩ :: fields) = .identifier name :: .colon ::
      (value.tokens ++ if fields = [] then [] else .comma :: fieldTokens fields) := by
  cases fields <;> simp [fieldTokens]

theorem length_le_fieldTokens (fields : List (FieldInitializer Expr)) :
    fields.length ≤ (fieldTokens fields).length := by
  induction fields with
  | nil => simp
  | cons field fields ih =>
    obtain ⟨name, value, span⟩ := field
    rw [fieldTokens_cons]
    split
    · rename_i hnil
      simp [hnil]
    · simp only [List.length_cons, List.length_append]
      omega

/-- The fields of a literal. A comma follows every field but the last. -/
theorem fields_read {expression : ParseM Expr} (hexpression : ReadsAll structs scopes expression 1)
    {fields : List (FieldInitializer Expr)}
    (hfields : ∀ field ∈ fields, field.value.Printable structs scopes.flatten)
    {rest : List TokenKind} {fuel : ℕ} (hfuel : fields.length ≤ fuel)
    (h : p.At structs scopes (fieldTokens fields ++ .rightBrace :: rest)) :
    Parses (untilClose .rightBrace (fieldInitializer expression) fuel) p fun fields' p' =>
      stripFields fields' = stripFields fields ∧ p'.At structs scopes (.rightBrace :: rest) := by
  induction fields generalizing p fuel with
  | nil => exact h.untilClose_nil fuel ⟨rfl, h⟩
  | cons field fields ih =>
    obtain ⟨name, value, span⟩ := field
    obtain _ | fuel := fuel
    · simp at hfuel
    have hvalue : value.Printable structs scopes.flatten := hfields ⟨name, value, span⟩ (by simp)
    rw [fieldTokens_cons] at h
    simp only [List.cons_append, List.append_assoc] at h
    refine h.untilClose_cons (by simp) (by simp) ?_
    refine parses_bind (fun field' p' => stripFields [field'] = stripFields [⟨name, value, span⟩] ∧
      p'.At structs scopes (fieldTokens fields ++ .rightBrace :: rest)) ?_ ?_
    · refine h.identifier fun start p₁ h₁ => h₁.expect (by simp) fun token p₂ h₂ => ?_
      refine hexpression.read hvalue ?_ h₂ fun value' p₃ hstrip h₃ => ?_
      · split
        · exact follows_cons (by simp [operatorLevel]) (by simp)
        · exact follows_cons (by simp [operatorLevel]) (by simp)
      · split at h₃
        · rename_i hnil
          subst hnil
          refine h₃.take_missing (by simp) (parses_pure ⟨?_, h₃⟩)
          simp [stripFields, hstrip]
        · refine h₃.take (by simp) fun taken p₄ h₄ => parses_pure ⟨?_, h₄⟩
          simp [stripFields, hstrip]
    · rintro field' p' ⟨hfield, hp'⟩
      refine parses_bind _ (ih (fun field hmem => hfields field (by simp [hmem]))
        (by simpa using hfuel) hp') ?_
      rintro fields' p'' ⟨hstrip, hp''⟩
      refine parses_pure ⟨?_, hp''⟩
      simp only [map_strip_fields, List.map_cons] at hfield hstrip ⊢
      rw [hstrip, (List.cons.inj hfield).1]

theorem structLiteral_reads {depth : ℕ} {expression : ParseM Expr}
    (hexpression : ReadsAll structs scopes expression 1) {name : String} {start span : Span}
    {fields : List (FieldInitializer Expr)}
    (hfields : ∀ field ∈ fields, field.value.Printable structs scopes.flatten)
    {rest : List TokenKind}
    (h : p.At structs scopes (.leftBrace :: (fieldTokens fields ++ .rightBrace :: rest))) :
    Parses (structLiteral depth expression name start) p fun e' p' =>
      e'.strip = (Expr.structLiteral name fields span).strip ∧ p'.At structs scopes rest := by
  refine h.expect (by simp) fun token p₁ h₁ => h₁.remaining ?_
  refine parses_bind _ (fields_read hexpression hfields ?_ h₁) ?_
  · have hlength := length_le_fieldTokens fields
    rw [List.length_append]
    omega
  · rintro fields' p₂ ⟨hstrip, h₂⟩
    refine h₂.expect (by simp) fun token p₃ h₃ => parses_checked ⟨?_, h₃⟩
    simp [Expr.strip, hstrip]

/-! ## Primaries -/

theorem nameTokens_eq_cons (name : String) :
    ∃ head tail, nameTokens name = .identifier head :: tail := by
  rcases nameTokens_cases name with h | ⟨qualifier, member, h, -⟩
  · exact ⟨_, _, h⟩
  · exact ⟨_, _, h⟩

theorem strip_withSpan (e : Expr) (span : Span) : (e.withSpan span).strip = e.strip := by
  cases e <;> simp [Expr.withSpan, Expr.strip]

theorem NumericType.cases (target : NumericType) :
    target = ⟨.i32, rfl⟩ ∨ target = ⟨.f32, rfl⟩ := by
  obtain ⟨ty, hty⟩ := target
  cases ty with
  | i32 => exact .inl rfl
  | f32 => exact .inr rfl
  | _ => simp [ValueType.isNumeric] at hty

theorem conversion_reads {depth : ℕ} {expression : ParseM Expr}
    (hexpression : ReadsAll structs scopes expression 1) {target : NumericType} {args : List Expr}
    {start span : Span} (hargs : ∀ e ∈ args, e.Printable structs scopes.flatten)
    {rest : List TokenKind}
    (h : p.At structs scopes (.leftParen :: (listTokens args ++ .rightParen :: rest))) :
    Parses (conversion depth expression target start) p fun e' p' =>
      e'.strip = (Expr.conversion target args span).strip ∧ p'.At structs scopes rest := by
  refine h.expect (by simp) fun token p₁ h₁ => ?_
  refine arguments_reads hexpression hargs h₁ fun args' stop p₂ hstrip h₂ => ?_
  exact parses_checked ⟨by simp [Expr.strip, hstrip], h₂⟩

/-- A primary that starts with a name. -/
theorem primary_name {depth : ℕ} {expression : ParseM Expr} {name : String} {rest : List TokenKind}
    (hrest : rest.headD .eof ≠ .colonColon)
    (h : p.At structs scopes (nameTokens name ++ rest)) {post : Expr → Parser → Prop}
    (hk : ∀ span start p', p'.At structs scopes rest → Parses (do
      if (← get).looksLikeStructLiteral name then structLiteral depth expression name span
      else if ← take .leftParen then
        let (args, stop) ← arguments expression
        checked depth (.call name args (Span.merge start stop))
      else checked depth (.var name span)) p' post) :
    Parses (primary depth expression) p post := by
  obtain ⟨head, tail, hname⟩ := nameTokens_eq_cons name
  rw [hname] at h
  refine h.advance (by simp) fun token p₁ htoken h₁ => ?_
  rw [htoken]
  exact qualifiedName_reads hname hrest h₁ fun span p₂ h₂ => hk span token.span p₂ h₂

theorem primary_reads {depth : ℕ} {expression : ParseM Expr}
    (hexpression : ReadsAll structs scopes expression 1) :
    ReadsAll structs scopes (primary depth expression) 9 := by
  intro e he rest p hrest h
  obtain ⟨named, parts⟩ := id he
  by_cases hlevel : e.level < 9
  · have hparens : enclose 9 e.level e.tokens = .leftParen :: (e.tokens ++ [.rightParen]) :=
      if_pos hlevel
    simp only [hparens, List.cons_append, List.append_assoc] at h
    refine h.advance (by simp) fun token p₁ htoken h₁ => ?_
    rw [htoken]
    refine hexpression.read he (follows_cons (by simp [operatorLevel]) (by simp)) h₁
      fun e' p₂ hstrip h₂ => ?_
    refine h₂.expect (by simp) fun stop p₃ h₃ => parses_pure ⟨?_, h₃⟩
    rw [strip_withSpan, hstrip]
  · rw [enclose_of_le (by omega)] at h
    have hname : rest.headD .eof ≠ .colonColon := by
      intro heq
      have hoperator := hrest.operator
      rw [heq] at hoperator
      simp [operatorLevel] at hoperator
    cases e with
    | i32 value span =>
      refine h.advance (by simp) fun token p₁ htoken h₁ => ?_
      rw [htoken]
      exact parses_checked ⟨rfl, h₁⟩
    | f32 value span =>
      refine h.advance (by simp) fun token p₁ htoken h₁ => ?_
      rw [htoken]
      exact parses_checked ⟨rfl, h₁⟩
    | bool value span =>
      cases value <;>
      · refine h.advance (by simp) fun token p₁ htoken h₁ => ?_
        rw [htoken]
        exact parses_checked ⟨rfl, h₁⟩
    | arrayLiteral elements span =>
      simp only [Expr.tokens, List.cons_append, List.append_assoc] at h
      refine h.advance (by simp) fun token p₁ htoken h₁ => ?_
      rw [htoken]
      exact arrayLiteral_reads hexpression parts h₁
    | conversion target args span =>
      simp only [Expr.tokens, List.cons_append, List.append_assoc] at h
      rcases NumericType.cases target with rfl | rfl <;>
      · refine h.advance (by simp [NumericType.kind]) fun token p₁ htoken h₁ => ?_
        rw [htoken]
        exact conversion_reads hexpression parts h₁
    | structLiteral name fields span =>
      simp only [Expr.tokens, List.cons_append, List.append_assoc] at h
      refine primary_name (by simp) h fun nameSpan start p₁ h₁ => parses_get ?_
      rw [if_pos (At.isStructLiteral h₁ named.1 named.2)]
      exact structLiteral_reads hexpression
        (fun field hfield => parts _ (List.mem_map_of_mem hfield)) h₁
    | var name span =>
      refine primary_name hname h fun nameSpan start p₁ h₁ => parses_get ?_
      rw [if_neg (by simp [At.isVariable h₁ named hrest])]
      refine h₁.take_false ?_ (parses_checked ⟨rfl, h₁⟩)
      intro heq
      have hoperator := hrest.operator
      rw [heq] at hoperator
      simp [operatorLevel] at hoperator
    | call name args span =>
      simp only [Expr.tokens, List.cons_append, List.append_assoc] at h
      refine primary_name (by simp) h fun nameSpan start p₁ h₁ => parses_get ?_
      rw [if_neg (by simp [At.isNotStructLiteral h₁ (by simp)])]
      refine h₁.take_true (by simp) fun p₂ h₂ => ?_
      refine arguments_reads hexpression parts h₂ fun args' stop p₃ hstrip h₃ => ?_
      exact parses_checked ⟨by simp [Expr.strip, Expr.parts, hstrip], h₃⟩
    | index base subscript span | field base name nameSpan span | unary op operand span =>
      simp [Expr.level] at hlevel
    | binary left op right span =>
      have hop := op.level_le
      simp only [Expr.level] at hlevel
      omega

/-! ## Postfix and prefix operators -/

/-- The chain of a postfix expression, with the rest of the loop as a continuation. -/
theorem postfix_spine {depth : ℕ} {expression : ParseM Expr}
    (hexpression : ReadsAll structs scopes expression 1) {e : Expr}
    (he : e.Printable structs scopes.flatten) {rest : List TokenKind} (hrest : Follows 9 rest)
    (h : p.At structs scopes (enclose 8 e.level e.tokens ++ rest)) {post : Expr → Parser → Prop}
    (hk : ∀ fuel e' p', rest.length ≤ fuel → e'.strip = e.strip → p'.At structs scopes rest →
      Parses (postfixLoop depth expression fuel e') p' post) :
    Parses (postfixOperators depth expression) p post := by
  induction he generalizing rest with
  | @intro e named parts ih =>
    by_cases heq : e.level = 8
    · rw [enclose_of_le (by omega)] at h
      cases e with
      | index base subscript span =>
        simp only [Expr.tokens, List.append_assoc, List.cons_append] at h
        refine ih base (by simp [Expr.parts])
          (follows_cons (by simp [operatorLevel]) (by simp)) h fun fuel base' p₁ hfuel hbase h₁ => ?_
        simp only [List.length_cons, List.length_append] at hfuel
        obtain _ | fuel := fuel
        · omega
        unfold postfixLoop
        refine h₁.take_true (by simp) fun p₂ h₂ => ?_
        refine hexpression.read (parts subscript (by simp [Expr.parts]))
          (follows_cons (by simp [operatorLevel]) (by simp)) h₂ fun subscript' p₃ hsubscript h₃ => ?_
        refine h₃.expect (by simp) fun stop p₄ h₄ => parses_checked_bind ?_
        exact hk fuel _ p₄ (by omega) (by simp [Expr.strip, hbase, hsubscript]) h₄
      | field base name nameSpan span =>
        simp only [Expr.tokens, List.append_assoc, List.cons_append] at h
        refine ih base (by simp [Expr.parts])
          (follows_cons (by simp [operatorLevel]) (by simp)) h fun fuel base' p₁ hfuel hbase h₁ => ?_
        simp only [List.length_cons, List.nil_append] at hfuel
        obtain _ | fuel := fuel
        · omega
        unfold postfixLoop
        refine h₁.take_false (by simp) (h₁.take_true (by simp) fun p₂ h₂ => ?_)
        refine h₂.identifier fun stop p₃ h₃ => parses_checked_bind ?_
        exact hk fuel _ p₃ (by omega) (by simp [Expr.strip, hbase]) h₃
      | binary left op right span =>
        have hop := op.level_le
        simp only [Expr.level] at heq
        omega
      | _ => simp [Expr.level] at heq
    · refine parses_bind _ (primary_reads hexpression e ⟨named, parts⟩ rest p hrest ?_) ?_
      · rwa [← enclose_succ heq]
      · rintro e' p₁ ⟨hstrip, h₁⟩
        exact h₁.remaining (hk _ e' p₁ le_rfl hstrip h₁)

theorem postfixOperators_reads {depth : ℕ} {expression : ParseM Expr}
    (hexpression : ReadsAll structs scopes expression 1) :
    ReadsAll structs scopes (postfixOperators depth expression) 8 := by
  intro e he rest p hrest h
  refine postfix_spine hexpression he (hrest.mono (by omega)) h fun fuel e' p' _ hstrip hp' => ?_
  have hoperator := hrest.operator
  cases fuel with
  | zero => exact parses_pure ⟨hstrip, hp'⟩
  | succ fuel =>
    unfold postfixLoop
    refine hp'.take_false ?_ (hp'.take_false ?_ (parses_pure ⟨hstrip, hp'⟩)) <;>
    · intro heq
      rw [heq] at hoperator
      simp [operatorLevel] at hoperator

/-- A postfix expression does not start with a prefix operator. -/
theorem headD_ne_unaryKind {bound : List String} {e : Expr} (he : e.Printable structs bound)
    (op : UnaryOp) (rest : List TokenKind) :
    (enclose 8 e.level e.tokens ++ rest).headD .eof ≠ op.kind := by
  induction he generalizing rest with
  | @intro e named parts ih =>
    by_cases hlevel : e.level < 8
    · rw [enclose, if_pos hlevel]
      cases op <;> simp [UnaryOp.kind]
    · rw [enclose_of_le (by omega)]
      cases e with
      | index base subscript span | field base name nameSpan span =>
        simp only [Expr.tokens, List.append_assoc]
        exact ih base (by simp [Expr.parts]) _
      | structLiteral name fields span | var name span | call name args span =>
        obtain ⟨head, tail, hname⟩ := nameTokens_eq_cons name
        simp only [Expr.tokens, hname]
        cases op <;> simp [UnaryOp.kind]
      | unary op operand span => simp [Expr.level] at hlevel
      | binary left op right span =>
        have hop := op.level_le
        simp only [Expr.level] at hlevel
        omega
      | conversion target args span =>
        rcases NumericType.cases target with rfl | rfl <;>
        cases op <;> simp [Expr.tokens, NumericType.kind, UnaryOp.kind]
      | bool value span => cases value <;> cases op <;> simp [Expr.tokens, UnaryOp.kind]
      | _ => cases op <;> simp [Expr.tokens, UnaryOp.kind]

theorem unaryWith_reads {depth : ℕ} {expression nestedUnary : ParseM Expr}
    (hexpression : ReadsAll structs scopes expression 1)
    (hunary : ReadsAll structs scopes nestedUnary 7) :
    ReadsAll structs scopes (unaryWith depth expression nestedUnary) 7 := by
  intro e he rest p hrest h
  obtain ⟨named, parts⟩ := id he
  refine parses_get ?_
  by_cases hlevel : e.level = 7
  · obtain ⟨op, operand, span, rfl⟩ := e.unary_of_level hlevel
    rw [enclose_of_le (by simp [Expr.level])] at h
    simp only [Expr.tokens, List.cons_append] at h
    refine parses_bind (fun result p' => result = some op ∧
      p'.At structs scopes (enclose 7 operand.level operand.tokens ++ rest)) ?_ ?_
    · cases op with
      | negate => exact h.take_true (by simp [UnaryOp.kind]) fun p₁ h₁ => parses_pure ⟨rfl, h₁⟩
      | not =>
        refine h.take_false (by simp [UnaryOp.kind]) ?_
        exact h.take_true (by simp [UnaryOp.kind]) fun p₁ h₁ => parses_pure ⟨rfl, h₁⟩
    · rintro _ p₁ ⟨rfl, h₁⟩
      refine parses_bind _ (hunary operand (parts operand (by simp [Expr.parts])) rest p₁ hrest h₁) ?_
      rintro operand' p₂ ⟨hstrip, h₂⟩
      exact parses_checked ⟨by simp [Expr.strip, hstrip], h₂⟩
  · rw [enclose_succ hlevel] at h
    refine parses_bind (fun result p' => result = none ∧ p' = p) ?_ ?_
    · refine h.take_false (headD_ne_unaryKind he .negate rest) ?_
      exact h.take_false (headD_ne_unaryKind he .not rest) (parses_pure ⟨rfl, rfl⟩)
    · rintro _ _ ⟨rfl, rfl⟩
      exact postfixOperators_reads hexpression e he rest _ (hrest.mono (by omega)) h

/-! ## Expressions -/

theorem unary_reads (depth : ℕ) : ReadsAll structs scopes (unary depth) 7 := by
  induction depth with
  | zero => exact unaryWith_reads (readsAll_exceeded 1) (readsAll_exceeded 7)
  | succ depth ih => exact unaryWith_reads (logicalOr_reads ih) ih

/-- The parser of expressions reads every printable expression. -/
theorem expression_reads (depth : ℕ) : ReadsAll structs scopes (expression depth) 1 := by
  cases depth with
  | zero => exact readsAll_exceeded 1
  | succ depth => exact logicalOr_reads (unary_reads depth)

end Parser

end Speck
