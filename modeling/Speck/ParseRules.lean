import Speck.Printer

/-!
# Rules for the parser

`Parses m p post` says that the parser `m` accepts at `p` with a result that meets `post`, unless it
reports its nesting limit. `p.At structs scopes kinds` says which tokens are left at `p`. The rules
follow the primitives one by one, with the rest of the parser as a continuation.
-/

namespace Speck

namespace Parser

variable {α β : Type}

/-- The parser accepts with a result that meets `post`, or reports its nesting limit. -/
def Parses (m : ParseM α) (p : Parser) (post : α → Parser → Prop) : Prop :=
  match m p with
  | .ok (a, p') => post a p'
  | .error diagnostic => diagnostic.message = limitMessage

/-- The kinds of the tokens that are left, and what is known of the names. -/
structure At (structs : List String) (scopes : List (List String)) (kinds : List TokenKind)
    (p : Parser) : Prop where
  kinds : p.tokens.map (·.kind) = kinds
  structs : p.structNames = structs
  scopes : p.valueScopes = scopes

variable {p : Parser} {structs : List String} {scopes : List (List String)}
  {kind : TokenKind} {kinds : List TokenKind} {post : β → Parser → Prop}

theorem parses_bind {m : ParseM α} {k : α → ParseM β} (mid : α → Parser → Prop)
    (h : Parses m p mid) (hk : ∀ a p', mid a p' → Parses (k a) p' post) :
    Parses (m >>= k) p post := by
  unfold Parses at h ⊢
  change match (m p >>= fun result => k result.1 result.2) with
    | .ok (a, p') => post a p'
    | .error diagnostic => diagnostic.message = limitMessage
  cases hm : m p with
  | error diagnostic =>
    rw [hm] at h
    exact h
  | ok result =>
    rw [hm] at h
    exact hk result.1 result.2 h

theorem parses_pure {a : β} (h : post a p) : Parses (pure a) p post := h

theorem parses_pure_bind {a : α} {k : α → ParseM β} (h : Parses (k a) p post) :
    Parses (pure a >>= k) p post := h

theorem Parses.mono {m : ParseM β} {post' : β → Parser → Prop} (h : Parses m p post)
    (hpost : ∀ a p', post a p' → post' a p') : Parses m p post' := by
  unfold Parses at *
  split at h
  · exact hpost _ _ h
  · exact h

/-- A parser with a known result. -/
theorem parses_bind_ok {m : ParseM α} {k : α → ParseM β} {a : α} {p' : Parser}
    (h : m p = .ok (a, p')) (hk : Parses (k a) p' post) : Parses (m >>= k) p post := by
  refine parses_bind (fun b q => b = a ∧ q = p') ?_ ?_
  · unfold Parses
    rw [h]
    exact ⟨rfl, rfl⟩
  · rintro _ _ ⟨rfl, rfl⟩
    exact hk

theorem parses_exceeded {α : Type} {post : α → Parser → Prop} :
    Parses (exceeded : ParseM α) p post := rfl

theorem parses_get {k : Parser → ParseM β} (h : Parses (k p) p post) :
    Parses (get >>= k) p post := h

theorem parses_modify {f : Parser → Parser} {k : Unit → ParseM β}
    (h : Parses (k ()) (f p) post) : Parses (modify f >>= k) p post := h

/-- The nesting check passes, or the limit is reported. -/
theorem checkPending_cases (pending : List (Expr × ℕ)) :
    checkPending pending = .ok () ∨
      ∃ span, checkPending pending = .error ⟨limitMessage, span⟩ := by
  fun_induction checkPending pending with
  | case1 => exact .inl rfl
  | case2 e depth pending hdeep => exact .inr ⟨e.span, rfl⟩
  | case3 e depth pending hdeep ih => exact ih

theorem parses_checked {depth : ℕ} {e : Expr} {post : Expr → Parser → Prop} (h : post e p) :
    Parses (checked depth e) p post := by
  unfold Parses checked
  rcases checkPending_cases [(e, maxNesting - depth)] with hok | ⟨span, herror⟩
  · rw [hok]
    exact h
  · rw [herror]
    rfl

theorem parses_checked_bind {depth : ℕ} {e : Expr} {k : Expr → ParseM β}
    (h : Parses (k e) p post) : Parses (checked depth e >>= k) p post :=
  parses_bind (fun e' p' => e' = e ∧ p' = p) (parses_checked ⟨rfl, rfl⟩) (by
    rintro _ _ ⟨rfl, rfl⟩
    exact h)

namespace At

theorem current_kind (h : p.At structs scopes kinds) : p.current.kind = kinds.headD .eof := by
  rw [← h.kinds]
  unfold current
  cases p.tokens with
  | nil => rfl
  | cons token tokens => rfl

theorem peek (h : p.At structs scopes kinds) (offset : ℕ) :
    p.peek offset = kinds[offset]?.getD .eof := by
  rw [← h.kinds]
  simp [Parser.peek]

theorem length (h : p.At structs scopes kinds) : p.tokens.length = kinds.length := by
  rw [← h.kinds, List.length_map]

theorem isValueBinding (h : p.At structs scopes kinds) (name : String) :
    p.isValueBinding name ↔ name ∈ scopes.flatten := by
  simp [Parser.isValueBinding, h.scopes]

theorem advance (h : p.At structs scopes (kind :: kinds)) (hkind : kind ≠ .eof)
    {k : Token → ParseM β}
    (hk : ∀ token p', token.kind = kind → p'.At structs scopes kinds → Parses (k token) p' post) :
    Parses (Parser.advance >>= k) p post := by
  have hcurrent : p.current.kind = kind := h.current_kind
  have hadvance : Parser.advance p = .ok (p.current, { p with tokens := p.tokens.tail }) := by
    simp only [Parser.advance, hcurrent, if_neg hkind]
  refine parses_bind_ok hadvance (hk _ _ hcurrent ⟨?_, h.structs, h.scopes⟩)
  rw [List.map_tail, h.kinds]
  rfl

theorem isAt (h : p.At structs scopes kinds) {k : Bool → ParseM β}
    (hk : Parses (k (kinds.headD .eof == kind)) p post) :
    Parses (Parser.isAt kind >>= k) p post := by
  have hisAt : Parser.isAt kind p = .ok (kinds.headD .eof == kind, p) := by
    simp only [Parser.isAt, h.current_kind]
  exact parses_bind_ok hisAt hk

theorem isAt_eq_false (h : p.At structs scopes kinds) (hne : kinds.headD .eof ≠ kind) :
    Parser.isAt kind p = .ok (false, p) := by
  have hcurrent : (p.current.kind == kind) = false := by
    rw [h.current_kind]
    simpa using hne
  unfold Parser.isAt
  rw [hcurrent]

theorem isAt_true (h : p.At structs scopes (kind :: kinds)) {m m' : ParseM β}
    (hm : Parses m p post) :
    Parses (Parser.isAt kind >>= fun b => if b = true then m else m') p post := by
  refine h.isAt ?_
  rw [if_pos (by simp)]
  exact hm

theorem isAt_false (h : p.At structs scopes kinds) (hne : kinds.headD .eof ≠ kind)
    {m m' : ParseM β} (hm : Parses m' p post) :
    Parses (Parser.isAt kind >>= fun b => if b = true then m else m') p post := by
  refine h.isAt ?_
  rw [if_neg (by simpa using hne)]
  exact hm

theorem take_true (h : p.At structs scopes (kind :: kinds)) (hkind : kind ≠ .eof)
    {m m' : ParseM β} (hm : ∀ p', p'.At structs scopes kinds → Parses m p' post) :
    Parses (take kind >>= fun b => if b = true then m else m') p post := by
  refine parses_bind (fun b p' => b = true ∧ p'.At structs scopes kinds) ?_ ?_
  · refine h.isAt_true (h.advance hkind fun _ p' _ hp' => ?_)
    exact parses_pure ⟨rfl, hp'⟩
  · rintro b p' ⟨rfl, hp'⟩
    rw [if_pos rfl]
    exact hm p' hp'

theorem take_false (h : p.At structs scopes kinds) (hne : kinds.headD .eof ≠ kind)
    {m m' : ParseM β} (hm : Parses m' p post) :
    Parses (take kind >>= fun b => if b = true then m else m') p post := by
  refine parses_bind (fun b p' => b = false ∧ p' = p) ?_ ?_
  · exact h.isAt_false hne (parses_pure ⟨rfl, rfl⟩)
  · rintro _ _ ⟨rfl, rfl⟩
    exact hm

/-- An optional separator that is there. -/
theorem take (h : p.At structs scopes (kind :: kinds)) (hkind : kind ≠ .eof)
    {k : Bool → ParseM β}
    (hk : ∀ b p', p'.At structs scopes kinds → Parses (k b) p' post) :
    Parses (Parser.take kind >>= k) p post := by
  refine parses_bind (fun b p' => p'.At structs scopes kinds) ?_ hk
  refine h.isAt_true (h.advance hkind fun _ p' _ hp' => ?_)
  exact parses_pure hp'

/-- An optional separator that is missing. -/
theorem take_missing (h : p.At structs scopes kinds) (hne : kinds.headD .eof ≠ kind)
    {k : Bool → ParseM β} (hk : Parses (k false) p post) :
    Parses (Parser.take kind >>= k) p post := by
  refine parses_bind (fun b p' => b = false ∧ p' = p) ?_ ?_
  · exact h.isAt_false hne (parses_pure ⟨rfl, rfl⟩)
  · rintro _ _ ⟨rfl, rfl⟩
    exact hk

theorem expect (h : p.At structs scopes (kind :: kinds)) (hkind : kind ≠ .eof) {message : String}
    {k : Token → ParseM β}
    (hk : ∀ token p', p'.At structs scopes kinds → Parses (k token) p' post) :
    Parses (Parser.expect kind message >>= k) p post := by
  refine parses_bind (fun _ p' => p'.At structs scopes kinds) ?_ hk
  refine h.isAt_true ?_
  have hadvance : Parses (Parser.advance >>= pure) p fun _ p' => p'.At structs scopes kinds :=
    h.advance hkind fun _ _ _ hp' => parses_pure hp'
  rwa [bind_pure] at hadvance

theorem identifier {name : String} (h : p.At structs scopes (.identifier name :: kinds))
    {message : String} {k : String × Span → ParseM β}
    (hk : ∀ span p', p'.At structs scopes kinds → Parses (k (name, span)) p' post) :
    Parses (Parser.identifier message >>= k) p post := by
  refine parses_bind (fun result p' => result.1 = name ∧ p'.At structs scopes kinds) ?_ ?_
  · refine h.advance (by simp) fun token p' htoken hp' => ?_
    rw [htoken]
    exact parses_pure ⟨rfl, hp'⟩
  · rintro ⟨name', span⟩ p' ⟨rfl, hp'⟩
    exact hk span p' hp'

theorem remaining (h : p.At structs scopes kinds) {k : ℕ → ParseM β}
    (hk : Parses (k kinds.length) p post) : Parses (Parser.remaining >>= k) p post := by
  have hremaining : Parser.remaining p = .ok (kinds.length, p) := by
    simp only [Parser.remaining, h.length]
  exact parses_bind_ok hremaining hk

/-! ## Lists -/

theorem untilClose_nil {item : ParseM α} {close : TokenKind} {post : List α → Parser → Prop}
    (h : p.At structs scopes (close :: kinds)) (fuel : ℕ) (hpost : post [] p) :
    Parses (untilClose close item fuel) p post := by
  cases fuel with
  | zero => exact parses_pure hpost
  | succ fuel =>
    unfold untilClose
    exact h.isAt_true (parses_pure hpost)

theorem untilClose_cons {item : ParseM α} {close : TokenKind} {post : List α → Parser → Prop}
    (h : p.At structs scopes kinds) (hclose : kinds.headD .eof ≠ close)
    (heof : kinds.headD .eof ≠ .eof) {fuel : ℕ}
    (hk : Parses (do
      let a ← item
      let as ← untilClose close item fuel
      pure (a :: as)) p post) :
    Parses (untilClose close item (fuel + 1)) p post := by
  unfold untilClose
  exact h.isAt_false hclose (h.isAt_false heof hk)

end At

/-- Lists of tokens, between commas. -/
def commaTokens : List (List TokenKind) → List TokenKind
  | [] => []
  | [kinds] => kinds
  | kinds :: more => kinds ++ .comma :: commaTokens more

theorem length_le_commaTokens (items : List (List TokenKind)) :
    items.length ≤ (commaTokens items).length + 1 := by
  induction items with
  | nil => simp
  | cons kinds more ih =>
    cases more with
    | nil => simp
    | cons kinds' more =>
      simp only [commaTokens, List.length_append, List.length_cons] at ih ⊢
      omega

/-- A list between commas and without one after its last item is read item by item. -/
theorem commaList_reads {item : ParseM α} {stop : ParseM Bool} {close : TokenKind}
    {tokens : α → List TokenKind} {γ : Type} (strip : α → γ) (rest : List TokenKind)
    (hcomma : close ≠ .comma) (as : List α) (hne : as ≠ [])
    (hstop : ∀ a ∈ as, ∀ rest p, p.At structs scopes (tokens a ++ rest) →
      stop p = .ok (false, p))
    (hitem : ∀ a ∈ as, ∀ rest p, rest.headD .eof = .comma ∨ rest.headD .eof = close →
      p.At structs scopes (tokens a ++ rest) →
      Parses item p fun a' p' => strip a' = strip a ∧ p'.At structs scopes rest)
    {fuel : ℕ} (hfuel : as.length ≤ fuel)
    (h : p.At structs scopes (commaTokens (as.map tokens) ++ close :: rest)) :
    Parses (commaList item stop fuel) p fun as' p' =>
      as'.map strip = as.map strip ∧ p'.At structs scopes (close :: rest) := by
  induction as generalizing p fuel with
  | nil => exact absurd rfl hne
  | cons a as ih =>
    obtain _ | fuel := fuel
    · simp at hfuel
    unfold commaList
    cases as with
    | nil =>
      refine parses_bind _ (hitem a (by simp) _ p (.inr rfl) h) ?_
      rintro a' p' ⟨ha, hp'⟩
      refine hp'.take_false hcomma (parses_pure ⟨?_, hp'⟩)
      simp [ha]
    | cons b as =>
      have h' : p.At structs scopes
          (tokens a ++ .comma :: (commaTokens ((b :: as).map tokens) ++ close :: rest)) := by
        simpa [commaTokens] using h
      refine parses_bind _ (hitem a (by simp) _ p (.inl rfl) h') ?_
      rintro a' p' ⟨ha, hp'⟩
      refine hp'.take_true (by simp) fun q hq => ?_
      have hread : stop q = .ok (false, q) := by
        cases as with
        | nil => exact hstop b (by simp) _ q hq
        | cons c as =>
          refine hstop b (by simp) (.comma :: (commaTokens ((c :: as).map tokens) ++ close :: rest))
            q ?_
          simpa [commaTokens] using hq
      refine parses_bind_ok hread ?_
      rw [if_neg (by simp)]
      refine parses_bind _ (ih (by simp) (fun c hc => hstop c (by simp [hc]))
        (fun c hc => hitem c (by simp [hc])) (by simp at hfuel ⊢; omega) hq) ?_
      rintro as' p'' ⟨has, hp''⟩
      exact parses_pure ⟨by simp [ha, has], hp''⟩

end Parser

end Speck
