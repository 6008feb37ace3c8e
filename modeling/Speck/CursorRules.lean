import Speck.CursorParser
import Speck.Nesting
import Speck.Spans

/-!
# Comparing the two parsers

`Sim` relates a run on the token vector to the run of the same function in `ParseM` : they end
alike, with the same result or the same diagnostic, and a fault is one that the tokens are to blame
for (`Fault.Blames`). Its postcondition sees the tokens that were read, `done`. The rules follow the
primitives one by one; `Agree` is what a production of the grammar promises, whatever was read
before it.
-/

namespace Speck

open Speck.Parser (maxNesting)

/-! ## Braces -/

/-- The counter of open braces after a token, unless a closing brace comes at zero, an `import` or
the end of the file. -/
def brace (count : ℕ) : TokenKind → Option ℕ
  | .leftBrace => some (count + 1)
  | .rightBrace => if count = 0 then none else some (count - 1)
  | .import | .eof => none
  | _ => some count

def braces (count : ℕ) (tokens : List Token) : Option ℕ :=
  tokens.foldlM (fun count token => brace count token.kind) count

/-- The tokens leave the counter as it was, without an `import` among them. -/
def Neutral (tokens : List Token) : Prop := ∀ count, braces count tokens = some count

/-- A token that the counter passes over. -/
def TokenKind.isPlain : TokenKind → Bool
  | .leftBrace | .rightBrace | .import | .eof => Bool.false
  | _ => Bool.true

theorem braces_append (count : ℕ) (tokens tokens' : List Token) :
    braces count (tokens ++ tokens') = (braces count tokens).bind (braces · tokens') :=
  List.foldlM_append

theorem brace_plain {kind : TokenKind} (h : kind.isPlain) (count : ℕ) :
    brace count kind = some count := by
  cases kind <;> first | rfl | cases h

namespace Neutral

theorem nil : Neutral [] := fun _ => rfl

theorem append {tokens tokens' : List Token} (h : Neutral tokens) (h' : Neutral tokens') :
    Neutral (tokens ++ tokens') := by
  intro count
  rw [braces_append, h count]
  exact h' count

theorem token {t : Token} (h : t.kind.isPlain) : Neutral [t] := by
  intro count
  rw [braces, List.foldlM_cons, brace_plain h]
  rfl

theorem append_token {tokens : List Token} {t : Token} (h : Neutral tokens)
    (hkind : t.kind.isPlain) : Neutral (tokens ++ [t]) := h.append (.token hkind)

theorem enclosed {first last : Token} {tokens : List Token} (h : Neutral tokens)
    (hfirst : first.kind = .leftBrace) (hlast : last.kind = .rightBrace) :
    Neutral ([first] ++ tokens ++ [last]) := by
  intro count
  have hopen : braces count [first] = some (count + 1) := by
    rw [braces, List.foldlM_cons, hfirst]
    rfl
  have hclose : braces (count + 1) [last] = some count := by
    rw [braces, List.foldlM_cons, hlast]
    rfl
  rw [braces_append, braces_append, hopen, Option.bind_some, h (count + 1), Option.bind_some,
    hclose]

end Neutral

/-! ## Related states -/

/-- The vector ends with `Eof`. -/
def EndsInEof (tokens : List Token) : Prop := ∃ token, tokens.getLast? = some token ∧ token.kind = .eof

/-- The one fault that the tokens may be to blame for. -/
def Fault.Blames (tokens : List Token) (fault : Fault) : Prop :=
  fault = .mergedFiles ∧ ¬OneFile tokens

/-- A cursor and a parser at the same place, where `depth` levels of nesting are left, `scopes`
scopes are open and `done` was read of `total` tokens. The tokens of a strict run are in order. -/
structure Related (tokens : List Token) (depth scopes total : ℕ) (done : List Token) (c : Cursor)
    (p : Parser) : Prop where
  ends : EndsInEof tokens
  strict : c.strict → InOrder tokens
  vector : c.tokens = tokens
  inside : c.cursor < tokens.length
  rest : p.tokens = tokens.drop c.cursor
  read : done ++ p.tokens <:+ tokens
  total : (done ++ p.tokens).length = total
  structNames : c.structNames = p.structNames
  valueScopes : c.valueScopes = p.valueScopes
  scopes : p.valueScopes.length = scopes
  nesting : c.nesting + depth = maxNesting

section

variable {tokens done : List Token} {depth scopes scopes' total : ℕ} {c : Cursor} {p : Parser}

theorem Cursor.lookup_of_current {token : Token} (h : Cursor.current c = .ok (token, c)) :
    c.tokens[c.cursor]? = some token := by
  rw [Cursor.current] at h
  split at h
  · next t ht =>
    obtain rfl : t = token := by simpa using h
    exact ht
  · cases h

namespace Related

/-- The cursor is on a token. -/
theorem exists_token (h : Related tokens depth scopes total done c p) :
    ∃ token rest, p.tokens = token :: rest ∧ p.current = token ∧ Cursor.current c = .ok (token, c) ∧
      (token.kind ≠ .eof → rest ≠ []) := by
  have hinside := h.inside
  have hdrop : p.tokens = tokens[c.cursor] :: tokens.drop (c.cursor + 1) := by
    rw [h.rest, List.drop_eq_getElem_cons hinside]
  refine ⟨_, _, hdrop, ?_, ?_, fun hkind hnil => hkind ?_⟩
  · rw [Parser.current, hdrop]
    rfl
  · rw [Cursor.current, h.vector, List.getElem?_eq_getElem h.inside]
  · obtain ⟨last, hlast, hlastKind⟩ := h.ends
    have hlength : tokens.length ≤ c.cursor + 1 := List.drop_eq_nil_iff.mp hnil
    have hinside := h.inside
    have hindex : tokens.length - 1 = c.cursor := by omega
    rw [List.getLast?_eq_getElem?, hindex, List.getElem?_eq_getElem h.inside] at hlast
    rw [Option.some.inj hlast, hlastKind]

/-- Advancing stays on an `Eof`. -/
theorem advance_eof (h : Related tokens depth scopes total done c p)
    (hkind : p.current.kind = .eof) :
    Cursor.advance c = .ok (p.current, c) ∧ Parser.advance p = .ok (p.current, p) := by
  obtain ⟨token, rest, htokens, hcurrent, hget, -⟩ := h.exists_token
  rw [hcurrent] at hkind ⊢
  refine ⟨?_, ?_⟩
  · rw [Cursor.advance, Cursor.lookup_of_current hget]
    simp only [if_pos hkind]
  · rw [Parser.advance, hcurrent, if_pos hkind]

theorem covers_of_done (h : Related tokens depth scopes total done c p) {span : Span}
    (hspan : Covers done span) : Covers tokens span := by
  obtain ⟨before, hbefore⟩ := h.read
  rw [← hbefore]
  exact (hspan.append_left _).append_right _

theorem covers_current (h : Related tokens depth scopes total done c p) :
    Covers tokens p.current.span := by
  obtain ⟨token, rest, htokens, hcurrent, -, -⟩ := h.exists_token
  obtain ⟨before, hbefore⟩ := h.read
  rw [hcurrent, ← hbefore, htokens, ← List.append_assoc]
  exact ((Covers.token token).append_left rest).append_right (before ++ done)

theorem sublist_done (h : Related tokens depth scopes total done c p) : done.Sublist tokens :=
  (List.sublist_append_left done p.tokens).trans h.read.sublist

/-- What was read between two related states. -/
theorem tokens_eq {c' : Cursor} {p' : Parser} {scopes' : ℕ} {read : List Token}
    (h : Related tokens depth scopes total done c p)
    (h' : Related tokens depth scopes' total (done ++ read) c' p') :
    p.tokens = read ++ p'.tokens := by
  have hlength : (done ++ read ++ p'.tokens).length = (done ++ p.tokens).length :=
    h'.total.trans h.total.symm
  have heq := (List.suffix_of_suffix_length_le h'.read h.read hlength.le).eq_of_length hlength
  rw [List.append_assoc] at heq
  exact (List.append_cancel_left heq).symm

/-- The states after the token at the cursor. -/
theorem advance (h : Related tokens depth scopes total done c p) (hkind : p.current.kind ≠ .eof) :
    Cursor.advance c = .ok (p.current, { c with cursor := c.cursor + 1 }) ∧
      Parser.advance p = .ok (p.current, { p with tokens := p.tokens.tail }) ∧
      Related tokens depth scopes total (done ++ [p.current]) { c with cursor := c.cursor + 1 }
        { p with tokens := p.tokens.tail } := by
  obtain ⟨token, rest, htokens, hcurrent, hget, hrest⟩ := h.exists_token
  rw [hcurrent] at hkind ⊢
  refine ⟨?_, ?_, ?_⟩
  · rw [Cursor.advance, Cursor.lookup_of_current hget]
    simp only [if_neg hkind]
  · rw [Parser.advance, hcurrent, if_neg hkind]
  · have htail : p.tokens.tail = rest := by rw [htokens]; rfl
    have hdrop : rest = tokens.drop (c.cursor + 1) := by
      rw [← htail, h.rest, List.tail_drop]
    refine ⟨h.ends, h.strict, h.vector, ?_, ?_, ?_, ?_, h.structNames, h.valueScopes, h.scopes, h.nesting⟩
    · by_contra hge
      exact hrest hkind (hdrop.trans (List.drop_eq_nil_iff.mpr (not_lt.mp hge)))
    · dsimp only
      rw [htail, hdrop]
    · have hread := h.read
      rw [htokens] at hread
      rw [htail, List.append_assoc]
      exact hread
    · have htotal := h.total
      rw [htokens] at htotal
      rw [htail, List.append_assoc]
      exact htotal

end Related

/-! ## Simulation -/

variable {α β γ : Type}

/-- How the two runs may end. -/
inductive EndsAlike (tokens : List Token) (depth total : ℕ) (done : List Token) (scopes : ℕ)
    (R : List Token → α → β → Prop) :
    Except Stop (α × Cursor) → Except Diagnostic (β × Parser) → Prop where
  | ok (read : List Token) {a : α} {b : β} {c : Cursor} {p : Parser}
      (related : Related tokens depth scopes total (done ++ read) c p) (post : R (done ++ read) a b) :
      EndsAlike tokens depth total done scopes R (.ok (a, c)) (.ok (b, p))
  | diagnostic {d : Diagnostic} (covers : Covers tokens d.span) :
      EndsAlike tokens depth total done scopes R (.error (.diagnostic d)) (.error d)
  | fault {fault : Fault} {result : Except Diagnostic (β × Parser)} (blames : fault.Blames tokens) :
      EndsAlike tokens depth total done scopes R (.error (.fault fault)) result

/-- The two runs end alike from related states. -/
def Sim (tokens : List Token) (depth total scopes : ℕ) (done : List Token) (run : CursorM α)
    (m : ParseM β) (scopes' : ℕ) (R : List Token → α → β → Prop) : Prop :=
  ∀ c p, Related tokens depth scopes total done c p →
    EndsAlike tokens depth total done scopes' R (run c) (m p)

theorem EndsAlike.mono {R R' : List Token → α → β → Prop} {x : Except Stop (α × Cursor)}
    {y : Except Diagnostic (β × Parser)} (h : EndsAlike tokens depth total done scopes R x y)
    (hR : ∀ done' a b, R done' a b → R' done' a b) :
    EndsAlike tokens depth total done scopes R' x y := by
  cases h with
  | ok read related post => exact .ok read related (hR _ _ _ post)
  | diagnostic covers => exact .diagnostic covers
  | fault blames => exact .fault blames

theorem Sim.mono {R R' : List Token → α → β → Prop} {run : CursorM α} {m : ParseM β}
    (h : Sim tokens depth total scopes done run m scopes' R)
    (hR : ∀ done' a b, R done' a b → R' done' a b) :
    Sim tokens depth total scopes done run m scopes' R' := fun c p hrel => (h c p hrel).mono hR

theorem EndsAlike.append {R : List Token → α → β → Prop} {x : Except Stop (α × Cursor)}
    {y : Except Diagnostic (β × Parser)} (read : List Token)
    (h : EndsAlike tokens depth total (done ++ read) scopes R x y) :
    EndsAlike tokens depth total done scopes R x y := by
  cases h with
  | ok read' related post =>
    rw [List.append_assoc] at related post
    exact .ok (read ++ read') related post
  | diagnostic covers => exact .diagnostic covers
  | fault blames => exact .fault blames

theorem run_bind_ok {m : CursorM γ} {a : γ} {c c' : Cursor} (h : m c = .ok (a, c'))
    (k : γ → CursorM α) : (m >>= k) c = k a c' := by
  change (m c).bind _ = _
  rw [h]
  rfl

theorem parse_bind_ok {m : ParseM γ} {a : γ} {p p' : Parser} (h : m p = .ok (a, p'))
    (k : γ → ParseM β) : (m >>= k) p = k a p' := by
  change (m p).bind _ = _
  rw [h]
  rfl

theorem sim_pure {R : List Token → α → β → Prop} {a : α} {b : β} (h : R done a b) :
    Sim tokens depth total scopes done (pure a) (pure b) scopes R := fun c p hrel =>
  .ok [] (by rwa [List.append_nil]) (by rwa [List.append_nil])

/-- The continuations of two runs that end alike. -/
theorem ends_bind {δ : Type} {R : List Token → α → β → Prop} {run : CursorM γ} {m : ParseM δ}
    {k : γ → CursorM α} {k' : δ → ParseM β} {scopes₁ : ℕ} {P : List Token → γ → δ → Prop}
    (h : EndsAlike tokens depth total done scopes₁ P (run c) (m p))
    (hk : ∀ a b done', P done' a b → Sim tokens depth total scopes₁ done' (k a) (k' b) scopes' R) :
    EndsAlike tokens depth total done scopes' R ((run >>= k) c) ((m >>= k') p) := by
  have hbind : (run >>= k) c = (run c).bind fun result => k result.1 result.2 := rfl
  have hbind' : (m >>= k') p = (m p).bind fun result => k' result.1 result.2 := rfl
  rw [hbind, hbind']
  generalize run c = x at h ⊢
  generalize m p = y at h ⊢
  cases h with
  | ok read related post => exact (hk _ _ _ post _ _ related).append
  | diagnostic covers => exact .diagnostic covers
  | fault blames => exact .fault blames

theorem sim_bind {δ : Type} {R : List Token → α → β → Prop} {run : CursorM γ} {m : ParseM δ}
    {k : γ → CursorM α} {k' : δ → ParseM β} {s : ℕ} {P : List Token → γ → δ → Prop}
    (h : Sim tokens depth total scopes done run m s P)
    (hk : ∀ a b done', P done' a b → Sim tokens depth total s done' (k a) (k' b) scopes' R) :
    Sim tokens depth total scopes done (run >>= k) (m >>= k') scopes' R :=
  fun c p hrel => ends_bind (h c p hrel) hk

variable {R : List Token → α → β → Prop} {k : γ → CursorM α} {k' : γ → ParseM β}

/-- The continuations after two runs that end alike without reading. -/
theorem sim_read {f : Cursor → γ} {run : CursorM γ} {m : ParseM γ}
    (hrun : ∀ c p, Related tokens depth scopes total done c p →
      run c = .ok (f c, c) ∧ m p = .ok (f c, p))
    (hk : ∀ a, Sim tokens depth total scopes done (k a) (k' a) scopes' R) :
    Sim tokens depth total scopes done (run >>= k) (m >>= k') scopes' R := by
  refine sim_bind (P := fun done' a b => done' = done ∧ a = b) (s := scopes) ?_ ?_
  · intro c p hrel
    obtain ⟨hc, hm⟩ := hrun c p hrel
    rw [hc, hm]
    exact .ok [] (by rwa [List.append_nil]) ⟨List.append_nil _, rfl⟩
  · rintro a _ _ ⟨rfl, rfl⟩
    exact hk a

/-! ## Rules for the primitives -/

/-- A diagnostic at a span of what was read. -/
theorem sim_fail {message : String} {span : Span} (h : Covers done span) :
    Sim tokens depth total scopes done (Cursor.fail message span) (Parser.fail message span) scopes'
      R := fun _ _ hrel => .diagnostic (hrel.covers_of_done h)

theorem sim_fail_covers {message : String} {span : Span} (h : Covers tokens span) :
    Sim tokens depth total scopes done (Cursor.fail message span) (Parser.fail message span) scopes'
      R := fun _ _ _ => .diagnostic h

theorem sim_errorHere {message : String} :
    Sim tokens depth total scopes done (Cursor.errorHere message) (Parser.errorHere message) scopes'
      R := by
  intro c p hrel
  obtain ⟨token, rest, htokens, hcurrent, hget, -⟩ := hrel.exists_token
  rw [Cursor.errorHere, run_bind_ok hget, ← hcurrent]
  exact .diagnostic hrel.covers_current

/-- What a test of the current token decides. -/
theorem isAt_cases (kind : TokenKind) (hrel : Related tokens depth scopes total done c p) :
    (p.current.kind = kind ∧ Cursor.isAt kind c = .ok (true, c) ∧
        Parser.isAt kind p = .ok (true, p)) ∨
      (p.current.kind ≠ kind ∧ Cursor.isAt kind c = .ok (false, c) ∧
        Parser.isAt kind p = .ok (false, p)) := by
  obtain ⟨token, rest, htokens, hcurrent, hget, -⟩ := hrel.exists_token
  have hcursor : Cursor.isAt kind c = .ok (p.current.kind == kind, c) := by
    rw [Cursor.isAt, run_bind_ok hget, hcurrent]
    rfl
  by_cases hkind : p.current.kind = kind
  · have htrue : (p.current.kind == kind) = true := beq_iff_eq.mpr hkind
    exact .inl ⟨hkind, by rw [hcursor, htrue], by rw [Parser.isAt, htrue]⟩
  · have hfalse : (p.current.kind == kind) = false := beq_false_of_ne hkind
    exact .inr ⟨hkind, by rw [hcursor, hfalse], by rw [Parser.isAt, hfalse]⟩

theorem sim_isAt {kind : TokenKind} {k : Bool → CursorM α} {k' : Bool → ParseM β}
    (hk : ∀ b, Sim tokens depth total scopes done (k b) (k' b) scopes' R) :
    Sim tokens depth total scopes done (Cursor.isAt kind >>= k) (Parser.isAt kind >>= k') scopes'
      R := by
  intro c p hrel
  rcases isAt_cases kind hrel with ⟨-, hc, hp⟩ | ⟨-, hc, hp⟩
  · rw [run_bind_ok hc, parse_bind_ok hp]
    exact hk true c p hrel
  · rw [run_bind_ok hc, parse_bind_ok hp]
    exact hk false c p hrel

/-- Advancing reads the token, unless it is an `Eof`. -/
theorem sim_advance {k : Token → CursorM α} {k' : Token → ParseM β}
    (hk : ∀ token, token.kind ≠ .eof →
      Sim tokens depth total scopes (done ++ [token]) (k token) (k' token) scopes' R)
    (heof : ∀ token, token.kind = .eof → Covers tokens token.span →
      Sim tokens depth total scopes done (k token) (k' token) scopes' R) :
    Sim tokens depth total scopes done (Cursor.advance >>= k) (Parser.advance >>= k') scopes' R := by
  intro c p hrel
  by_cases hkind : p.current.kind = .eof
  · obtain ⟨hc, hp⟩ := hrel.advance_eof hkind
    rw [run_bind_ok hc, parse_bind_ok hp]
    exact heof _ hkind hrel.covers_current c p hrel
  · obtain ⟨hc, hp, hrel'⟩ := hrel.advance hkind
    rw [run_bind_ok hc, parse_bind_ok hp]
    exact (hk _ hkind _ _ hrel').append

/-- What a test for a token decides, and the states after it. -/
theorem take_cases (kind : TokenKind) (hkind : kind ≠ .eof)
    (hrel : Related tokens depth scopes total done c p) :
    (p.current.kind = kind ∧ ∃ c' p', Cursor.take kind c = .ok (true, c') ∧
        Parser.take kind p = .ok (true, p') ∧
        Related tokens depth scopes total (done ++ [p.current]) c' p') ∨
      (p.current.kind ≠ kind ∧ Cursor.take kind c = .ok (false, c) ∧
        Parser.take kind p = .ok (false, p)) := by
  rcases isAt_cases kind hrel with ⟨hat, hc, hp⟩ | ⟨hat, hc, hp⟩
  · obtain ⟨hadvance, hadvance', hrel'⟩ := hrel.advance (hat ▸ hkind)
    refine .inl ⟨hat, _, _, ?_, ?_, hrel'⟩
    · rw [Cursor.take, run_bind_ok hc, if_pos rfl, run_bind_ok hadvance]
      rfl
    · rw [Parser.take, parse_bind_ok hp, if_pos rfl, parse_bind_ok hadvance']
      rfl
  · refine .inr ⟨hat, ?_, ?_⟩
    · rw [Cursor.take, run_bind_ok hc]
      rfl
    · rw [Parser.take, parse_bind_ok hp]
      rfl

theorem sim_take {kind : TokenKind} (hkind : kind ≠ .eof) {k : Bool → CursorM α}
    {k' : Bool → ParseM β}
    (htrue : ∀ token, token.kind = kind →
      Sim tokens depth total scopes (done ++ [token]) (k true) (k' true) scopes' R)
    (hfalse : Sim tokens depth total scopes done (k false) (k' false) scopes' R) :
    Sim tokens depth total scopes done (Cursor.take kind >>= k) (Parser.take kind >>= k') scopes'
      R := by
  intro c p hrel
  rcases take_cases _ hkind hrel with ⟨hat, c', p', hc, hp, hrel'⟩ | ⟨-, hc, hp⟩
  · rw [run_bind_ok hc, parse_bind_ok hp]
    exact (htrue _ hat _ _ hrel').append
  · rw [run_bind_ok hc, parse_bind_ok hp]
    exact hfalse c p hrel

/-- Where one of two runs is chosen by the current token. -/
theorem sim_isAt_ite {kind : TokenKind} {x y : CursorM α} {x' y' : ParseM β}
    (hx : ∀ c p, Related tokens depth scopes total done c p → p.current.kind = kind →
      EndsAlike tokens depth total done scopes' R (x c) (x' p))
    (hy : Sim tokens depth total scopes done y y' scopes' R) :
    Sim tokens depth total scopes done (Cursor.isAt kind >>= fun b => if b then x else y)
      (Parser.isAt kind >>= fun b => if b then x' else y') scopes' R := by
  intro c p hrel
  rcases isAt_cases kind hrel with ⟨hat, hc, hp⟩ | ⟨hat, hc, hp⟩
  · rw [run_bind_ok hc, parse_bind_ok hp]
    exact hx c p hrel hat
  · rw [run_bind_ok hc, parse_bind_ok hp]
    exact hy c p hrel

/-- The postcondition of a run that reads one token of a kind. -/
abbrev ReadsToken (done : List Token) (kind : TokenKind) (done' : List Token) (a b : Token) : Prop :=
  b = a ∧ a.kind = kind ∧ done' = done ++ [a]

theorem sim_expect_only {kind : TokenKind} {message : String} (hkind : kind ≠ .eof) :
    Sim tokens depth total scopes done (Cursor.expect kind message) (Parser.expect kind message)
      scopes (ReadsToken done kind) := by
  refine sim_isAt_ite (fun c p hrel hat => ?_) sim_errorHere
  obtain ⟨hadvance, hadvance', hrel'⟩ := hrel.advance (hat ▸ hkind)
  rw [hadvance, hadvance']
  exact .ok [p.current] hrel' ⟨rfl, hat, rfl⟩

theorem sim_expect {kind : TokenKind} {message : String} (hkind : kind ≠ .eof)
    {k : Token → CursorM α} {k' : Token → ParseM β}
    (hk : ∀ token, token.kind = kind →
      Sim tokens depth total scopes (done ++ [token]) (k token) (k' token) scopes' R) :
    Sim tokens depth total scopes done (Cursor.expect kind message >>= k)
      (Parser.expect kind message >>= k') scopes' R := by
  refine sim_bind (sim_expect_only hkind) ?_
  rintro _ _ _ ⟨rfl, hat, rfl⟩
  exact hk _ hat

theorem sim_identifier {message : String} {k : String × Span → CursorM α}
    {k' : String × Span → ParseM β}
    (hk : ∀ name token, token.kind = .identifier name →
      Sim tokens depth total scopes (done ++ [token]) (k (name, token.span)) (k' (name, token.span))
        scopes' R) :
    Sim tokens depth total scopes done (Cursor.identifier message >>= k)
      (Parser.identifier message >>= k') scopes' R := by
  refine sim_bind (P := fun done' a b => ∃ name token, token.kind = .identifier name ∧
    a = (name, token.span) ∧ b = (name, token.span) ∧ done' = done ++ [token])
    (s := scopes) ?_ ?_
  · refine sim_advance (fun token hkind => ?_) fun token hkind hcovers => ?_
    · obtain ⟨kind, span⟩ := token
      cases kind
      case identifier name => exact sim_pure ⟨name, _, rfl, rfl, rfl, rfl⟩
      all_goals exact sim_fail ((Covers.token _).append_right done)
    · rw [hkind]
      exact sim_fail_covers hcovers
  · rintro _ _ _ ⟨name, token, hkind, rfl, rfl, rfl⟩
    exact hk name token hkind

theorem sim_optionalSemicolon {k : Option Span → CursorM α} {k' : Option Span → ParseM β}
    (hsome : ∀ token, token.kind = .semicolon →
      Sim tokens depth total scopes (done ++ [token]) (k (some token.span)) (k' (some token.span))
        scopes' R)
    (hnone : Sim tokens depth total scopes done (k none) (k' none) scopes' R) :
    Sim tokens depth total scopes done (Cursor.optionalSemicolon >>= k)
      (Parser.optionalSemicolon >>= k') scopes' R := by
  refine sim_bind (P := fun done' a b => b = a ∧ ((∃ token, token.kind = .semicolon ∧
    a = some token.span ∧ done' = done ++ [token]) ∨ (a = none ∧ done' = done)))
    (s := scopes) ?_ ?_
  · refine sim_isAt_ite (fun c p hrel hat => ?_) (sim_pure ⟨rfl, .inr ⟨rfl, rfl⟩⟩)
    obtain ⟨hadvance, hadvance', hrel'⟩ := hrel.advance (by rw [hat]; decide)
    rw [run_bind_ok hadvance, parse_bind_ok hadvance']
    exact .ok [p.current] hrel' ⟨rfl, .inl ⟨p.current, hat, rfl, rfl⟩⟩
  · rintro _ _ _ ⟨rfl, ⟨token, hkind, rfl, rfl⟩ | ⟨rfl, rfl⟩⟩
    · exact hsome token hkind
    · exact hnone

theorem sim_remaining {k : ℕ → CursorM α} {k' : ℕ → ParseM β}
    (hk : ∀ left, done.length + left = total → 0 < left →
      Sim tokens depth total scopes done (k left) (k' left) scopes' R) :
    Sim tokens depth total scopes done (Cursor.remaining >>= k) (Parser.remaining >>= k') scopes'
      R := by
  intro c p hrel
  have hleft : c.tokens.length - c.cursor = p.tokens.length := by
    rw [hrel.rest, hrel.vector, List.length_drop]
  have hcursor : Cursor.remaining c = .ok (p.tokens.length, c) := by
    rw [Cursor.remaining, hleft]
  have htotal := hrel.total
  rw [List.length_append] at htotal
  obtain ⟨token, rest, htokens, -⟩ := hrel.exists_token
  rw [run_bind_ok hcursor, parse_bind_ok (m := Parser.remaining) rfl]
  exact hk _ htotal (by rw [htokens]; simp) c p hrel

/-- A merge happens on the vector only. -/
theorem sim_merge {a b : Span} (h : Merges done a b) {k : Span → CursorM α} {m : ParseM β}
    (hk : Sim tokens depth total scopes done (k (a.merge b)) m scopes' R) :
    Sim tokens depth total scopes done (Cursor.merge a b >>= k) m scopes' R := by
  intro c p hrel
  by_cases hsource : a.source = b.source
  · have horder : ¬(c.strict ∧ (b.start < a.start ∨ b.stop < a.stop)) := by
      rintro ⟨hstrict, hreversed⟩
      have hbounds := h.in_order ((hrel.strict hstrict).sublist hrel.sublist_done)
      omega
    have hcursor : Cursor.merge a b c = .ok (a.merge b, c) := by
      rw [Cursor.merge, if_neg (not_not.mpr hsource), if_neg horder]
    rw [run_bind_ok hcursor]
    exact hk c p hrel
  · have hcursor : (Cursor.merge a b >>= k) c = .error (.fault .mergedFiles) := by
      change (Cursor.merge a b c).bind _ = _
      rw [Cursor.merge, if_pos hsource]
      rfl
    rw [hcursor]
    exact .fault ⟨rfl, fun hfile => hsource (h.source_eq (hfile.mono hrel.sublist_done.subset))⟩

theorem sim_merge_last {R : List Token → Span → Span → Prop} {a b : Span} (h : Merges done a b)
    (hR : R done (a.merge b) (a.merge b)) :
    Sim tokens depth total scopes done (Cursor.merge a b) (pure (a.merge b)) scopes R := by
  have hlast : Sim tokens depth total scopes done (Cursor.merge a b >>= pure) (pure (a.merge b))
      scopes R := sim_merge h (sim_pure hR)
  rwa [bind_pure] at hlast

/-- The nesting check of a new node, at the nesting of its parser. -/
theorem sim_checked_only {e : Expr} (hspans : ∀ span ∈ e.spans, Covers done span) :
    Sim tokens depth total scopes done (Cursor.checked e) (Parser.checked depth e) scopes
      fun done' a b => done' = done ∧ a = e ∧ b = e ∧ e.Within (depth + 1) := by
  intro c p hrel
  have hlevel := hrel.nesting
  have hnesting : maxNesting - depth = c.nesting := by omega
  rw [Cursor.checked, Parser.checked, hnesting]
  cases hcheck : Parser.checkPending [(e, c.nesting)] with
  | ok _ =>
    have hwithin := (within_of_checkPending hcheck _ List.mem_cons_self).2
    have hlimit : maxNesting + 1 - c.nesting = depth + 1 := by omega
    rw [hlimit] at hwithin
    exact .ok [] (by rwa [List.append_nil]) ⟨List.append_nil _, rfl, rfl, hwithin⟩
  | error d =>
    obtain ⟨item, hitem, hspan⟩ := span_of_checkPending hcheck
    obtain rfl := List.mem_singleton.mp hitem
    exact .diagnostic (hrel.covers_of_done (hspans _ hspan))

theorem sim_checked {e : Expr} (hspans : ∀ span ∈ e.spans, Covers done span)
    {k : Expr → CursorM α} {k' : Expr → ParseM β}
    (hk : e.Within (depth + 1) → Sim tokens depth total scopes done (k e) (k' e) scopes' R) :
    Sim tokens depth total scopes done (Cursor.checked e >>= k) (Parser.checked depth e >>= k')
      scopes' R := by
  refine sim_bind (sim_checked_only hspans) ?_
  rintro _ _ _ ⟨rfl, rfl, rfl, hwithin⟩
  exact hk hwithin

/-- One level of nesting is left to the production. -/
theorem sim_nested {run : CursorM α} {m : ParseM β}
    (h : Sim tokens depth total scopes done run m scopes' R) :
    Sim tokens (depth + 1) total scopes done (Cursor.nested run) m scopes' R := by
  intro c p hrel
  have hlevel := hrel.nesting
  have hne : c.nesting ≠ maxNesting := by omega
  have henter : Cursor.enter c = .ok ((), { c with nesting := c.nesting + 1 }) := by
    rw [Cursor.enter, if_neg (by omega)]
  have hinner : Related tokens depth scopes total done { c with nesting := c.nesting + 1 } p :=
    { hrel with nesting := by dsimp only; omega }
  have hrun := h _ _ hinner
  have hcursor : Cursor.nested run c =
      (run { c with nesting := c.nesting + 1 }).bind fun result =>
        .ok (result.1, { result.2 with nesting := result.2.nesting - 1 }) := by
    rw [Cursor.nested, run_bind_ok (m := get) (c := c) rfl, if_neg hne, run_bind_ok henter]
    rfl
  rw [hcursor]
  generalize run { c with nesting := c.nesting + 1 } = x at hrun ⊢
  generalize m p = y at hrun ⊢
  cases hrun with
  | ok read related post =>
    have hnesting := related.nesting
    exact .ok read { related with nesting := by dsimp only; omega } post
  | diagnostic covers => exact .diagnostic covers
  | fault blames => exact .fault blames

/-- No level is left. -/
theorem sim_nested_zero {run : CursorM α} :
    Sim tokens 0 total scopes done (Cursor.nested run) (Parser.exceeded : ParseM β) scopes' R := by
  intro c p hrel
  have hlevel : c.nesting = maxNesting := hrel.nesting
  rw [Cursor.nested, run_bind_ok (m := get) (c := c) rfl, if_pos hlevel]
  exact sim_errorHere c p hrel

/-! ## Productions -/

/-- What a production leaves : a result that is `good` for the spans of the tokens that were read,
which are neutral. -/
structure Reads (good : (Span → Prop) → α → Prop) (done : List Token) (a b : α) : Prop where
  eq : b = a
  ne_nil : done ≠ []
  neutral : Neutral done
  good : good (Covers done) a

/-- The production reads some tokens, whatever was read before it, and leaves what is `good`. At
least `least` scopes are open. -/
def Agree (least depth : ℕ) (run : CursorM α) (m : ParseM α)
    (good : (Span → Prop) → α → Prop) : Prop :=
  ∀ tokens scopes total, least ≤ scopes →
    Sim tokens depth total scopes [] run m scopes (Reads good)

/-- What was read before a run does not matter to it. -/
theorem ends_after {R : List Token → α → β → Prop} {run : CursorM α} {m : ParseM β}
    (hrel : Related tokens depth scopes total done c p)
    (h : ∀ total, Related tokens depth scopes total [] c p →
      EndsAlike tokens depth total [] scopes' R (run c) (m p)) :
    EndsAlike tokens depth total done scopes'
      (fun done' a b => ∃ read, done' = done ++ read ∧ R read a b) (run c) (m p) := by
  have hread : [] ++ p.tokens <:+ tokens :=
    (List.suffix_append done p.tokens).trans hrel.read
  have hrun := h p.tokens.length { hrel with read := hread, total := rfl }
  generalize run c = x at hrun ⊢
  generalize m p = y at hrun ⊢
  cases hrun with
  | ok read related post =>
    have hsuffix := related.read
    have hlength := related.total
    rw [List.nil_append] at hsuffix hlength
    have heq := (List.suffix_of_suffix_length_le hsuffix hread hlength.le).eq_of_length hlength
    refine .ok read { related with read := ?_, total := ?_ } ⟨read, rfl, post⟩
    · rw [List.append_assoc, heq]
      exact hrel.read
    · rw [List.append_assoc, heq]
      exact hrel.total
  | diagnostic covers => exact .diagnostic covers
  | fault blames => exact .fault blames

theorem sim_after {R : List Token → α → β → Prop} {run : CursorM α} {m : ParseM β}
    (h : ∀ total, Sim tokens depth total scopes [] run m scopes' R) :
    Sim tokens depth total scopes done run m scopes'
      fun done' a b => ∃ read, done' = done ++ read ∧ R read a b :=
  fun c p hrel => ends_after hrel fun total hrel => h total c p hrel

/-- The spans of what was read are spans of the vector. -/
theorem EndsAlike.covers {R : List Token → α → β → Prop} {x : Except Stop (α × Cursor)}
    {y : Except Diagnostic (β × Parser)} (h : EndsAlike tokens depth total done scopes R x y) :
    EndsAlike tokens depth total done scopes
      (fun done' a b => R done' a b ∧ ∀ span, Covers done' span → Covers tokens span) x y := by
  cases h with
  | ok read related post => exact .ok read related ⟨post, fun _ h => related.covers_of_done h⟩
  | diagnostic covers => exact .diagnostic covers
  | fault blames => exact .fault blames

theorem Agree.bind {least : ℕ} {run : CursorM γ} {m : ParseM γ}
    {good : (Span → Prop) → γ → Prop} (h : Agree least depth run m good) (hleast : least ≤ scopes)
    (hk : ∀ a read, read ≠ [] → Neutral read → good (Covers read) a →
      Sim tokens depth total scopes (done ++ read) (k a) (k' a) scopes' R) :
    Sim tokens depth total scopes done (run >>= k) (m >>= k') scopes' R := by
  refine sim_bind (sim_after fun total => h tokens scopes total hleast) ?_
  rintro a _ _ ⟨read, rfl, ⟨rfl, hne, hneutral, hgood⟩⟩
  exact hk _ read hne hneutral hgood

/-- The items of a loop, each of which reads some tokens. -/
structure ReadsItems (good : (Span → Prop) → α → Prop) (read : List Token) (as bs : List α) :
    Prop where
  eq : bs = as
  neutral : Neutral read
  good : ∀ a ∈ as, good (Covers read) a

/-- What is good for some spans is good for more. -/
def Grows (good : (Span → Prop) → α → Prop) : Prop :=
  ∀ {P P' : Span → Prop}, (∀ span, P span → P' span) → ∀ {a}, good P a → good P' a

theorem ReadsItems.nil {good : (Span → Prop) → α → Prop} : ReadsItems good [] [] [] :=
  ⟨rfl, .nil, by simp⟩

theorem ReadsItems.cons {good : (Span → Prop) → α → Prop} (hgrows : Grows good)
    {read comma rest : List Token} {a : α} {as bs : List α} (hneutral : Neutral read)
    (hgood : good (Covers read) a) (hcomma : Neutral comma) (h : ReadsItems good rest as bs) :
    ReadsItems good (read ++ comma ++ rest) (a :: as) (a :: bs) := by
  refine ⟨by rw [h.eq], (hneutral.append hcomma).append h.neutral, ?_⟩
  refine List.forall_mem_cons.mpr ⟨?_, fun b hb => ?_⟩
  · exact hgrows (fun span hspan => (hspan.append_left comma).append_left rest) hgood
  · exact hgrows (fun span hspan => hspan.append_right (read ++ comma)) (h.good b hb)

/-- The bound of a loop is above the number of the tokens that are left. -/
theorem untilClose_items {least : ℕ} {item : CursorM γ} {item' : ParseM γ}
    {good : (Span → Prop) → γ → Prop} (hgrows : Grows good) (hitem : Agree least depth item item' good)
    (hleast : least ≤ scopes) (close : TokenKind) (fuel : ℕ) {done : List Token}
    (hfuel : total < done.length + fuel) :
    Sim tokens depth total scopes done (Cursor.untilClose close item fuel)
      (Parser.untilClose close item' fuel) scopes
      fun done' as bs => ∃ read, done' = done ++ read ∧ ReadsItems good read as bs := by
  induction fuel generalizing done with
  | zero =>
    intro c p hrel
    have htotal := hrel.total
    rw [List.length_append] at htotal
    omega
  | succ fuel ih =>
    have hstop : Sim tokens depth total scopes done (pure [] : CursorM (List γ)) (pure []) scopes
        fun done' as bs => ∃ read, done' = done ++ read ∧ ReadsItems good read as bs :=
      sim_pure ⟨[], (List.append_nil done).symm, .nil⟩
    rw [Cursor.untilClose, Parser.untilClose]
    refine sim_isAt fun b => ?_
    cases b with
    | true => exact hstop
    | false =>
      refine sim_isAt fun b => ?_
      cases b with
      | true => exact hstop
      | false =>
        refine hitem.bind hleast fun a read hne hneutral hgood => ?_
        have hpos : 0 < read.length := List.length_pos_iff.mpr hne
        refine sim_bind (ih (by rw [List.length_append]; omega)) ?_
        rintro as _ _ ⟨rest, rfl, hitems⟩
        refine sim_pure ⟨read ++ [] ++ rest, by simp, ?_⟩
        exact hitems.cons hgrows hneutral hgood .nil

theorem commaList_items {least : ℕ} {item : CursorM γ} {item' : ParseM γ}
    {good : (Span → Prop) → γ → Prop} (hgrows : Grows good) (hitem : Agree least depth item item' good)
    (hleast : least ≤ scopes) {stop : CursorM Bool} {stop' : ParseM Bool}
    (hstop : ∀ done, Sim tokens depth total scopes done stop stop' scopes
      fun done' a b => b = a ∧ done' = done)
    (fuel : ℕ) {done : List Token} (hfuel : total < done.length + fuel) :
    Sim tokens depth total scopes done (Cursor.commaList item stop fuel)
      (Parser.commaList item' stop' fuel) scopes
      fun done' as bs => ∃ read, done' = done ++ read ∧ ReadsItems good read as bs := by
  induction fuel generalizing done with
  | zero =>
    intro c p hrel
    have htotal := hrel.total
    rw [List.length_append] at htotal
    omega
  | succ fuel ih =>
    rw [Cursor.commaList, Parser.commaList]
    refine hitem.bind hleast fun a read hne hneutral hgood => ?_
    have hpos : 0 < read.length := List.length_pos_iff.mpr hne
    refine sim_take (by decide) (fun comma hkind => ?_) ?_
    · have hcomma : Neutral [comma] := .token (by rw [hkind]; rfl)
      refine sim_bind (hstop _) ?_
      rintro _ b _ ⟨rfl, rfl⟩
      cases b with
      | true =>
        refine sim_pure ⟨read ++ [comma] ++ [], by simp, ?_⟩
        exact ReadsItems.nil.cons hgrows hneutral hgood hcomma
      | false =>
        refine sim_bind (ih (by simp only [List.length_append, List.length_singleton]; omega)) ?_
        rintro as _ _ ⟨rest, rfl, hitems⟩
        refine sim_pure ⟨read ++ [comma] ++ rest, by simp, ?_⟩
        exact hitems.cons hgrows hneutral hgood hcomma
    · refine sim_pure ⟨read ++ [] ++ [], by simp, ?_⟩
      exact ReadsItems.nil.cons hgrows hneutral hgood .nil

/-- A list of items up to a closing token. -/
theorem sim_untilClose {least : ℕ} {item : CursorM γ} {item' : ParseM γ}
    {good : (Span → Prop) → γ → Prop} (hgrows : Grows good)
    (hitem : Agree least depth item item' good) (hleast : least ≤ scopes) {close : TokenKind}
    {k : List γ → CursorM α} {k' : List γ → ParseM β}
    (hk : ∀ as read, Neutral read → (∀ a ∈ as, good (Covers read) a) →
      Sim tokens depth total scopes (done ++ read) (k as) (k' as) scopes' R) :
    Sim tokens depth total scopes done
      (Cursor.remaining >>= fun left => Cursor.untilClose close item (left + 1) >>= k)
      (Parser.remaining >>= fun left => Parser.untilClose close item' (left + 1) >>= k') scopes'
      R := by
  refine sim_remaining fun left hleft _ => ?_
  refine sim_bind (untilClose_items hgrows hitem hleast close (left + 1) (by omega)) ?_
  rintro as _ _ ⟨read, rfl, ⟨rfl, hneutral, hgood⟩⟩
  exact hk _ read hneutral hgood

/-- A list of items between commas, which may be empty. -/
theorem sim_commaList {least : ℕ} {item : CursorM γ} {item' : ParseM γ}
    {good : (Span → Prop) → γ → Prop} (hgrows : Grows good)
    (hitem : Agree least depth item item' good) (hleast : least ≤ scopes) {close : TokenKind}
    {stop : CursorM Bool} {stop' : ParseM Bool}
    (hstop : ∀ done, Sim tokens depth total scopes done stop stop' scopes
      fun done' a b => b = a ∧ done' = done)
    {k : List γ → CursorM α} {k' : List γ → ParseM β}
    (hk : ∀ as read, Neutral read → (∀ a ∈ as, good (Covers read) a) →
      Sim tokens depth total scopes (done ++ read) (k as) (k' as) scopes' R) :
    Sim tokens depth total scopes done
      (Cursor.isAt close >>= fun b => if b then pure [] >>= k
        else Cursor.remaining >>= fun left => Cursor.commaList item stop (left + 1) >>= k)
      (Parser.isAt close >>= fun b => if b then pure [] >>= k'
        else Parser.remaining >>= fun left => Parser.commaList item' stop' (left + 1) >>= k')
      scopes' R := by
  refine sim_isAt fun b => ?_
  cases b with
  | true =>
    have hempty := hk [] [] .nil (by simp)
    rw [List.append_nil] at hempty
    exact hempty
  | false =>
    refine sim_remaining fun left hleft _ => ?_
    refine sim_bind (commaList_items hgrows hitem hleast hstop (left + 1) (by omega)) ?_
    rintro as _ _ ⟨read, rfl, ⟨rfl, hneutral, hgood⟩⟩
    exact hk _ read hneutral hgood

theorem sim_stop_false : Sim tokens depth total scopes done (pure false : CursorM Bool) (pure false)
    scopes fun done' a b => b = a ∧ done' = done := sim_pure ⟨rfl, rfl⟩

theorem sim_stop_isAt (kind : TokenKind) : Sim tokens depth total scopes done (Cursor.isAt kind)
    (Parser.isAt kind) scopes fun done' a b => b = a ∧ done' = done := by
  intro c p hrel
  rcases isAt_cases kind hrel with ⟨-, hc, hp⟩ | ⟨-, hc, hp⟩
  · rw [hc, hp]
    exact .ok [] (by rwa [List.append_nil]) ⟨rfl, List.append_nil _⟩
  · rw [hc, hp]
    exact .ok [] (by rwa [List.append_nil]) ⟨rfl, List.append_nil _⟩

end

end Speck
