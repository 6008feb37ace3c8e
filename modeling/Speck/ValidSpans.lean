import Speck.Analysis
import Speck.CursorPrograms
import Speck.Scan

/-!
# Valid spans

A span is valid if it names a file, and starts and stops between characters of that file's text, in
this order. The tokens of a text and the errors of the lexer have valid spans (`lexTextIn_spans`), and
so has every span that starts with one token and stops with a later one (`Covers.validIn`).
-/

namespace Speck

open Text

/-! ## Spans and texts -/

/-- The offsets are in order, inside the text and between two characters. -/
structure Span.IsPiece (text : Text) (span : Span) : Prop where
  ordered : span.start ≤ span.stop
  inside : span.stop ≤ text.utf8Len
  start : text.IsBoundary span.start
  stop : text.IsBoundary span.stop

/-- The span names one of the files and is a piece of its text. -/
def Span.ValidIn (texts : List Text) (span : Span) : Prop :=
  ∃ text, texts[span.source.id]? = some text ∧ span.IsPiece text

theorem Span.ValidIn.mono {texts texts' : List Text} {span : Span} (h : span.ValidIn texts)
    (hmore : texts <+: texts') : span.ValidIn texts' := by
  obtain ⟨text, htext, hpiece⟩ := h
  obtain ⟨rest, rfl⟩ := hmore
  obtain ⟨hlt, -⟩ := List.getElem?_eq_some_iff.mp htext
  exact ⟨text, by rwa [List.getElem?_append_left hlt], hpiece⟩

theorem Span.isPiece_append (front middle back : Text) (id : SourceId) :
    Span.IsPiece (front ++ middle ++ back)
      ⟨id, front.utf8Len, front.utf8Len + middle.utf8Len⟩ where
  ordered := Nat.le_add_right _ _
  inside := by
    rw [utf8Len_append, utf8Len_append]
    exact Nat.le_add_right _ _
  start := ⟨front, middle ++ back, List.append_assoc _ _ _, rfl⟩
  stop := ⟨front ++ middle, back, rfl, utf8Len_append _ _⟩

/-! ## Tokens -/

/-- The tokens of a text are its pieces in their order, and the last one is its end. -/
structure TokensOf (id : SourceId) (text : Text) (tokens : List Token) : Prop where
  ends : EndsInEof tokens
  order : InOrder tokens
  source : ∀ token ∈ tokens, token.span.source = id
  pieces : ∀ token ∈ tokens, token.span.IsPiece text

theorem TokensOf.oneFile {id : SourceId} {text : Text} {tokens : List Token}
    (h : TokensOf id text tokens) : OneFile tokens := fun t ht u hu => by
  rw [h.source t ht, h.source u hu]

/-- An error is a piece at its place. -/
theorem exists_of_mem_errorsOf {start : ℕ} {pieces : List (Piece × Text)} {d : Diagnostic}
    (h : d ∈ errorsOf start pieces) : ∃ before piece text after,
      pieces = before ++ (piece, text) :: after ∧
        d.span = ⟨default, start + (textOf before).utf8Len,
          start + (textOf before).utf8Len + text.utf8Len⟩ := by
  induction pieces generalizing start with
  | nil => simp [errorsOf] at h
  | cons e pieces ih =>
    obtain ⟨piece, text⟩ := e
    rw [errorsOf, List.mem_append] at h
    rcases h with h | h
    · cases piece with
      | error message =>
        rw [List.mem_singleton.mp h]
        exact ⟨[], .error message, text, pieces, rfl, rfl⟩
      | space => cases h
      | comment => cases h
      | token kind => cases h
    · obtain ⟨before, piece', text', after, rfl, hspan⟩ := ih h
      exact ⟨(piece, text) :: before, piece', text', after, rfl, by
        rw [hspan, textOf_cons, utf8Len_append, ← Nat.add_assoc]⟩

theorem isPiece_of_split {source : Text} {pieces before after : List (Piece × Text)} {piece : Piece}
    {text : Text} (hpieces : Pieces source pieces [])
    (hsplit : pieces = before ++ (piece, text) :: after) (id : SourceId) :
    Span.IsPiece source ⟨id, 0 + (textOf before).utf8Len,
      0 + (textOf before).utf8Len + text.utf8Len⟩ := by
  have hsource : source = textOf before ++ text ++ textOf after := by
    rw [hpieces.text, hsplit, textOf_append, textOf_cons, List.append_nil, List.append_assoc]
  rw [hsource, Nat.zero_add]
  exact Span.isPiece_append _ _ _ id

/-- The lexer on a file. -/
theorem lexTextIn_spans (source : Text) (id : SourceId) :
    match lexTextIn source id with
    | .ok tokens => TokensOf id source tokens
    | .error diagnostics => ∀ d ∈ diagnostics, d.span.source = id ∧ d.span.IsPiece source := by
  obtain ⟨pieces, hpieces⟩ := exists_pieces source
  rw [lexTextIn, lexIn, lex_eq hpieces, Option.map_some, Option.getD_some]
  by_cases herrors : errorsOf 0 pieces = []
  · rw [if_pos herrors]
    dsimp only
    have hne : ∀ e ∈ pieces, e.2 ≠ [] := fun e he => hpieces.ne_nil he
    have hlength : (textOf pieces).utf8Len = source.utf8Len := by
      rw [hpieces.text, List.append_nil]
    have hpiece : ∀ token ∈ tokensOf 0 pieces ++ [eofAt source.utf8Len],
        token.span.IsPiece source := by
      intro token htoken
      rcases List.mem_append.mp htoken with htoken | htoken
      · obtain ⟨before, kind, text, after, hsplit, rfl⟩ := exists_of_mem_tokensOf htoken
        exact isPiece_of_split hpieces hsplit default
      · rw [List.mem_singleton.mp htoken]
        have hend := Span.isPiece_append source [] [] default
        rwa [List.append_nil, List.append_nil] at hend
    refine ⟨?_, ⟨?_, ?_⟩, ?_, ?_⟩
    · refine ⟨⟨.eof, Span.withSource (eofAt source.utf8Len).span id⟩, ?_, rfl⟩
      rw [List.map_append, List.map_singleton, List.getLast?_append]
      rfl
    · rw [List.pairwise_map]
      refine List.pairwise_append.mpr ⟨pairwise_tokensOf hne, List.pairwise_singleton _ _, ?_⟩
      intro token htoken last hlast
      rw [List.mem_singleton.mp hlast]
      have hbounds := bounds_of_mem_tokensOf hne htoken
      rw [Nat.zero_add, hlength] at hbounds
      exact hbounds.2.2.1
    · intro token htoken
      obtain ⟨token, hmem, rfl⟩ := List.mem_map.mp htoken
      exact (hpiece token hmem).ordered
    · intro token htoken
      obtain ⟨token, -, rfl⟩ := List.mem_map.mp htoken
      rfl
    · intro token htoken
      obtain ⟨token, hmem, rfl⟩ := List.mem_map.mp htoken
      obtain ⟨hordered, hinside, hstart, hstop⟩ := hpiece token hmem
      exact ⟨hordered, hinside, hstart, hstop⟩
  · rw [if_neg herrors]
    dsimp only
    intro d hd
    obtain ⟨d, hmem, rfl⟩ := List.mem_map.mp hd
    obtain ⟨before, piece, text, after, hsplit, hspan⟩ := exists_of_mem_errorsOf hmem
    refine ⟨rfl, ?_⟩
    dsimp only
    rw [hspan]
    exact isPiece_of_split hpieces hsplit id

/-! ## Spans over tokens -/

theorem Covers.isPiece {id : SourceId} {text : Text} {tokens : List Token}
    (h : TokensOf id text tokens) {span : Span} (hcovers : Covers tokens span) :
    span.source = id ∧ span.IsPiece text := by
  obtain ⟨first, hfirst, hsource⟩ := hcovers.source_eq
  obtain ⟨t, ht, hstart⟩ := hcovers.start_eq
  obtain ⟨u, hu, hstop⟩ := hcovers.stop_eq
  refine ⟨by rw [hsource, h.source first hfirst], h.order.start_le_stop hcovers, ?_, ?_, ?_⟩
  · rw [hstop]
    exact (h.pieces u hu).inside
  · rw [hstart]
    exact (h.pieces t ht).start
  · rw [hstop]
    exact (h.pieces u hu).stop

theorem Covers.validIn {id : SourceId} {text : Text} {tokens : List Token} {texts : List Text}
    (h : TokensOf id text tokens) (htext : texts[id.id]? = some text) {span : Span}
    (hcovers : Covers tokens span) : span.ValidIn texts := by
  obtain ⟨hsource, hpiece⟩ := hcovers.isPiece h
  exact ⟨text, by rwa [hsource], hpiece⟩

end Speck
