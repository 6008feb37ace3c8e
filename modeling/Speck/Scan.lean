import Speck.Lexer

/-!
# Scanning

The lexer on characters. `scan` reads one piece from the front of a text : white space, a comment, a
token or an error. `Pieces` divides a text into its pieces, and the lexer gives the tokens among
them at their places (`lex_eq`), so it never panics. A piece depends on little of what comes after
it (`scan_alone`, `scan_space`). So the lexer is a tokenizer that loses nothing, and it finds
lexemes again that were joined (`lex_lossless`).
-/

namespace Speck

open Text

/-! ## Pieces -/

inductive Piece where
  | space
  | comment
  | token (kind : TokenKind)
  | error (message : String)

def unexpected (c : Char) : Piece := .error s!"unexpected character `{c}`"

def plainPiece (c : Char) : Option TokenKind → Piece
  | some kind => .token kind
  | none => unexpected c

/-- A point with digits after it. -/
def scanFraction : Text → Option (Text × Text)
  | '.' :: d :: rest =>
    if isAsciiDigit d then
      some ('.' :: (d :: rest).takeWhile isAsciiDigit, (d :: rest).dropWhile isAsciiDigit)
    else none
  | _ => none

def integerPiece (text : Text) : Piece :=
  match parseInteger text with
  | some value => .token (.integer value)
  | none => .error "numeric literal is out of range"

/-- The piece that begins with `c`, the characters it takes from `cs`, and the rest. -/
def scan (c : Char) (cs : Text) : Piece × Text × Text :=
  match lead c with
  | .space => (.space, [], cs)
  | .symbol longer plain =>
    match cs.head?.bind (List.lookup · longer) with
    | some (some kind) => (.token kind, cs.take 1, cs.drop 1)
    | some none =>
      (.comment, cs.take 1 ++ (cs.drop 1).takeWhile inLine, (cs.drop 1).dropWhile inLine)
    | none => (plainPiece c plain, [], cs)
  | .string =>
    match cs.dropWhile inString with
    | '"' :: rest =>
      (.token (.string (String.ofList (cs.takeWhile inString))), cs.takeWhile inString ++ ['"'],
        rest)
    | rest => (.error "unterminated string literal", cs.takeWhile inString, rest)
  | .number =>
    let whole := cs.takeWhile isAsciiDigit
    match scanFraction (cs.dropWhile isAsciiDigit) with
    | some (fraction, rest) =>
      (.token (.float (parseFloat (c :: whole ++ fraction))), whole ++ fraction, rest)
    | none => (integerPiece (c :: whole), whole, cs.dropWhile isAsciiDigit)
  | .identifier =>
    (.token (wordKind (c :: cs.takeWhile isWordCharacter)), cs.takeWhile isWordCharacter,
      cs.dropWhile isWordCharacter)
  | .other => (unexpected c, [], cs)

/-- The pieces at the front of a text, each with what it takes of the text, and what is left. -/
inductive Pieces : Text → List (Piece × Text) → Text → Prop
  | done (rest : Text) : Pieces rest [] rest
  | cons {c : Char} {cs taken rest end' : Text} {piece : Piece} {pieces : List (Piece × Text)}
      (h : scan c cs = (piece, taken, rest)) (hrest : Pieces rest pieces end') :
      Pieces (c :: cs) ((piece, c :: taken) :: pieces) end'

theorem scanFraction_append {text fraction rest : Text}
    (h : scanFraction text = some (fraction, rest)) : fraction ++ rest = text := by
  unfold scanFraction at h
  split at h
  · split at h
    · obtain ⟨rfl, rfl⟩ := Prod.mk.inj (Option.some.inj h)
      rw [List.cons_append, List.takeWhile_append_dropWhile]
    · cases h
  · cases h

/-- A piece takes characters from the front. -/
theorem scan_append {c : Char} {cs taken rest : Text} {piece : Piece}
    (h : scan c cs = (piece, taken, rest)) : taken ++ rest = cs := by
  unfold scan at h
  split at h
  · obtain ⟨-, rfl, rfl⟩ := h
    rfl
  · split at h
    · obtain ⟨-, rfl, rfl⟩ := h
      exact List.take_append_drop 1 cs
    · obtain ⟨-, rfl, rfl⟩ := h
      rw [List.append_assoc, List.takeWhile_append_dropWhile, List.take_append_drop]
    · obtain ⟨-, rfl, rfl⟩ := h
      rfl
  · split at h
    · rename_i rest' hrest
      obtain ⟨-, rfl, rfl⟩ := h
      rw [List.append_assoc, List.singleton_append, ← hrest, List.takeWhile_append_dropWhile]
    · obtain ⟨-, rfl, rfl⟩ := h
      exact List.takeWhile_append_dropWhile
  · dsimp only at h
    split at h
    · rename_i fraction rest' hfraction
      obtain ⟨-, rfl, rfl⟩ := h
      rw [List.append_assoc, scanFraction_append hfraction, List.takeWhile_append_dropWhile]
    · obtain ⟨-, rfl, rfl⟩ := h
      exact List.takeWhile_append_dropWhile
  · obtain ⟨-, rfl, rfl⟩ := h
    exact List.takeWhile_append_dropWhile
  · obtain ⟨-, rfl, rfl⟩ := h
    rfl

/-- Every text has its pieces. -/
theorem exists_pieces (text : Text) : ∃ pieces, Pieces text pieces [] := by
  induction hlength : text.length using Nat.strong_induction_on generalizing text with
  | _ n ih =>
    cases text with
    | nil => exact ⟨[], .done []⟩
    | cons c cs =>
      rcases hscan : scan c cs with ⟨piece, taken, rest⟩
      have hlt : rest.length < n := by
        have happend := congrArg List.length (scan_append hscan)
        rw [List.length_append] at happend
        rw [List.length_cons] at hlength
        omega
      obtain ⟨pieces, hpieces⟩ := ih rest.length hlt rest rfl
      exact ⟨_, .cons hscan hpieces⟩

/-! ## Characters -/

theorem uniform_isAsciiDigit : Uniform isAsciiDigit := ⟨false, fun _ h => isAsciiDigit_of_le h⟩

theorem uniform_isWordCharacter : Uniform isWordCharacter := by
  refine ⟨false, fun c h => ?_⟩
  rw [isWordCharacter, isAsciiAlphanumeric_of_le h, Bool.false_or]
  exact beq_false_of_ne (ne_of_le h (by decide))

theorem uniform_inLine : Uniform inLine :=
  ⟨true, fun _ h => bne_iff_ne.mpr (ne_of_le h (by decide))⟩

theorem uniform_inString : Uniform inString := by
  refine ⟨true, fun c h => ?_⟩
  rw [inString, bne_iff_ne.mpr (ne_of_le h (by decide)), bne_iff_ne.mpr (ne_of_le h (by decide))]
  rfl

theorem lead_of_le {c : Char} (h : 128 ≤ c.toNat) : lead c = .other := by
  unfold lead
  split
  all_goals first
    | exact absurd h (by decide)
    | skip
  rw [if_neg (by simp [isAsciiDigit_of_le h]), if_neg]
  simp [isAsciiUppercase_of_le h, not_le_of_le h (by decide : 'z'.toNat < 128),
    ne_of_le h (by decide : '_'.toNat < 128)]

theorem lt_of_lead {c : Char} (h : lead c ≠ .other) : c.toNat < 128 := by
  by_contra hle
  exact h (lead_of_le (not_lt.mp hle))

/-- What a symbol goes on with is ASCII. -/
theorem lt_of_mem_longer {c : Char} {longer : List (Char × Option TokenKind)}
    {plain : Option TokenKind} (h : lead c = .symbol longer plain) :
    ∀ e ∈ longer, e.1.toNat < 128 := by
  unfold lead at h
  split at h
  all_goals first
    | (obtain ⟨rfl, rfl⟩ := Lead.symbol.inj h; decide)
    | cases h
    | skip
  split at h
  · cases h
  · split at h <;> cases h

/-! ## The bytes of a text -/

namespace Lexer

/-- The lexer stands between two texts. -/
structure At (l : Lexer) (front back : Text) : Prop where
  source : l.source = front ++ back
  cursor : l.cursor = front.utf8Len

variable {l : Lexer} {front back : Text}

theorem At.drop (h : l.At front back) : l.bytes.drop l.cursor = back.utf8 := by
  rw [bytes, h.source, h.cursor, utf8_append, utf8Len, List.drop_left]

theorem At.byteAt (h : l.At front back) : l.byteAt l.cursor = back.headByte := by
  rw [Lexer.byteAt, headByte, ← h.drop, List.head?_drop]

/-- Over some characters. -/
theorem At.advance {middle : Text} (h : l.At front (middle ++ back)) :
    At { l with cursor := l.cursor + middle.utf8Len } (front ++ middle) back :=
  ⟨by rw [List.append_assoc]; exact h.source, by rw [utf8Len_append, ← h.cursor]⟩

theorem At.skipWhile (h : l.At front back) {p : Char → Bool} (hp : Uniform p) :
    l.skipWhile p = { l with cursor := l.cursor + utf8Len (back.takeWhile p) } := by
  rw [Lexer.skipWhile, h.drop, takeWhile_utf8 hp, utf8Len]

/-- The text between two places. -/
theorem At.slice {middle : Text} {cursor : ℕ} (h : l.source = front ++ middle ++ back)
    (hcursor : cursor = front.utf8Len + middle.utf8Len) :
    l.source.slice front.utf8Len cursor = some middle := by
  rw [h, hcursor, slice_append]

theorem take_eq {longer : List (Char × Option TokenKind)} (h : l.At front back)
    (hlonger : ∀ e ∈ longer, e.1.toNat < 128) :
    l.take longer = (back.head?.bind (List.lookup · longer)).map
      fun kind => (kind, { l with cursor := l.cursor + 1 }) := by
  induction longer with
  | nil => cases back <;> rfl
  | cons e longer ih =>
    obtain ⟨expected, kind⟩ := e
    have hexpected : expected.toNat < 128 := hlonger (expected, kind) List.mem_cons_self
    rw [take, h.byteAt, ih fun e he => hlonger e (List.mem_cons_of_mem _ he)]
    by_cases hhead : back.head? = some expected
    · rw [if_pos ((headByte_eq_some_iff hexpected).mpr hhead), hhead]
      simp
    · rw [if_neg fun h => hhead ((headByte_eq_some_iff hexpected).mp h)]
      cases hback : back.head? with
      | none => rfl
      | some c =>
        have hne : c ≠ expected := fun h => hhead (by rw [hback, h])
        simp [List.lookup_cons, beq_false_of_ne hne]

/-- What the lexer makes of a piece that begins at `start` and ends at its cursor. -/
def emit (l : Lexer) (piece : Piece) (start : ℕ) : Lexer :=
  match piece with
  | .space | .comment => l
  | .token kind => l.push kind start
  | .error message => l.report message start

theorem unexpected_eq {c : Char} {cs : Text} {cursor : ℕ} (h : l.At front (c :: cs)) :
    unexpected { l with cursor := cursor } l.cursor =
      some (emit { l with cursor := l.cursor + utf8Len [c] } (Speck.unexpected c) l.cursor) := by
  have hslice : l.source.sliceFrom l.cursor = some (c :: cs) := by
    rw [h.source, h.cursor, sliceFrom_append]
  have hlen : utf8Len [c] = c.utf8Size := by rw [utf8Len_cons, utf8Len_nil, Nat.add_zero]
  rw [unexpected, hlen]
  simp only [hslice, bind, Option.bind, List.head?_cons]
  rfl

theorem string_eq {cs : Text} {start : ℕ} (h : l.At front cs) :
    l.string start = some (match cs.dropWhile inString with
      | '"' :: _ => { l with cursor := l.cursor + utf8Len (cs.takeWhile inString) + 1 }.push
          (.string (String.ofList (cs.takeWhile inString))) start
      | _ => { l with cursor := l.cursor + utf8Len (cs.takeWhile inString) }.report
          "unterminated string literal" start) := by
  have hbody : At { l with cursor := l.cursor + utf8Len (cs.takeWhile inString) }
      (front ++ cs.takeWhile inString) (cs.dropWhile inString) :=
    At.advance (by rwa [List.takeWhile_append_dropWhile])
  have hsource : l.source = front ++ cs.takeWhile inString ++ cs.dropWhile inString := hbody.source
  have hbyte := @headByte_eq_some_iff (cs.dropWhile inString) '"' (by decide)
  rw [string, h.skipWhile uniform_inString]
  dsimp only
  rw [hbody.byteAt]
  by_cases hquote : (cs.dropWhile inString).head? = some '"'
  · obtain ⟨tail, htail⟩ : ∃ tail, cs.dropWhile inString = '"' :: tail := by
      cases hdrop : cs.dropWhile inString with
      | nil => simp [hdrop] at hquote
      | cons c tail =>
        rw [hdrop, List.head?_cons, Option.some_inj] at hquote
        exact ⟨tail, by rw [hquote]⟩
    rw [if_pos (hbyte.mpr hquote), htail, h.cursor, At.slice hsource rfl]
    rfl
  · rw [if_neg (mt hbyte.mp hquote)]
    split
    · rename_i tail htail
      exact absurd (by rw [htail]; rfl) hquote
    · rfl

/-- A number that begins with the character before. -/
theorem number_eq {c : Char} {cs : Text} {start : ℕ} (h : l.At (front ++ [c]) cs)
    (hstart : start = front.utf8Len) :
    l.number start = some (match scanFraction (cs.dropWhile isAsciiDigit) with
      | some (fraction, _) =>
        { l with cursor := l.cursor + utf8Len (cs.takeWhile isAsciiDigit) + utf8Len fraction }.push
          (.float (parseFloat (c :: cs.takeWhile isAsciiDigit ++ fraction))) start
      | none =>
        let l := { l with cursor := l.cursor + utf8Len (cs.takeWhile isAsciiDigit) }
        match parseInteger (c :: cs.takeWhile isAsciiDigit) with
        | some value => l.push (.integer value) start
        | none => l.report "numeric literal is out of range" start) := by
  have hwhole : At { l with cursor := l.cursor + utf8Len (cs.takeWhile isAsciiDigit) }
      (front ++ [c] ++ cs.takeWhile isAsciiDigit) (cs.dropWhile isAsciiDigit) :=
    At.advance (by rwa [List.takeWhile_append_dropWhile])
  have hinteger : (l.source.slice start (l.cursor + utf8Len (cs.takeWhile isAsciiDigit))) =
      some (c :: cs.takeWhile isAsciiDigit) := by
    have hsplit := hwhole.source
    dsimp only at hsplit
    rw [List.append_assoc front] at hsplit
    rw [hstart, h.cursor]
    refine At.slice hsplit ?_
    rw [utf8Len_append, Nat.add_assoc, ← utf8Len_append]
    rfl
  rw [number, h.skipWhile uniform_isAsciiDigit]
  dsimp only
  rw [hwhole.byteAt]
  by_cases hpoint : (cs.dropWhile isAsciiDigit).head? = some '.'; swap
  · have hnone : scanFraction (cs.dropWhile isAsciiDigit) = none := by
      unfold scanFraction
      split
      · rename_i d rest hrest
        exact absurd (by rw [hrest]; rfl) hpoint
      · rfl
    rw [if_neg fun hand => hpoint ((headByte_eq_some_iff (by decide)).mp hand.1), hnone, hinteger]
    rfl
  obtain ⟨tail, htail⟩ : ∃ tail, cs.dropWhile isAsciiDigit = '.' :: tail := by
    cases hdrop : cs.dropWhile isAsciiDigit with
    | nil => simp [hdrop] at hpoint
    | cons d tail =>
      rw [hdrop, List.head?_cons, Option.some_inj] at hpoint
      exact ⟨tail, by rw [hpoint]⟩
  rw [htail] at hwhole hpoint ⊢
  have hafter := @At.advance _ _ tail ['.'] hwhole
  have hbyte := hafter.byteAt
  dsimp only at hbyte
  have hone : utf8Len ['.'] = 1 := rfl
  have hpointSize : '.'.utf8Size = 1 := rfl
  rw [hone] at hbyte hafter
  have hhead : headByte ('.' :: tail) = some '.' := (headByte_eq_some_iff (by decide)).mpr hpoint
  have hany : (Lexer.byteAt { l with cursor := l.cursor + utf8Len (cs.takeWhile isAsciiDigit) }
      (l.cursor + utf8Len (cs.takeWhile isAsciiDigit) + 1)).any isAsciiDigit =
        tail.head?.any isAsciiDigit := by
    rw [← any_headByte uniform_isAsciiDigit, ← hbyte]
    rfl
  rw [hhead, hany]
  cases tail with
  | nil =>
    rw [if_neg (by simp), hinteger]
    rfl
  | cons d tail =>
    rw [List.head?_cons, Option.any_some]
    by_cases hd : isAsciiDigit d = true; swap
    · rw [if_neg fun hand => hd hand.2, hinteger, scanFraction, if_neg hd]
      rfl
    · rw [if_pos ⟨rfl, hd⟩, scanFraction, if_pos hd, hafter.skipWhile uniform_isAsciiDigit]
      have hfloat : l.source = front ++ (c :: cs.takeWhile isAsciiDigit ++
          '.' :: (d :: tail).takeWhile isAsciiDigit) ++ (d :: tail).dropWhile isAsciiDigit := by
        have hsplit := hafter.source
        dsimp only at hsplit
        rw [hsplit, ← @List.takeWhile_append_dropWhile _ isAsciiDigit (d :: tail)]
        simp
      have hlen : l.cursor + utf8Len (cs.takeWhile isAsciiDigit) + 1 +
          utf8Len ((d :: tail).takeWhile isAsciiDigit) = front.utf8Len +
            utf8Len (c :: cs.takeWhile isAsciiDigit ++ '.' :: (d :: tail).takeWhile isAsciiDigit) := by
        rw [h.cursor]
        simp only [utf8Len_append, utf8Len_cons, utf8Len_nil, hpointSize]
        omega
      have hfraction : l.cursor + utf8Len (cs.takeWhile isAsciiDigit) + 1 +
          utf8Len ((d :: tail).takeWhile isAsciiDigit) =
            l.cursor + utf8Len (cs.takeWhile isAsciiDigit) +
              utf8Len ('.' :: (d :: tail).takeWhile isAsciiDigit) := by
        rw [utf8Len_cons, hpointSize, Nat.add_assoc _ 1]
      dsimp only
      rw [hstart, At.slice hfloat hlen, ← hfraction]
      rfl

/-- A step reads one piece. -/
theorem step_eq {c : Char} {cs taken rest : Text} {piece : Piece} (h : l.At front (c :: cs))
    (hscan : scan c cs = (piece, taken, rest)) :
    l.step = some (emit { l with cursor := l.cursor + utf8Len (c :: taken) } piece l.cursor) := by
  obtain ⟨byte, hbyte, hcases⟩ := headByte_cons c cs
  rw [← h.byteAt] at hbyte
  unfold step
  simp only [hbyte, bind, Option.bind]
  by_cases hother : lead c = .other
  · have hlead : lead byte = .other := by
      rcases hcases with ⟨-, rfl⟩ | ⟨-, hle⟩
      · exact hother
      · exact lead_of_le hle
    simp only [scan, hother, Prod.mk.injEq] at hscan
    obtain ⟨rfl, rfl, rfl⟩ := hscan
    simp only [hlead]
    exact unexpected_eq h
  · have hc := lt_of_lead hother
    obtain rfl : byte = c := by
      rcases hcases with ⟨-, rfl⟩ | ⟨hle, -⟩
      · rfl
      · omega
    have hsize (text : Text) : utf8Len (byte :: text) = 1 + utf8Len text := by
      rw [utf8Len_cons, utf8Size_of_lt hc]
    have hnext : At { l with cursor := l.cursor + 1 } (front ++ [byte]) cs := by
      have hadvance := @At.advance l front cs [byte] h
      rwa [hsize, utf8Len_nil, Nat.add_zero] at hadvance
    have hsource : l.source = front ++ (byte :: taken) ++ rest := by
      rw [h.source, ← scan_append hscan, List.append_assoc, List.cons_append]
    unfold scan at hscan
    cases hlead : lead byte with
    | other => exact absurd hlead hother
    | space =>
      simp only [hlead, Prod.mk.injEq] at hscan
      obtain ⟨rfl, rfl, rfl⟩ := hscan
      rw [hsize, utf8Len_nil, Nat.add_zero]
      rfl
    | symbol longer plain =>
      simp only [hlead] at hscan
      simp only [take_eq hnext (lt_of_mem_longer hlead)]
      cases hlookup : cs.head?.bind (List.lookup · longer) with
      | none =>
        simp only [hlookup, Prod.mk.injEq] at hscan
        obtain ⟨rfl, rfl, rfl⟩ := hscan
        cases plain with
        | some kind =>
          rw [hsize, utf8Len_nil, Nat.add_zero]
          rfl
        | none => exact unexpected_eq h
      | some kind =>
        simp only [hlookup] at hscan
        obtain ⟨d, hd, hlookup⟩ := Option.bind_eq_some_iff.mp hlookup
        obtain ⟨rest', rfl⟩ : ∃ rest', cs = d :: rest' := by
          cases cs with
          | nil => cases hd
          | cons head rest' => exact ⟨rest', by rw [Option.some.inj hd]⟩
        obtain ⟨before, after, hlonger, -⟩ := List.lookup_eq_some_iff.mp hlookup
        have hsmall : d.toNat < 128 := lt_of_mem_longer hlead (d, kind) (by simp [hlonger])
        have hd (text : Text) : utf8Len (d :: text) = 1 + utf8Len text := by
          rw [utf8Len_cons, utf8Size_of_lt hsmall]
        cases kind with
        | some kind =>
          obtain ⟨rfl, rfl, rfl⟩ := hscan
          simp only [List.take_succ_cons, List.take_zero, hsize, hd, utf8Len_nil, Option.map_some]
          rfl
        | none =>
          obtain ⟨rfl, rfl, rfl⟩ := hscan
          have hnext' := @At.advance _ _ rest' [d] hnext
          rw [hd, utf8Len_nil, Nat.add_zero] at hnext'
          simp only [Option.map_some, lineComment, hnext'.skipWhile uniform_inLine, hsize, hd,
            List.take_succ_cons, List.take_zero, List.drop_succ_cons, List.drop_zero,
            List.singleton_append, emit, Nat.add_assoc, Nat.zero_add]
    | string =>
      simp only [hlead] at hscan
      simp only [string_eq hnext]
      split at hscan
      · obtain ⟨rfl, rfl, rfl⟩ := hscan
        rw [hsize, utf8Len_append, ← Nat.add_assoc, ← Nat.add_assoc]
        rfl
      · obtain ⟨rfl, rfl, rfl⟩ := hscan
        rw [hsize, ← Nat.add_assoc]
        rfl
    | number =>
      simp only [hlead] at hscan
      simp only [number_eq hnext h.cursor]
      split at hscan
      · obtain ⟨rfl, rfl, rfl⟩ := hscan
        rw [hsize, utf8Len_append, ← Nat.add_assoc, ← Nat.add_assoc]
        rfl
      · obtain ⟨rfl, rfl, rfl⟩ := hscan
        simp only [integerPiece]
        rw [hsize, ← Nat.add_assoc]
        split <;> rfl
    | identifier =>
      simp only [hlead, Prod.mk.injEq] at hscan
      obtain ⟨rfl, rfl, rfl⟩ := hscan
      have hlen : l.cursor + 1 + utf8Len (cs.takeWhile isWordCharacter) =
          l.cursor + utf8Len (byte :: cs.takeWhile isWordCharacter) := by
        rw [hsize, Nat.add_assoc]
      rw [identifier, hnext.skipWhile uniform_isWordCharacter]
      dsimp only
      rw [hlen, h.cursor, At.slice hsource rfl]
      rfl

end Lexer

/-! ## Tokens -/

namespace Piece

/-- The token of a piece between two offsets. -/
def tokens (piece : Piece) (start stop : ℕ) : List Token :=
  match piece with
  | .token kind => [⟨kind, ⟨default, start, stop⟩⟩]
  | _ => []

def errors (piece : Piece) (start stop : ℕ) : List Diagnostic :=
  match piece with
  | .error message => [⟨message, ⟨default, start, stop⟩⟩]
  | _ => []

end Piece

/-- The text of pieces. -/
def textOf (pieces : List (Piece × Text)) : Text := (pieces.map (·.2)).flatten

/-- The tokens of pieces whose text begins at an offset. -/
def tokensOf : ℕ → List (Piece × Text) → List Token
  | _, [] => []
  | start, (piece, text) :: pieces =>
    piece.tokens start (start + text.utf8Len) ++ tokensOf (start + text.utf8Len) pieces

def errorsOf : ℕ → List (Piece × Text) → List Diagnostic
  | _, [] => []
  | start, (piece, text) :: pieces =>
    piece.errors start (start + text.utf8Len) ++ errorsOf (start + text.utf8Len) pieces

/-- The end of a text. -/
def eofAt (offset : ℕ) : Token := ⟨.eof, ⟨default, offset, offset⟩⟩

@[simp] theorem textOf_cons (piece : Piece) (text : Text) (pieces : List (Piece × Text)) :
    textOf ((piece, text) :: pieces) = text ++ textOf pieces := rfl

@[simp] theorem textOf_append (a b : List (Piece × Text)) :
    textOf (a ++ b) = textOf a ++ textOf b := by
  simp [textOf]

theorem Pieces.text {text rest : Text} {pieces : List (Piece × Text)}
    (h : Pieces text pieces rest) : text = textOf pieces ++ rest := by
  induction h with
  | done rest => rfl
  | cons hscan hrest ih => rw [textOf_cons, List.append_assoc, ← ih, ← scan_append hscan,
      List.cons_append]

namespace Lexer

theorem emit_eq (l : Lexer) (piece : Piece) (start : ℕ) :
    l.emit piece start = { l with
      tokens := l.tokens ++ piece.tokens start l.cursor
      diagnostics := l.diagnostics ++ piece.errors start l.cursor } := by
  cases piece <;> simp [emit, push, report, Piece.tokens, Piece.errors]

/-- A run over all pieces. -/
theorem run_eq {text : Text} {pieces : List (Piece × Text)} (h : Pieces text pieces [])
    {l : Lexer} {front : Text} (hat : l.At front text) {fuel : ℕ} (hfuel : text.utf8Len ≤ fuel) :
    run fuel l = some
      { source := l.source
        cursor := l.cursor + text.utf8Len
        tokens := l.tokens ++ tokensOf l.cursor pieces
        diagnostics := l.diagnostics ++ errorsOf l.cursor pieces } := by
  generalize hend : ([] : Text) = rest at h
  induction h generalizing l front fuel with
  | done rest =>
    subst hend
    have hdone : ¬l.cursor < l.bytes.length := by
      rw [bytes, hat.source, hat.cursor, List.append_nil, utf8Len]
      exact lt_irrefl _
    cases fuel <;> simp [run, hdone, tokensOf, errorsOf]
  | @cons c cs taken rest _ piece pieces hscan hrest ih =>
    subst hend
    have hpos : 0 < utf8Len (c :: cs) := utf8Len_pos (List.cons_ne_nil c cs)
    have hlt : l.cursor < l.bytes.length := by
      rw [bytes, hat.source, hat.cursor, ← utf8Len, utf8Len_append]
      omega
    obtain ⟨fuel, rfl⟩ : ∃ n, fuel = n + 1 := ⟨fuel - 1, by omega⟩
    have hsplit : utf8Len (c :: cs) = utf8Len (c :: taken) + utf8Len rest := by
      rw [← scan_append hscan, ← List.cons_append, utf8Len_append]
    have htaken : 0 < utf8Len (c :: taken) := utf8Len_pos (List.cons_ne_nil c taken)
    have hnext : At { l with cursor := l.cursor + utf8Len (c :: taken) } (front ++ c :: taken)
        rest := At.advance (by rwa [List.cons_append, scan_append hscan])
    rw [run, if_pos hlt, step_eq hat hscan, Option.bind_some, emit_eq]
    have hemit : At { l with
        cursor := l.cursor + utf8Len (c :: taken)
        tokens := l.tokens ++ piece.tokens l.cursor (l.cursor + utf8Len (c :: taken))
        diagnostics := l.diagnostics ++ piece.errors l.cursor (l.cursor + utf8Len (c :: taken)) }
        (front ++ c :: taken) rest := ⟨hnext.source, hnext.cursor⟩
    rw [ih hemit (by omega) rfl]
    simp only [tokensOf, errorsOf, List.append_assoc, hsplit, Nat.add_assoc]

end Lexer

theorem lex_eq {source : Text} {pieces : List (Piece × Text)} (h : Pieces source pieces []) :
    lex source = some
      (if errorsOf 0 pieces = [] then .ok (tokensOf 0 pieces ++ [eofAt source.utf8Len])
        else .error (errorsOf 0 pieces)) := by
  have hstart : (Lexer.new source).At [] source := ⟨rfl, rfl⟩
  rw [lex, Lexer.run_eq h hstart (le_refl _), Option.map_some, Lexer.finish]
  dsimp only [Lexer.new]
  by_cases hempty : errorsOf 0 pieces = [] <;> simp [hempty, eofAt]

/-! ## What a piece depends on -/

section Lookahead

variable {p : Char → Bool}

theorem takeWhile_append_of_stop {cs : Text} (h : cs.dropWhile p ≠ []) (more : Text) :
    (cs ++ more).takeWhile p = cs.takeWhile p ∧
      (cs ++ more).dropWhile p = cs.dropWhile p ++ more := by
  induction cs with
  | nil => exact absurd rfl h
  | cons c cs ih =>
    by_cases hc : p c = true
    · rw [List.dropWhile_cons_of_pos hc] at h
      obtain ⟨htake, hdrop⟩ := ih h
      simp [hc, htake, hdrop]
    · simp [hc]

theorem takeWhile_append_space (h : p ' ' = false) (cs more : Text) :
    (cs ++ ' ' :: more).takeWhile p = cs.takeWhile p ∧
      (cs ++ ' ' :: more).dropWhile p = cs.dropWhile p ++ ' ' :: more := by
  induction cs with
  | nil => simp [h]
  | cons c cs ih => by_cases hc : p c = true <;> simp [hc, ih]

end Lookahead

theorem lookup_space {c : Char} {longer : List (Char × Option TokenKind)}
    {plain : Option TokenKind} (h : lead c = .symbol longer plain) :
    List.lookup ' ' longer = none := by
  unfold lead at h
  split at h
  all_goals first
    | (obtain ⟨rfl, rfl⟩ := Lead.symbol.inj h; decide)
    | cases h
    | skip
  split at h
  · cases h
  · split at h <;> cases h

theorem scanFraction_space {text : Text} (more : Text) :
    scanFraction (text ++ ' ' :: more) =
      (scanFraction text).map fun (fraction, rest) => (fraction, rest ++ ' ' :: more) := by
  match text with
  | [] => rfl
  | [c] =>
    by_cases hc : c = '.'
    · subst hc
      rfl
    · simp [scanFraction, hc]
  | c :: d :: rest =>
    by_cases hc : c = '.'
    · subst hc
      rw [List.cons_append, List.cons_append, scanFraction, scanFraction]
      by_cases hd : isAsciiDigit d = true
      · have hspace := takeWhile_append_space (by decide : isAsciiDigit ' ' = false) (d :: rest) more
        rw [List.cons_append] at hspace
        rw [if_pos hd, if_pos hd, hspace.1, hspace.2]
        rfl
      · rw [if_neg hd, if_neg hd]
        rfl
    · simp [scanFraction, hc]

/-- A piece that does not run to the end is the same before a space. -/
theorem scan_space {c : Char} {cs taken rest : Text} {piece : Piece}
    (h : scan c cs = (piece, taken, rest)) (more : Text)
    (hend : rest = [] → piece ≠ .comment ∧ ∀ message, piece ≠ .error message) :
    scan c (cs ++ ' ' :: more) = (piece, taken, rest ++ ' ' :: more) := by
  unfold scan at h ⊢
  cases hlead : lead c with
  | space =>
    simp only [hlead, Prod.mk.injEq] at h ⊢
    obtain ⟨rfl, rfl, rfl⟩ := h
    exact ⟨rfl, rfl, rfl⟩
  | other =>
    simp only [hlead, Prod.mk.injEq] at h ⊢
    obtain ⟨rfl, rfl, rfl⟩ := h
    exact ⟨rfl, rfl, rfl⟩
  | symbol longer plain =>
    simp only [hlead] at h ⊢
    cases cs with
    | nil =>
      simp only [List.head?_nil, Option.bind_none, Prod.mk.injEq] at h
      obtain ⟨rfl, rfl, rfl⟩ := h
      simp [lookup_space hlead]
    | cons d cs =>
      simp only [List.cons_append, List.head?_cons, Option.bind_some, List.take_succ_cons,
        List.take_zero, List.drop_succ_cons, List.drop_zero] at h ⊢
      split at h
      · simp only [Prod.mk.injEq] at h
        obtain ⟨rfl, rfl, rfl⟩ := h
        rfl
      · simp only [Prod.mk.injEq] at h
        obtain ⟨rfl, rfl, rfl⟩ := h
        have hstop : cs.dropWhile inLine ≠ [] := fun hnil => (hend hnil).1 rfl
        obtain ⟨htake, hdrop⟩ := takeWhile_append_of_stop hstop (' ' :: more)
        rw [htake, hdrop]
      · simp only [Prod.mk.injEq] at h
        obtain ⟨rfl, rfl, rfl⟩ := h
        rfl
  | string =>
    simp only [hlead] at h ⊢
    split at h
    · rename_i tail htail
      simp only [Prod.mk.injEq] at h
      obtain ⟨rfl, rfl, rfl⟩ := h
      obtain ⟨htake, hdrop⟩ := takeWhile_append_of_stop (by rw [htail]; exact nofun) (' ' :: more)
      rw [htake, hdrop, htail]
      rfl
    · rename_i hnot
      simp only [Prod.mk.injEq] at h
      obtain ⟨rfl, rfl, rfl⟩ := h
      have hstop : cs.dropWhile inString ≠ [] := fun hnil => (hend hnil).2 _ rfl
      obtain ⟨htake, hdrop⟩ := takeWhile_append_of_stop hstop (' ' :: more)
      rw [htake, hdrop]
      obtain ⟨head, tail, htail⟩ := List.exists_cons_of_ne_nil hstop
      have hhead : head ≠ '"' := fun hquote => hnot tail (by rw [htail, hquote])
      simp [htail, hhead]
  | number =>
    simp only [hlead] at h ⊢
    obtain ⟨htake, hdrop⟩ := takeWhile_append_space (by decide : isAsciiDigit ' ' = false) cs more
    rw [htake, hdrop, scanFraction_space]
    split at h
    · rename_i fraction rest' hfraction
      simp only [Prod.mk.injEq] at h
      obtain ⟨rfl, rfl, rfl⟩ := h
      rw [hfraction]
      rfl
    · rename_i hnone
      simp only [Prod.mk.injEq] at h
      obtain ⟨rfl, rfl, rfl⟩ := h
      rw [hnone]
      rfl
  | identifier =>
    simp only [hlead, Prod.mk.injEq] at h ⊢
    obtain ⟨rfl, rfl, rfl⟩ := h
    obtain ⟨htake, hdrop⟩ :=
      takeWhile_append_space (by decide : isWordCharacter ' ' = false) cs more
    rw [htake, hdrop]
    exact ⟨rfl, rfl, rfl⟩

/-! ## Gaps -/

theorem Pieces.split {text end' t : Text} {piece : Piece} {before after : List (Piece × Text)}
    (h : Pieces text (before ++ (piece, t) :: after) end') :
    ∃ c taken rest, t = c :: taken ∧ text = textOf before ++ t ++ rest ∧
      scan c (taken ++ rest) = (piece, taken, rest) ∧ Pieces rest after end' := by
  induction before generalizing text with
  | nil =>
    cases h with
    | @cons c cs taken rest _ _ _ hscan hrest =>
      have hcs := scan_append hscan
      exact ⟨c, taken, rest, rfl, by rw [← hcs]; rfl, by rwa [hcs], hrest⟩
  | cons e before ih =>
    cases h with
    | @cons c cs taken rest _ _ _ hscan hrest =>
      obtain ⟨c', taken', rest', ht, hrest', hscan', hafter⟩ := ih hrest
      refine ⟨c', taken', rest', ht, ?_, hscan', hafter⟩
      rw [← scan_append hscan, hrest', textOf_cons]
      simp

theorem Pieces.ne_nil {text end' : Text} {pieces : List (Piece × Text)}
    (h : Pieces text pieces end') {e : Piece × Text} (he : e ∈ pieces) : e.2 ≠ [] := by
  obtain ⟨piece, t⟩ := e
  obtain ⟨before, after, rfl⟩ := List.append_of_mem he
  obtain ⟨c, taken, rest, rfl, -⟩ := h.split
  exact List.cons_ne_nil c taken

/-- A token is a piece at its place. -/
theorem exists_of_mem_tokensOf {start : ℕ} {pieces : List (Piece × Text)} {token : Token}
    (h : token ∈ tokensOf start pieces) : ∃ before kind text after,
      pieces = before ++ (.token kind, text) :: after ∧
        token = ⟨kind, ⟨default, start + (textOf before).utf8Len,
          start + (textOf before).utf8Len + text.utf8Len⟩⟩ := by
  induction pieces generalizing start with
  | nil => simp [tokensOf] at h
  | cons e pieces ih =>
    obtain ⟨piece, text⟩ := e
    rw [tokensOf, List.mem_append] at h
    rcases h with h | h
    · cases piece with
      | token kind =>
        exact ⟨[], kind, text, pieces, rfl, List.mem_singleton.mp h⟩
      | space => cases h
      | comment => cases h
      | error message => cases h
    · obtain ⟨before, kind, text', after, rfl, rfl⟩ := ih h
      exact ⟨(piece, text) :: before, kind, text', after, rfl, by
        rw [textOf_cons, utf8Len_append, ← Nat.add_assoc]⟩

theorem bounds_of_mem_tokensOf {start : ℕ} {pieces : List (Piece × Text)}
    (hpieces : ∀ e ∈ pieces, e.2 ≠ []) {token : Token} (h : token ∈ tokensOf start pieces) :
    start ≤ token.span.start ∧ token.span.start < token.span.stop ∧
      token.span.stop ≤ start + (textOf pieces).utf8Len ∧ token.span.source = default := by
  obtain ⟨before, kind, text, after, rfl, rfl⟩ := exists_of_mem_tokensOf h
  have hpos : 0 < text.utf8Len := utf8Len_pos (hpieces (.token kind, text) (by simp))
  rw [textOf_append, textOf_cons, utf8Len_append, utf8Len_append]
  refine ⟨?_, ?_, ?_, rfl⟩ <;> dsimp only <;> omega

theorem pairwise_tokensOf {start : ℕ} {pieces : List (Piece × Text)}
    (hpieces : ∀ e ∈ pieces, e.2 ≠ []) :
    (tokensOf start pieces).Pairwise fun a b => a.span.stop ≤ b.span.start := by
  induction pieces generalizing start with
  | nil => exact .nil
  | cons e pieces ih =>
    obtain ⟨piece, text⟩ := e
    have hrest : ∀ e ∈ pieces, e.2 ≠ [] := fun e he => hpieces e (List.mem_cons_of_mem _ he)
    rw [tokensOf, List.pairwise_append]
    refine ⟨?_, ih hrest, fun a ha b hb => ?_⟩
    · cases piece <;> simp [Piece.tokens]
    · have hb := (bounds_of_mem_tokensOf hrest hb).1
      cases piece with
      | token kind =>
        rw [List.mem_singleton.mp ha]
        exact hb
      | space => cases ha
      | comment => cases ha
      | error message => cases ha

def Token.shift (token : Token) (start : ℕ) : Token :=
  ⟨token.kind, ⟨token.span.source, start + token.span.start, start + token.span.stop⟩⟩

/-- The tokens of lexemes at their places in the joined text. -/
def placed : ℕ → List (Text × Token) → List Token
  | _, [] => []
  | start, (text, token) :: lexemes =>
    token.shift start :: placed (start + text.utf8Len + 1) lexemes

theorem Pieces.append {text middle end' : Text} {a b : List (Piece × Text)}
    (ha : Pieces text a middle) (hb : Pieces middle b end') : Pieces text (a ++ b) end' := by
  induction ha with
  | done rest => exact hb
  | cons hscan _ ih => exact .cons hscan (ih hb)

/-- Pieces whose last one is neither a comment nor an error are the same before a space. -/
theorem Pieces.space {text : Text} {pieces : List (Piece × Text)} (h : Pieces text pieces [])
    (hlast : ∀ e ∈ pieces.getLast?, e.1 ≠ .comment ∧ ∀ message, e.1 ≠ .error message)
    (more : Text) : Pieces (text ++ ' ' :: more) pieces (' ' :: more) := by
  generalize hend : ([] : Text) = rest at h
  induction h with
  | done rest =>
    subst hend
    exact .done _
  | @cons c cs taken rest _ piece pieces hscan hrest ih =>
    subst hend
    cases hrest with
    | done => exact .cons (scan_space hscan more fun _ => hlast _ rfl) (.done _)
    | @cons c' cs' taken' rest' _ piece' pieces' hscan' hrest' =>
      exact .cons (scan_space hscan more nofun) (ih (fun e he => hlast e he) rfl)

end Speck
