import Speck.CheckedProgram
import Speck.ValidSpans

/-!
# Declared names

The parser takes the names of the declarations from identifiers of the file, and the lexer makes
identifiers of word characters. So no declared name is a path, and no type of a parsed program has
a length that is not written (`parseFile_plain`).
-/

namespace Speck

open Speck.Parser (maxNesting)

/-- A name that stands among the tokens. -/
def Names (tokens : List Token) (name : String) : Prop :=
  ∃ token ∈ tokens, token.kind = .identifier name

theorem Names.mono {tokens tokens' : List Token} {name : String} (h : Names tokens name)
    (hsub : tokens <:+ tokens') : Names tokens' name := by
  obtain ⟨token, hmem, hkind⟩ := h
  exact ⟨token, hsub.subset hmem, hkind⟩

/-! ## Parser steps -/

section Steps

variable {α β : Type} {p p' : Parser}

theorem parse_bind_eq_ok {m : ParseM α} {k : α → ParseM β} {b : β}
    (h : (m >>= k) p = .ok (b, p')) : ∃ a q, m p = .ok (a, q) ∧ k a q = .ok (b, p') := by
  have hbind : (m >>= k) p = (m p).bind fun result => k result.1 result.2 := rfl
  rw [hbind] at h
  cases hm : m p with
  | error d =>
    rw [hm] at h
    cases h
  | ok result =>
    rw [hm] at h
    exact ⟨result.1, result.2, rfl, h⟩

theorem advance_suffix {token : Token} (h : Parser.advance p = .ok (token, p')) :
    p'.tokens <:+ p.tokens := by
  obtain ⟨-, rfl⟩ := Prod.mk.inj (Except.ok.inj h)
  split
  · exact List.suffix_refl _
  · exact List.tail_suffix _

theorem expect_suffix {kind : TokenKind} {message : String} {token : Token}
    (h : Parser.expect kind message p = .ok (token, p')) : p'.tokens <:+ p.tokens := by
  obtain ⟨here, q, hat, h⟩ := parse_bind_eq_ok h
  obtain ⟨-, rfl⟩ := Prod.mk.inj (Except.ok.inj hat)
  cases here with
  | true => exact advance_suffix h
  | false => cases h

theorem identifier_names {message name : String} {span : Span}
    (h : Parser.identifier message p = .ok ((name, span), p')) : Names p.tokens name := by
  obtain ⟨token, q, hadvance, h⟩ := parse_bind_eq_ok h
  obtain ⟨rfl, -⟩ := Prod.mk.inj (Except.ok.inj hadvance)
  cases hkind : p.current.kind with
  | identifier name' =>
    rw [hkind] at h
    obtain ⟨hname, -⟩ := Prod.mk.inj (Except.ok.inj h)
    obtain rfl := (Prod.mk.inj hname).1
    cases htokens : p.tokens with
    | nil => simp [Parser.current, htokens] at hkind
    | cons first rest =>
      rw [Parser.current, htokens] at hkind
      exact ⟨first, List.mem_cons_self, hkind⟩
  | _ =>
    rw [hkind] at h
    cases h

theorem typedInitializer_names {depth : ℕ} {nameMessage colonMessage equalMessage : String}
    {result : String × ValueType × Expr}
    (h : Parser.typedInitializer depth nameMessage colonMessage equalMessage p =
      .ok (result, p')) : Names p.tokens result.1 := by
  obtain ⟨⟨name, span⟩, _, hname, h⟩ := parse_bind_eq_ok h
  obtain ⟨_, _, -, h⟩ := parse_bind_eq_ok h
  obtain ⟨_, _, -, h⟩ := parse_bind_eq_ok h
  obtain ⟨_, _, -, h⟩ := parse_bind_eq_ok h
  obtain ⟨_, _, -, h⟩ := parse_bind_eq_ok h
  obtain ⟨rfl, -⟩ := Prod.mk.inj (Except.ok.inj h)
  exact identifier_names hname

/-! ## Declarations -/

theorem parseStruct_names {depth : ℕ} {decl : StructDecl}
    (h : Parser.parseStruct depth p = .ok (decl, p')) : Names p.tokens decl.name := by
  obtain ⟨_, _, hstart, h⟩ := parse_bind_eq_ok h
  obtain ⟨⟨name, span⟩, _, hname, h⟩ := parse_bind_eq_ok h
  obtain ⟨_, _, -, h⟩ := parse_bind_eq_ok h
  obtain ⟨_, _, -, h⟩ := parse_bind_eq_ok h
  obtain ⟨_, _, -, h⟩ := parse_bind_eq_ok h
  obtain ⟨_, _, -, h⟩ := parse_bind_eq_ok h
  obtain ⟨rfl, -⟩ := Prod.mk.inj (Except.ok.inj h)
  exact (identifier_names hname).mono (expect_suffix hstart)

theorem parseSound_names {sound : SoundAsset} (h : Parser.parseSound p = .ok (sound, p')) :
    Names p.tokens sound.name := by
  obtain ⟨_, _, hstart, h⟩ := parse_bind_eq_ok h
  obtain ⟨⟨name, span⟩, _, hname, h⟩ := parse_bind_eq_ok h
  obtain ⟨_, _, -, h⟩ := parse_bind_eq_ok h
  obtain ⟨token, _, -, h⟩ := parse_bind_eq_ok h
  cases hkind : token.kind with
  | string path =>
    rw [hkind] at h
    obtain ⟨_, _, -, h⟩ := parse_bind_eq_ok h
    obtain ⟨rfl, -⟩ := Prod.mk.inj (Except.ok.inj h)
    exact (identifier_names hname).mono (advance_suffix hstart)
  | _ =>
    rw [hkind] at h
    cases h

theorem parseConstant_names {depth : ℕ} {constant : Constant}
    (h : Parser.parseConstant depth p = .ok (constant, p')) : Names p.tokens constant.name := by
  obtain ⟨_, _, hstart, h⟩ := parse_bind_eq_ok h
  obtain ⟨⟨name, ty, init⟩, _, hname, h⟩ := parse_bind_eq_ok h
  obtain ⟨_, _, -, h⟩ := parse_bind_eq_ok h
  obtain ⟨rfl, -⟩ := Prod.mk.inj (Except.ok.inj h)
  exact (typedInitializer_names hname).mono (expect_suffix hstart)

theorem parseGlobal_names {depth : ℕ} {global : Global}
    (h : Parser.parseGlobal depth p = .ok (global, p')) : Names p.tokens global.name := by
  obtain ⟨_, _, hstart, h⟩ := parse_bind_eq_ok h
  obtain ⟨⟨name, ty, init⟩, _, hname, h⟩ := parse_bind_eq_ok h
  obtain ⟨_, _, -, h⟩ := parse_bind_eq_ok h
  obtain ⟨rfl, -⟩ := Prod.mk.inj (Except.ok.inj h)
  exact (typedInitializer_names hname).mono (expect_suffix hstart)

/-- With or without parameters, the rest of a function keeps its name. -/
theorem eq_of_namedFunction {depth : ℕ} {name : String} {start : Span} {m : ParseM (List Param)}
    {function : Function}
    (h : (m >>= fun params => do
        let _ ← Parser.expect .rightParen "expected `)` after parameters"
        let _ ← Parser.expect .arrow "expected `->` and a return type after parameters"
        let returnType ← Parser.parseReturnType depth
        let (body, stop) ← Parser.blockWithBindings (params.map (·.name)) (Parser.block depth)
        pure ⟨name, .named, params, returnType, body, start.merge stop⟩) p =
      .ok (function, p')) : function.name = name := by
  obtain ⟨_, _, -, h⟩ := parse_bind_eq_ok h
  obtain ⟨_, _, -, h⟩ := parse_bind_eq_ok h
  obtain ⟨_, _, -, h⟩ := parse_bind_eq_ok h
  obtain ⟨_, _, -, h⟩ := parse_bind_eq_ok h
  obtain ⟨_, _, -, h⟩ := parse_bind_eq_ok h
  obtain ⟨rfl, -⟩ := Prod.mk.inj (Except.ok.inj h)
  rfl

theorem parseNamedFunction_names {depth : ℕ} {function : Function}
    (h : Parser.parseNamedFunction depth p = .ok (function, p')) :
    Names p.tokens function.name := by
  obtain ⟨start, _, hstart, h⟩ := parse_bind_eq_ok h
  obtain ⟨⟨name, span⟩, _, hname, h⟩ := parse_bind_eq_ok h
  have hnamed := (identifier_names hname).mono (expect_suffix hstart)
  obtain ⟨_, _, -, h⟩ := parse_bind_eq_ok h
  obtain ⟨closed, _, -, h⟩ := parse_bind_eq_ok h
  cases closed with
  | true =>
    rw [eq_of_namedFunction h]
    exact hnamed
  | false =>
    obtain ⟨_, _, -, h⟩ := parse_bind_eq_ok h
    rw [eq_of_namedFunction h]
    exact hnamed

theorem parseStart_kind {depth : ℕ} {function : Function}
    (h : Parser.parseStart depth p = .ok (function, p')) : function.kind = .start := by
  obtain ⟨_, _, -, h⟩ := parse_bind_eq_ok h
  obtain ⟨_, _, -, h⟩ := parse_bind_eq_ok h
  obtain ⟨rfl, -⟩ := Prod.mk.inj (Except.ok.inj h)
  rfl

theorem parseDraw_kind {depth : ℕ} {function : Function}
    (h : Parser.parseDraw depth p = .ok (function, p')) : function.kind = .draw := by
  obtain ⟨_, _, -, h⟩ := parse_bind_eq_ok h
  obtain ⟨_, _, -, h⟩ := parse_bind_eq_ok h
  obtain ⟨rfl, -⟩ := Prod.mk.inj (Except.ok.inj h)
  rfl

theorem parseUpdate_kind {depth : ℕ} {function : Function}
    (h : Parser.parseUpdate depth p = .ok (function, p')) : function.kind = .update := by
  obtain ⟨_, _, -, h⟩ := parse_bind_eq_ok h
  obtain ⟨_, _, -, h⟩ := parse_bind_eq_ok h
  obtain ⟨_, _, -, h⟩ := parse_bind_eq_ok h
  obtain ⟨_, _, -, h⟩ := parse_bind_eq_ok h
  obtain ⟨_, _, -, h⟩ := parse_bind_eq_ok h
  obtain ⟨_, _, -, h⟩ := parse_bind_eq_ok h
  obtain ⟨_, _, -, h⟩ := parse_bind_eq_ok h
  obtain ⟨rfl, -⟩ := Prod.mk.inj (Except.ok.inj h)
  rfl

theorem mem_declared {program : Program} {name : String} :
    name ∈ program.declared.map (·.1) ↔
      (∃ decl ∈ program.structs, decl.name = name) ∨ (∃ sound ∈ program.sounds, sound.name = name) ∨
      (∃ constant ∈ program.constants, constant.name = name) ∨
      (∃ global ∈ program.globals, global.name = name) ∨
      ∃ function ∈ program.functions, function.kind = .named ∧ function.name = name := by
  simp [Program.declared, and_assoc]

/-- The names of a turn of the loop. -/
theorem declarationAt_names {program program' : Program} {kind : TokenKind}
    (h : Parser.declarationAt program kind p = .ok (program', p')) {name : String}
    (hname : name ∈ program'.declared.map (·.1)) :
    name ∈ program.declared.map (·.1) ∨ Names p.tokens name := by
  have hfunction : ∀ {m : ParseM Function},
      (m >>= fun function => pure
        { program with functions := program.functions ++ [function] }) p = .ok (program', p') →
      (∀ {function q}, m p = .ok (function, q) →
        function.kind = .named → Names p.tokens function.name) →
      name ∈ program.declared.map (·.1) ∨ Names p.tokens name := by
    intro m h hnames
    obtain ⟨function, q, hm, h⟩ := parse_bind_eq_ok h
    obtain ⟨rfl, -⟩ := Prod.mk.inj (Except.ok.inj h)
    rw [mem_declared] at hname ⊢
    rcases hname with hname | hname | hname | hname | ⟨f, hf, hkind, rfl⟩
    · exact .inl (.inl hname)
    · exact .inl (.inr (.inl hname))
    · exact .inl (.inr (.inr (.inl hname)))
    · exact .inl (.inr (.inr (.inr (.inl hname))))
    · rcases List.mem_append.mp hf with hf | hf
      · exact .inl (.inr (.inr (.inr (.inr ⟨f, hf, hkind, rfl⟩))))
      · obtain rfl := List.mem_singleton.mp hf
        exact .inr (hnames hm hkind)
  unfold Parser.declarationAt at h
  split at h
  · obtain ⟨_, _, -, h⟩ := parse_bind_eq_ok h
    obtain ⟨rfl, -⟩ := Prod.mk.inj (Except.ok.inj h)
    exact .inl hname
  · obtain ⟨decl, q, hdecl, h⟩ := parse_bind_eq_ok h
    obtain ⟨rfl, -⟩ := Prod.mk.inj (Except.ok.inj h)
    have hnamed := parseStruct_names hdecl
    simp only [mem_declared, List.mem_append, List.mem_singleton] at hname ⊢
    aesop
  · obtain ⟨sound, q, hsound, h⟩ := parse_bind_eq_ok h
    obtain ⟨rfl, -⟩ := Prod.mk.inj (Except.ok.inj h)
    have hnamed := parseSound_names hsound
    simp only [mem_declared, List.mem_append, List.mem_singleton] at hname ⊢
    aesop
  · obtain ⟨constant, q, hconstant, h⟩ := parse_bind_eq_ok h
    obtain ⟨rfl, -⟩ := Prod.mk.inj (Except.ok.inj h)
    have hnamed := parseConstant_names hconstant
    simp only [mem_declared, List.mem_append, List.mem_singleton] at hname ⊢
    aesop
  · obtain ⟨global, q, hglobal, h⟩ := parse_bind_eq_ok h
    obtain ⟨rfl, -⟩ := Prod.mk.inj (Except.ok.inj h)
    have hnamed := parseGlobal_names hglobal
    simp only [mem_declared, List.mem_append, List.mem_singleton] at hname ⊢
    aesop
  · exact hfunction h fun hm hkind => by rw [parseStart_kind hm] at hkind; cases hkind
  · exact hfunction h fun hm hkind => by rw [parseUpdate_kind hm] at hkind; cases hkind
  · exact hfunction h fun hm hkind => by rw [parseDraw_kind hm] at hkind; cases hkind
  · exact hfunction h fun hm _ => parseNamedFunction_names hm
  · cases h

end Steps

/-! ## Files -/

section Files

variable {tokens done : List Token} {scopes total : ℕ} {c : Cursor} {p p' : Parser}
  (hfile : OneFile tokens)

include hfile

/-- On the tokens of one file, where the parser goes on the cursor goes on with it. -/
theorem EndsAlike.exists_related {α β : Type} {depth : ℕ} {R : List Token → α → β → Prop}
    {x : Except Stop (α × Cursor)} {b : β}
    (h : EndsAlike tokens depth total done scopes R x (.ok (b, p))) :
    ∃ done' c', Related tokens depth scopes total done' c' p := by
  cases h with
  | ok read related post => exact ⟨_, _, related⟩
  | fault blames => exact absurd hfile blames.2

theorem declaration_names {root : Bool} {program program' : Program}
    (hrel : Related tokens maxNesting scopes total done c p)
    (h : Parser.declaration root program p = .ok (program', p')) :
    (∃ done' c', Related tokens maxNesting scopes total done' c' p') ∧
      ∀ name ∈ program'.declared.map (·.1),
        name ∈ program.declared.map (·.1) ∨ Names tokens name := by
  have hends := declaration_ends root (program, []) hrel
  rw [h] at hends
  refine ⟨hends.exists_related hfile, fun name hname => ?_⟩
  obtain ⟨p₁, _, hp, h⟩ := parse_bind_eq_ok h
  obtain ⟨rfl, rfl⟩ := Prod.mk.inj (Except.ok.inj hp)
  have hsuffix : p.tokens <:+ tokens := (List.suffix_append done p.tokens).trans hrel.read
  cases hresolution : p.atResolution with
  | true =>
    rw [hresolution] at h
    cases h
  | false =>
    rw [hresolution, if_neg Bool.false_ne_true] at h
    split at h
    · cases h
    · exact (declarationAt_names h hname).imp_right fun hnames => hnames.mono hsuffix

theorem declarations_names {root : Bool} {fuel : ℕ} {program program' : Program}
    (hrel : Related tokens maxNesting scopes total done c p)
    (h : Parser.declarations root fuel program p = .ok (program', p')) :
    ∀ name ∈ program'.declared.map (·.1),
      name ∈ program.declared.map (·.1) ∨ Names tokens name := by
  induction fuel generalizing done c p program with
  | zero =>
    obtain ⟨rfl, -⟩ := Prod.mk.inj (Except.ok.inj h)
    exact fun name hname => .inl hname
  | succ fuel ih =>
    obtain ⟨atEof, _, hat, h⟩ := parse_bind_eq_ok h
    obtain ⟨-, rfl⟩ := Prod.mk.inj (Except.ok.inj hat)
    cases atEof with
    | true =>
      obtain ⟨rfl, -⟩ := Prod.mk.inj (Except.ok.inj h)
      exact fun name hname => .inl hname
    | false =>
      obtain ⟨next, q, hnext, h⟩ := parse_bind_eq_ok h
      obtain ⟨⟨done', c', hrel'⟩, hnames⟩ := declaration_names hfile hrel hnext
      intro name hname
      rcases ih hrel' h name hname with hname | hname
      · exact hnames name hname
      · exact .inr hname

/-- The loop starts without declarations. -/
theorem remaining_names {root : Bool} {resolution : Resolution} {title : String} {span : Span}
    {program : Program} (hrel : Related tokens maxNesting scopes total done c p)
    (h : (Parser.remaining >>= fun left => Parser.declarations root (left + 1)
      ⟨resolution, title, span, [], [], [], [], []⟩) p = .ok (program, p')) :
    ∀ name ∈ program.declared.map (·.1), Names tokens name := by
  obtain ⟨left, _, hleft, h⟩ := parse_bind_eq_ok h
  obtain ⟨-, rfl⟩ := Prod.mk.inj (Except.ok.inj hleft)
  intro name hname
  refine (declarations_names hfile hrel h name hname).resolve_left ?_
  simp [Program.declared]

theorem run_names {root : Bool} {program : Program}
    (hrel : Related tokens maxNesting 0 tokens.length [] c p)
    (h : Parser.run root p = .ok (program, p')) :
    ∀ name ∈ program.declared.map (·.1), Names tokens name := by
  cases root with
  | true =>
    obtain ⟨⟨title, span, resolution⟩, q, hheader, h⟩ := parse_bind_eq_ok h
    have hends := sim_header c p hrel
    rw [hheader] at hends
    obtain ⟨done', c', hrel'⟩ := hends.exists_related hfile
    exact remaining_names hfile hrel' h
  | false => exact remaining_names hfile hrel h

/-- Every declared name stands among the tokens. -/
theorem parseFile_names (hends : EndsInEof tokens) {root : Bool} {importedStructs : List String}
    {program : Program} (h : parseFile tokens root importedStructs = .ok program) :
    ∀ name ∈ program.declared.map (·.1), Names tokens name := by
  have hstart := @related_start tokens hends false (by simp)
    (declaredStructNames tokens ++ importedStructs)
  rw [parseFile, StateT.run] at h
  cases hrun : Parser.run root ⟨tokens, declaredStructNames tokens ++ importedStructs, []⟩ with
  | error d =>
    rw [hrun] at h
    cases h
  | ok result =>
    rw [hrun] at h
    obtain rfl := Except.ok.inj h
    exact run_names hfile hstart hrun

/-- Every type of a parsed program is written. -/
theorem parseFile_written (hends : EndsInEof tokens) {root : Bool} {importedStructs : List String}
    {program : Program} (h : parseFile tokens root importedStructs = .ok program) :
    program.IsWritten := by
  have hparse := @Cursor.parseFile_ends tokens hends false (by simp) root importedStructs
  split at hparse
  · obtain ⟨heq, hgood, -⟩ := hparse
    obtain rfl := Except.ok.inj (h.symm.trans heq)
    exact hgood.written
  · rw [h] at hparse
    cases hparse.1
  · exact absurd hfile hparse.2

end Files

/-! ## Identifiers -/

theorem isWordCharacter_of_lead {c : Char} (h : lead c = .identifier) :
    isWordCharacter c = true := by
  unfold lead at h
  split at h
  all_goals first
    | cases h
    | skip
  split at h
  · cases h
  · split at h
    · next hletter =>
      simp only [isWordCharacter, isAsciiAlphanumeric, Bool.or_eq_true] at hletter ⊢
      tauto
    · cases h

/-- No symbol is an identifier. -/
theorem symbol_kinds {c : Char} {longer : List (Char × Option TokenKind)}
    {plain : Option TokenKind} (h : lead c = .symbol longer plain) (name : String) :
    (∀ e ∈ longer, e.2 ≠ some (.identifier name)) ∧ plain ≠ some (.identifier name) := by
  unfold lead at h
  split at h
  all_goals first
    | (obtain ⟨rfl, rfl⟩ := Lead.symbol.inj h; simp)
    | cases h
    | skip
  split at h
  · cases h
  · split at h <;> cases h

theorem wordKind_identifier {text : Text} {name : String} (h : wordKind text = .identifier name) :
    name.toList = text := by
  unfold wordKind at h
  split at h
  all_goals first
    | (cases h; simp)
    | cases h

/-- The lexer makes identifiers of word characters. -/
theorem scan_identifier {c : Char} {cs taken rest : Text} {name : String}
    (h : scan c cs = (.token (.identifier name), taken, rest)) :
    ∀ d ∈ name.toList, isWordCharacter d = true := by
  unfold scan at h
  cases hlead : lead c with
  | space | other =>
    simp only [hlead, Prod.mk.injEq] at h
    cases h.1
  | symbol longer plain =>
    obtain ⟨hlonger, hplain⟩ := symbol_kinds hlead name
    simp only [hlead] at h
    split at h
    · next kind hlookup =>
      obtain ⟨hkind, -⟩ := Prod.mk.inj h
      obtain ⟨d, -, hlookup⟩ := Option.bind_eq_some_iff.mp hlookup
      obtain ⟨before, after, rfl, -⟩ := List.lookup_eq_some_iff.mp hlookup
      exact absurd (congrArg some (Piece.token.inj hkind)) (hlonger (d, some kind) (by simp))
    · cases (Prod.mk.inj h).1
    · obtain ⟨hpiece, -⟩ := Prod.mk.inj h
      cases plain with
      | none => cases hpiece
      | some kind => exact absurd (congrArg some (Piece.token.inj hpiece)) hplain
  | string =>
    simp only [hlead] at h
    split at h <;> cases (Prod.mk.inj h).1
  | number =>
    simp only [hlead] at h
    split at h
    · cases (Prod.mk.inj h).1
    · obtain ⟨hpiece, -⟩ := Prod.mk.inj h
      unfold integerPiece at hpiece
      split at hpiece <;> cases hpiece
  | identifier =>
    simp only [hlead, Prod.mk.injEq] at h
    rw [wordKind_identifier (Piece.token.inj h.1)]
    refine List.forall_mem_cons.mpr ⟨isWordCharacter_of_lead hlead, fun d hd => ?_⟩
    exact List.mem_takeWhile_imp hd

/-- A name of word characters is no path. -/
theorem splitOnce_of_word {text : Text} (h : ∀ c ∈ text, isWordCharacter c = true) :
    splitOnce text = none := by
  induction text with
  | nil => rfl
  | cons c rest ih =>
    obtain ⟨hc, hrest⟩ := List.forall_mem_cons.mp h
    unfold splitOnce
    split
    · next heq =>
      obtain ⟨rfl, -⟩ := List.cons.inj heq
      exact absurd hc (by decide)
    · next heq =>
      obtain ⟨rfl, rfl⟩ := List.cons.inj heq
      rw [ih hrest]
      rfl
    · rfl

theorem names_plain {source : Text} {id : SourceId} {tokens : List Token}
    (h : lexTextIn source id = .ok tokens) {name : String} (hname : Names tokens name) :
    splitOnce name.toList = none := by
  obtain ⟨pieces, hpieces⟩ := exists_pieces source
  rw [lexTextIn, lexIn, lex_eq hpieces, Option.map_some, Option.getD_some] at h
  by_cases herrors : errorsOf 0 pieces = []
  · rw [if_pos herrors] at h
    obtain rfl := Except.ok.inj h
    obtain ⟨_, hmapped, hkind⟩ := hname
    obtain ⟨token, hmem, rfl⟩ := List.mem_map.mp hmapped
    rcases List.mem_append.mp hmem with hmem | hmem
    · obtain ⟨before, kind, text, after, rfl, rfl⟩ := exists_of_mem_tokensOf hmem
      obtain ⟨c, taken, rest, rfl, -, hscan, -⟩ := hpieces.split
      obtain rfl : kind = .identifier name := hkind
      exact splitOnce_of_word (scan_identifier hscan)
    · rw [List.mem_singleton.mp hmem] at hkind
      cases hkind
  · rw [if_neg herrors] at h
    cases h

/-- What the lexer and the parser promise of a file : its types are written, and no name that it
declares is a path. -/
theorem parseFile_plain {source : Text} {id : SourceId} {tokens : List Token}
    (hlex : lexTextIn source id = .ok tokens) {root : Bool} {importedStructs : List String}
    {program : Program} (h : parseFile tokens root importedStructs = .ok program) :
    program.IsWritten ∧ ∀ name ∈ program.declared.map (·.1), splitOnce name.toList = none := by
  have htokens := lexTextIn_spans source id
  rw [hlex] at htokens
  exact ⟨parseFile_written htokens.oneFile htokens.ends h, fun name hname =>
    names_plain hlex (parseFile_names htokens.oneFile htokens.ends h name hname)⟩

end Speck
