import Speck.CursorPrograms

/-!
# Import headers

`import_headers` skips tokens by counting braces, where the parser knows the grammar. On a file that
the parser accepts it finds exactly the imports that the parser consumes
(`importHeaders_of_parseFile`) : a declaration that is no import is neutral, so the counter is at zero
again after it, and has passed no `import`.
-/

namespace Speck

open Speck.Parser (maxNesting)

namespace Cursor

variable {α β : Type}

/-! ## Runs at one place -/

/-- Two cursors at one place of one vector, the second of a run that is not strict. -/
structure SamePlace (c d : Cursor) : Prop where
  tokens : d.tokens = c.tokens
  cursor : d.cursor = c.cursor
  strict : d.strict = false

/-- The run reads the tokens only. -/
def Placed (run : CursorM α) : Prop :=
  ∀ c d a c', SamePlace c d → run c = .ok (a, c') →
    ∃ d', run d = .ok (a, d') ∧ SamePlace c' d'

theorem Placed.pure (a : α) : Placed (pure a : CursorM α) := by
  intro c d b c' h hrun
  obtain ⟨rfl, rfl⟩ := Prod.mk.inj (Except.ok.inj hrun)
  exact ⟨d, rfl, h⟩

theorem Placed.bind {run : CursorM α} {k : α → CursorM β} (h : Placed run)
    (hk : ∀ a, Placed (k a)) : Placed (run >>= k) := by
  intro c d b c' hplace hrun
  have hbind : (run >>= k) c = (run c).bind fun result => k result.1 result.2 := rfl
  rw [hbind] at hrun
  cases hc : run c with
  | error stop =>
    rw [hc] at hrun
    cases hrun
  | ok result =>
    obtain ⟨a, c₁⟩ := result
    rw [hc] at hrun
    obtain ⟨d₁, hd, hplace₁⟩ := h c d a c₁ hplace hc
    obtain ⟨d', hd', hplace'⟩ := hk a c₁ d₁ b c' hplace₁ hrun
    exact ⟨d', by rw [run_bind_ok hd, hd'], hplace'⟩

theorem Placed.fail (message : String) (span : Span) :
    Placed (Cursor.fail message span : CursorM α) := by
  intro c d a c' _ hrun
  cases hrun

theorem Placed.current : Placed Cursor.current := by
  intro c d token c' h hrun
  rw [Cursor.current] at hrun
  split at hrun
  · next t ht =>
    obtain ⟨rfl, rfl⟩ := Prod.mk.inj (Except.ok.inj hrun)
    refine ⟨d, ?_, h⟩
    rw [Cursor.current, h.tokens, h.cursor, ht]
  · cases hrun

theorem Placed.advance : Placed Cursor.advance := by
  intro c d token c' h hrun
  rw [Cursor.advance] at hrun
  split at hrun
  · next t ht =>
    obtain ⟨rfl, rfl⟩ := Prod.mk.inj (Except.ok.inj hrun)
    refine ⟨if t.kind = .eof then d else { d with cursor := d.cursor + 1 }, ?_, ?_⟩
    · rw [Cursor.advance, h.tokens, h.cursor, ht]
    · split
      · exact h
      · exact ⟨h.tokens, by dsimp only; rw [h.cursor], h.strict⟩
  · cases hrun

theorem Placed.isAt (kind : TokenKind) : Placed (Cursor.isAt kind) :=
  .bind .current fun _ => .pure _

theorem Placed.ite {p : Prop} [Decidable p] {x y : CursorM α} (hx : Placed x) (hy : Placed y) :
    Placed (if p then x else y) := by
  split
  · exact hx
  · exact hy

theorem Placed.take (kind : TokenKind) : Placed (Cursor.take kind) :=
  .bind (.isAt kind) fun _ => .ite (.bind .advance fun _ => .pure _) (.pure _)

theorem Placed.expect (kind : TokenKind) (message : String) : Placed (Cursor.expect kind message) :=
  .bind (.isAt kind) fun _ => .ite .advance (.bind .current fun _ => .fail _ _)

theorem Placed.identifier (message : String) : Placed (Cursor.identifier message) := by
  refine .bind .advance fun token => ?_
  split
  · exact .pure _
  · exact .fail _ _

theorem Placed.merge (a b : Span) : Placed (Cursor.merge a b) := by
  intro c d span c' h hrun
  rw [Cursor.merge] at hrun
  split at hrun
  · cases hrun
  · next hsource =>
    split at hrun
    · cases hrun
    · obtain ⟨rfl, rfl⟩ := Prod.mk.inj (Except.ok.inj hrun)
      refine ⟨d, ?_, h⟩
      rw [Cursor.merge, if_neg hsource, if_neg (by simp [h.strict])]

theorem Placed.parseImport : Placed Cursor.parseImport := by
  refine .bind (.expect _ _) fun start => .bind .advance fun token => ?_
  split
  · refine .bind (.expect _ _) fun _ => .bind (.identifier _) fun result => ?_
    exact .bind (.take _) fun _ => .bind (.merge _ _) fun _ => .pure _
  · exact .fail _ _

/-! ## Skipping -/

theorem current_of_drop {d : Cursor} {token : Token} {rest : List Token}
    (h : d.tokens.drop d.cursor = token :: rest) : Cursor.current d = .ok (token, d) := by
  have hget : d.tokens[d.cursor]? = some token := by
    rw [← List.head?_drop, h]
    rfl
  rw [Cursor.current, hget]

/-- The header scan after a token that is neither the end of the file nor an `import`. -/
theorem scanHeaders_skip {d : Cursor} {token : Token} {rest : List Token}
    (h : d.tokens.drop d.cursor = token :: rest) (headers : Headers) {count : ℕ}
    (hbrace : brace headers.depth token.kind = some count) (hopen : headers.saturated = false)
    (fuel : ℕ) : scanHeaders (fuel + 1) headers d =
      scanHeaders fuel { headers with depth := count } { d with cursor := d.cursor + 1 } := by
  have hcurrent := current_of_drop h
  have heof : token.kind ≠ .eof := by
    intro heq
    rw [heq] at hbrace
    cases hbrace
  have himport : token.kind ≠ .import := by
    intro heq
    rw [heq] at hbrace
    cases hbrace
  have hat : ∀ kind, Cursor.isAt kind d = .ok (token.kind == kind, d) := by
    intro kind
    rw [Cursor.isAt, run_bind_ok hcurrent]
    rfl
  have hadvance : Cursor.advance d = .ok (token, { d with cursor := d.cursor + 1 }) := by
    rw [Cursor.advance, lookup_of_current hcurrent]
    simp only [if_neg heof]
  have hskip : headers.skip token.kind = { headers with depth := count } := by
    obtain ⟨imports, depth, saturated⟩ := headers
    obtain rfl : saturated = false := hopen
    generalize token.kind = kind at hbrace
    unfold brace at hbrace
    split at hbrace
    · obtain rfl := Option.some.inj hbrace
      rfl
    · split at hbrace
      · cases hbrace
      · next hdepth =>
        obtain rfl := Option.some.inj hbrace
        have hzero : (depth == 0) = false := beq_false_of_ne hdepth
        simp only [Headers.skip, hzero, Bool.or_false]
    · cases hbrace
    · cases hbrace
    · next hleft hright _ _ =>
      obtain rfl := Option.some.inj hbrace
      unfold Headers.skip
      split
      · exact absurd rfl hleft
      · exact absurd rfl hright
      · rfl
  rw [scanHeaders, run_bind_ok (hat .eof), beq_false_of_ne heof, if_neg Bool.false_ne_true,
    run_bind_ok (hat .import), beq_false_of_ne himport, Bool.and_false,
    if_neg Bool.false_ne_true, run_bind_ok hadvance, hskip]

/-- The header scan passes over tokens among which the counter stays defined. -/
theorem scanHeaders_braces {read rest : List Token} {d : Cursor}
    (h : d.tokens.drop d.cursor = read ++ rest) {imports : List Import} {count count' : ℕ}
    (hbraces : braces count read = some count') (fuel : ℕ) :
    scanHeaders (read.length + fuel) ⟨imports, count, false⟩ d =
      scanHeaders fuel ⟨imports, count', false⟩ { d with cursor := d.cursor + read.length } := by
  induction read generalizing d count with
  | nil =>
    obtain rfl := Option.some.inj hbraces
    rw [List.length_nil, Nat.zero_add]
    rfl
  | cons token read ih =>
    rw [braces, List.foldlM_cons] at hbraces
    obtain ⟨next, hbrace, hread⟩ := Option.bind_eq_some_iff.mp hbraces
    have hlength : (token :: read).length + fuel = read.length + fuel + 1 := by
      rw [List.length_cons]
      omega
    have hdrop : d.tokens.drop (d.cursor + 1) = read ++ rest := by
      rw [← List.drop_drop, h]
      rfl
    rw [hlength, scanHeaders_skip h ⟨imports, count, false⟩ hbrace rfl]
    have hrest := ih (d := { d with cursor := d.cursor + 1 }) hdrop hread
    rw [hrest, List.length_cons]
    dsimp only
    rw [Nat.add_right_comm, Nat.add_assoc]

theorem isAt_of_current {d : Cursor} {token : Token} (h : Cursor.current d = .ok (token, d))
    (kind : TokenKind) : Cursor.isAt kind d = .ok (token.kind == kind, d) := by
  rw [Cursor.isAt, run_bind_ok h]
  rfl

/-! ## Agreement -/

/-- Where the parser is at an `import`, both read it. -/
theorem declaration_import {root : Bool} {parsed next : Parsed} {c c' : Cursor} {token : Token}
    (hcurrent : Cursor.current c = .ok (token, c)) (hkind : token.kind = .import)
    (h : declaration root parsed c = .ok (next, c')) :
    ∃ header, parseImport c = .ok (header, c') ∧ next = (parsed.1, parsed.2 ++ [header]) := by
  have hat : atResolution c = .ok (false, c) := by
    rw [atResolution, run_bind_ok hcurrent, hkind]
    rfl
  have hroot : (!root && Parser.isRootOnly token.kind) = false := by
    rw [hkind]
    exact Bool.and_false _
  rw [declaration, run_bind_ok hat, if_neg Bool.false_ne_true, run_bind_ok hcurrent, hroot,
    if_neg Bool.false_ne_true, hkind] at h
  have hbind : (parseImport >>= fun header => pure (parsed.1, parsed.2 ++ [header]) :
      CursorM Parsed) c = (parseImport c).bind fun result =>
        .ok ((parsed.1, parsed.2 ++ [result.1]), result.2) := rfl
  have h : (parseImport c).bind (fun result =>
      .ok ((parsed.1, parsed.2 ++ [result.1]), result.2)) = .ok (next, c') := hbind ▸ h
  cases hc : parseImport c with
  | error stop =>
    rw [hc] at h
    cases h
  | ok result =>
    rw [hc] at h
    obtain ⟨rfl, rfl⟩ := Prod.mk.inj (Except.ok.inj h)
    exact ⟨result.1, rfl, rfl⟩

/-- The scan keeps up with the loop of `run` : its counter is at zero before every declaration. -/
theorem scanHeaders_declarations {tokens done : List Token} {scopes total : ℕ} (root : Bool)
    (fuel : ℕ) {parsed result : Parsed} {c c' d : Cursor} {p : Parser}
    (hrel : Related tokens maxNesting scopes total done c p)
    (hrun : declarations root fuel parsed c = .ok (result, c')) (hplace : SamePlace c d) {n : ℕ}
    (hn : p.tokens.length ≤ n) :
    ∃ d', scanHeaders n ⟨parsed.2, 0, false⟩ d = .ok (⟨result.2, 0, false⟩, d') := by
  induction fuel generalizing parsed c d p done n with
  | zero => cases hrun
  | succ fuel ih =>
    obtain ⟨token, rest, htokens, hcurrent, hget, -⟩ := hrel.exists_token
    obtain ⟨d₀, hdget, hplace₀⟩ := Placed.current c d token c hplace hget
    have hdcurrent : Cursor.current d = .ok (token, d) := by
      rw [hdget]
      rw [Cursor.current] at hdget
      split at hdget
      · obtain ⟨-, rfl⟩ := Prod.mk.inj (Except.ok.inj hdget)
        rfl
      · cases hdget
    obtain ⟨n, rfl⟩ : ∃ m, n = m + 1 := ⟨n - 1, by
      rw [htokens, List.length_cons] at hn
      omega⟩
    rw [declarations, run_bind_ok (isAt_of_current hget .eof)] at hrun
    by_cases heof : token.kind = .eof
    · rw [beq_iff_eq.mpr heof, if_pos rfl] at hrun
      obtain ⟨rfl, rfl⟩ := Prod.mk.inj (Except.ok.inj hrun)
      refine ⟨d, ?_⟩
      rw [scanHeaders, run_bind_ok (isAt_of_current hdcurrent .eof), beq_iff_eq.mpr heof, if_pos rfl]
      rfl
    · rw [beq_false_of_ne heof, if_neg Bool.false_ne_true] at hrun
      have hends := declaration_ends root parsed hrel
      cases hdecl : declaration root parsed c with
      | error stop =>
        have hbind : (declaration root parsed >>= declarations root fuel) c = .error stop := by
          change (declaration root parsed c).bind _ = _
          rw [hdecl]
          rfl
        rw [hbind] at hrun
        cases hrun
      | ok next =>
        obtain ⟨next, c₁⟩ := next
        rw [run_bind_ok hdecl] at hrun
        rw [hdecl] at hends
        generalize Parser.declaration root parsed.1 p = y at hends
        cases hends with
        | ok read related post =>
          rename_i program p₁
          obtain ⟨read', hread, hne, hneutral⟩ := post.read
          obtain rfl := List.append_cancel_left hread
          have hpos : 0 < read.length := List.length_pos_iff.mpr hne
          have htotal := hrel.total
          have htotal₁ := related.total
          rw [List.length_append] at htotal htotal₁
          rw [List.length_append] at htotal₁
          rw [hcurrent] at hneutral
          by_cases himport : token.kind = .import
          · obtain ⟨header, hheader, rfl⟩ := declaration_import hget himport hdecl
            obtain ⟨d₁, hd₁, hplace₁⟩ := Placed.parseImport c d header c₁ hplace hheader
            obtain ⟨d', hd'⟩ := ih related hrun hplace₁ (n := n) (by omega)
            have hat : (decide ((⟨parsed.2, 0, false⟩ : Headers).depth = 0) && true) = true := rfl
            refine ⟨d', ?_⟩
            rw [scanHeaders, run_bind_ok (isAt_of_current hdcurrent .eof), beq_false_of_ne heof,
              if_neg Bool.false_ne_true, run_bind_ok (isAt_of_current hdcurrent .import),
              beq_iff_eq.mpr himport, if_pos hat, run_bind_ok hd₁]
            exact hd'
          · obtain ⟨himports, hneutral⟩ := hneutral himport
            have hdrop : d.tokens.drop d.cursor = read ++ p₁.tokens := by
              rw [hplace.tokens, hplace.cursor, hrel.vector, ← hrel.rest]
              exact hrel.tokens_eq related
            have hcursor : c₁.cursor = c.cursor + read.length := by
              have hlength := congrArg List.length related.rest
              have hlength₀ := congrArg List.length hrel.rest
              rw [List.length_drop] at hlength hlength₀
              have hinside := hrel.inside
              have hinside₁ := related.inside
              omega
            have hplace₁ : SamePlace c₁ { d with cursor := d.cursor + read.length } :=
              ⟨by rw [related.vector, ← hrel.vector]; exact hplace.tokens,
                by dsimp only; rw [hplace.cursor, hcursor], hplace.strict⟩
            obtain ⟨d', hd'⟩ := ih related hrun hplace₁ (n := n + 1 - read.length) (by omega)
            have hfuel : n + 1 = read.length + (n + 1 - read.length) := by omega
            refine ⟨d', ?_⟩
            rw [hfuel, scanHeaders_braces hdrop (hneutral 0), ← himports]
            exact hd'

/-- Before the loop of `run`, a root file has its header, which is neutral. -/
theorem run_eq_declarations {tokens : List Token} {total : ℕ} {root : Bool} {result : Parsed}
    {c c' : Cursor} {p : Parser} (hrel : Related tokens maxNesting 0 total [] c p)
    (hrun : run root c = .ok (result, c')) :
    ∃ read c₁ p₁ program fuel, Related tokens maxNesting 0 total ([] ++ read) c₁ p₁ ∧
      Neutral read ∧ declarations root fuel (program, []) c₁ = .ok (result, c') := by
  cases root with
  | true =>
    have hheader := sim_header c p hrel
    have hbind : run true c = (header c).bind fun result =>
        declarations true (result.2.tokens.length - result.2.cursor + 1)
          (⟨result.1.2.2, result.1.1, result.1.2.1, [], [], [], [], []⟩, []) result.2 := rfl
    rw [hbind] at hrun
    cases hc : header c with
    | error stop =>
      rw [hc] at hrun
      cases hrun
    | ok next =>
      obtain ⟨next, c₁⟩ := next
      rw [hc] at hrun hheader
      generalize Parser.header p = y at hheader
      cases hheader with
      | ok read related post => exact ⟨read, c₁, _, _, _, related, post.2.1, hrun⟩
  | false =>
    obtain ⟨token, rest, htokens, hcurrent, hget, -⟩ := hrel.exists_token
    unfold run at hrun
    dsimp only at hrun
    rw [if_neg Bool.false_ne_true, run_bind_ok hget] at hrun
    exact ⟨[], c, p, _, _, hrel, .nil, hrun⟩

end Cursor

/-- What a header scan ends with : imports that are somewhere in the file, or an error there. -/
def HeadersCovered {α : Type} (tokens : List Token) (importsOf : α → List Import) :
    Except Stop α → Prop
  | .ok result => ∀ header ∈ importsOf result, Covers tokens header.span
  | .error (.diagnostic d) => Covers tokens d.span
  | .error (.fault fault) => fault.Blames tokens

theorem Cursor.scanHeaders_covered {tokens : List Token} {scopes total : ℕ} (fuel : ℕ) :
    ∀ {done c p} {headers : Headers}, Related tokens maxNesting scopes total done c p →
      p.tokens.length < fuel → (∀ header ∈ headers.imports, Covers tokens header.span) →
      HeadersCovered tokens (fun result => result.1.imports) (scanHeaders fuel headers c) := by
  induction fuel with
  | zero => exact fun _ hfuel _ => absurd hfuel (Nat.not_lt_zero _)
  | succ fuel ih =>
    intro done c p headers hrel hfuel hheaders
    rw [scanHeaders]
    rcases isAt_cases .eof hrel with ⟨-, hat, -⟩ | ⟨heof, hat, -⟩
    · rw [run_bind_ok hat, if_pos rfl]
      exact hheaders
    · rw [run_bind_ok hat, if_neg Bool.false_ne_true]
      obtain ⟨b, hb⟩ : ∃ b, Cursor.isAt .import c = .ok (b, c) := by
        rcases isAt_cases .import hrel with ⟨-, h, -⟩ | ⟨-, h, -⟩
        · exact ⟨true, h⟩
        · exact ⟨false, h⟩
      rw [run_bind_ok hb]
      split
      · have himport := (ends_after hrel fun total hrel' => sim_parseImport c p hrel').covers
        have hbind : (parseImport >>= fun header => scanHeaders fuel
            { headers with imports := headers.imports ++ [header] }) c =
            (parseImport c).bind fun result => scanHeaders fuel
              { headers with imports := headers.imports ++ [result.1] } result.2 := rfl
        rw [hbind]
        generalize parseImport c = x at himport ⊢
        generalize Parser.parseImport p = y at himport
        cases himport with
        | ok read hrel' post =>
          obtain ⟨⟨read', heq, rfl, hne, hspan⟩, hcovers⟩ := post
          have htokens := congrArg List.length (hrel.tokens_eq hrel')
          rw [List.length_append] at htokens
          have hpos : 0 < read.length := by
            rw [List.append_cancel_left heq]
            exact List.length_pos_iff.mpr hne
          refine ih hrel' (by omega) (List.forall_mem_append.mpr ⟨hheaders, ?_⟩)
          refine List.forall_mem_singleton.mpr (hcovers _ ?_)
          rw [heq]
          exact hspan.append_right done
        | diagnostic covers => exact covers
        | fault blames => exact blames
      · obtain ⟨hadvance, -, hrel'⟩ := hrel.advance heof
        rw [run_bind_ok hadvance]
        obtain ⟨token, rest, htokens, -⟩ := hrel.exists_token
        have himports : (headers.skip p.current.kind).imports = headers.imports := by
          unfold Headers.skip
          split <;> rfl
        refine ih hrel' ?_ (by rwa [himports])
        dsimp only
        rw [htokens] at hfuel ⊢
        exact Nat.lt_of_succ_lt_succ hfuel

/-- The spans of the imports of any file, and of the error that ends the scan. -/
theorem importHeaders_covered {tokens : List Token} (hends : EndsInEof tokens) {strict : Bool}
    (hstrict : strict → InOrder tokens) :
    HeadersCovered tokens Cursor.Headers.imports (Cursor.importHeaders strict tokens) := by
  have hrel := related_start hends hstrict (declaredStructNames tokens)
  have hscan := @Cursor.scanHeaders_covered tokens _ _ (tokens.length + 1) _ _ _ ⟨[], 0, false⟩ hrel
    (Nat.lt_succ_self _) (by simp)
  rw [Cursor.importHeaders]
  change HeadersCovered _ _ ((Cursor.scanHeaders _ _ _).map _)
  have hnew : { Cursor.new strict tokens with structNames := declaredStructNames tokens } =
      Cursor.new strict tokens := rfl
  rw [hnew] at hscan
  generalize Cursor.scanHeaders _ _ _ = x at hscan ⊢
  cases x with
  | ok result => exact hscan
  | error stop => cases stop <;> exact hscan

/-- `import_headers` returns the imports that the parser consumes on a file that it accepts, with
their paths and aliases and in their order; its counter ends at zero, and no closing brace came there
before. -/
theorem importHeaders_of_parseFile {tokens : List Token} (hends : EndsInEof tokens) {root : Bool}
    {importedStructs : List String} {parsed : Cursor.Parsed}
    (h : Cursor.parseFile false tokens root importedStructs = .ok parsed) :
    Cursor.importHeaders false tokens = .ok ⟨parsed.2, 0, false⟩ := by
  have hrel := @related_start tokens hends false (by simp)
    (declaredStructNames tokens ++ importedStructs)
  rw [Cursor.parseFile, StateT.run] at h
  cases hrun : Cursor.run root { Cursor.new false tokens with
      structNames := declaredStructNames tokens ++ importedStructs } with
  | error stop =>
    rw [hrun] at h
    cases h
  | ok result =>
    obtain ⟨result, c'⟩ := result
    rw [hrun] at h
    obtain rfl := Except.ok.inj h
    obtain ⟨read, c₁, p₁, program, fuel, hrel₁, hneutral, hdecls⟩ :=
      Cursor.run_eq_declarations hrel hrun
    have htokens : tokens = read ++ p₁.tokens := hrel.tokens_eq hrel₁
    have hcursor : c₁.cursor = read.length := by
      have hrest := congrArg List.length hrel₁.rest
      have hinside := hrel₁.inside
      rw [List.length_drop] at hrest
      have hlength := congrArg List.length htokens
      rw [List.length_append] at hlength
      omega
    have hplace : Cursor.SamePlace c₁ { Cursor.new false tokens with cursor := read.length } :=
      ⟨hrel₁.vector.symm, hcursor.symm, rfl⟩
    have hlength : tokens.length + 1 = read.length + (p₁.tokens.length + 1) := by
      have hlength := congrArg List.length htokens
      rw [List.length_append] at hlength
      omega
    obtain ⟨d', hd'⟩ := Cursor.scanHeaders_declarations root fuel hrel₁ hdecls hplace
      (n := p₁.tokens.length + 1) (Nat.le_succ _)
    have hskip := @Cursor.scanHeaders_braces read p₁.tokens (Cursor.new false tokens) htokens [] 0 0 (hneutral 0)
      (p₁.tokens.length + 1)
    rw [Cursor.importHeaders, StateT.run, hlength, hskip]
    have hzero : (Cursor.new false tokens).cursor + read.length = read.length := Nat.zero_add _
    rw [hzero]
    change (Cursor.scanHeaders _ _ _).map _ = _
    rw [hd']
    rfl

/-- `game "t" import "a" as b struct S { x : i32 } import "c" as d const y : i32 = 1 start { }`, with
an import between the declarations. -/
def importTokens : List Token :=
  [.game, .string "t", .import, .string "a", .as, .identifier "b", .struct, .identifier "S",
    .leftBrace, .identifier "x", .colon, .i32, .rightBrace, .import, .string "c", .as,
    .identifier "d", .const, .identifier "y", .colon, .i32, .equal, .integer 1, .start, .leftBrace,
    .rightBrace, .eof].map (⟨·, default⟩)

theorem importHeaders_of_parseFile_two : ∃ parsed,
    Cursor.parseFile false importTokens true [] = .ok parsed ∧
      parsed.2.map (·.path) = ["a", "c"] ∧
      Cursor.importHeaders false importTokens = .ok ⟨parsed.2, 0, false⟩ := by
  have haccepted : (match Cursor.parseFile false importTokens true [] with
      | .ok parsed => parsed.2.map (·.path)
      | .error _ => []) = ["a", "c"] := by
    decide +kernel
  cases h : Cursor.parseFile false importTokens true [] with
  | error stop =>
    rw [h] at haccepted
    cases haccepted
  | ok parsed =>
    rw [h] at haccepted
    exact ⟨parsed, rfl, haccepted,
      importHeaders_of_parseFile ⟨⟨.eof, default⟩, rfl, rfl⟩ h⟩

end Speck
