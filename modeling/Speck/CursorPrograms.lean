import Speck.CursorStatements

/-!
# Programs on the token vector

The declarations and the loop of `run`, up to whole files : `parse_file` ends with a program or a
diagnostic for every token vector of one file that ends in `Eof`, and the trees of a program are
bounded (`parseFile_total`).
-/

namespace Speck

open Speck.Parser (maxNesting isRootOnly)

/-! ## What the declarations leave -/

structure StructField.Good (covers : Span → Prop) (field : StructField) : Prop where
  ty : field.ty.Fits
  spans : ∀ span ∈ field.spans, covers span

structure StructDecl.Good (covers : Span → Prop) (decl : StructDecl) : Prop where
  types : ∀ ty ∈ decl.types, ty.Fits
  spans : ∀ span ∈ decl.spans, covers span

def SoundAsset.Good (covers : Span → Prop) (sound : SoundAsset) : Prop := covers sound.span

structure Constant.Good (covers : Span → Prop) (constant : Constant) : Prop where
  ty : constant.ty.Fits
  init : constant.init.Within maxNesting
  spans : ∀ span ∈ constant.spans, covers span

structure Global.Good (covers : Span → Prop) (global : Global) : Prop where
  ty : global.ty.Fits
  init : global.init.Within maxNesting
  spans : ∀ span ∈ global.spans, covers span

structure Param.Good (covers : Span → Prop) (param : Param) : Prop where
  ty : param.ty.Fits
  spans : ∀ span ∈ param.spans, covers span

structure Function.Good (covers : Span → Prop) (function : Function) : Prop where
  types : ∀ ty ∈ function.types, ty.Fits
  body : SyntaxNode.Within maxNesting (.block function.body)
  spans : ∀ span ∈ function.spans, covers span

/-- The trees of a program are no deeper than the limit. -/
structure Program.Bounded (program : Program) : Prop where
  types : ∀ ty ∈ program.types, ty.Within maxNesting
  constants : ∀ constant ∈ program.constants, constant.init.Within maxNesting
  globals : ∀ global ∈ program.globals, global.init.Within maxNesting
  functions : ∀ function ∈ program.functions, SyntaxNode.Within maxNesting (.block function.body)

structure Program.Good (covers : Span → Prop) (program : Program) : Prop where
  bounded : program.Bounded
  written : ∀ ty ∈ program.types, ty.isWritten
  spans : ∀ span ∈ program.spans, covers span

theorem StructField.Good.grows : Grows StructField.Good :=
  fun hcovers _ h => ⟨h.ty, fun span hspan => hcovers span (h.spans span hspan)⟩

theorem SoundAsset.Good.grows : Grows SoundAsset.Good := fun hcovers _ h => hcovers _ h

theorem Param.Good.grows : Grows Param.Good :=
  fun hcovers _ h => ⟨h.ty, fun span hspan => hcovers span (h.spans span hspan)⟩

theorem Program.Good.grows : Grows Program.Good :=
  fun hcovers _ h => ⟨h.bounded, h.written, fun span hspan => hcovers span (h.spans span hspan)⟩

section

variable {α β : Type} {tokens done : List Token} {scopes scopes' total : ℕ}
  {R : List Token → α → β → Prop}

/-! ## Declarations -/

theorem parseStruct_agree :
    Agree 0 maxNesting Cursor.parseStruct (Parser.parseStruct maxNesting) StructDecl.Good := by
  have hfield : Agree 0 maxNesting Cursor.structField (Parser.structField maxNesting)
      StructField.Good := by
    intro tokens scopes total _
    refine sim_identifier fun name token hname => ?_
    refine sim_expect (by decide) fun colon hcolon => ?_
    refine (parseValueType_agree (le_refl _)).bind (Nat.zero_le _) fun ty read _ hread hty => ?_
    have hneutral : Neutral ([] ++ [token] ++ [colon] ++ read) :=
      ((Neutral.token (by rw [hname]; rfl)).append_token (by rw [hcolon]; rfl)).append hread
    have hgood : StructField.Good (Covers ([] ++ [token] ++ [colon] ++ read))
        ⟨name, ty, token.span⟩ := by
      refine ⟨hty.fits, List.forall_mem_cons.mpr ⟨?_, fun s hs => ?_⟩⟩
      · exact ((Covers.token token).append_left [colon]).append_left read
      · exact (hty.spans s hs).append_right _
    refine sim_take (by decide) (fun comma hcomma => ?_) ?_
    · refine sim_pure ⟨rfl, by simp, hneutral.append_token (by rw [hcomma]; rfl), ?_⟩
      exact StructField.Good.grows (fun _ h => h.append_left [comma]) hgood
    · exact sim_pure ⟨rfl, by simp, hneutral, hgood⟩
  intro tokens scopes total _
  refine sim_expect (by decide) fun start hstart => ?_
  refine sim_identifier fun name token hname => ?_
  refine sim_expect (by decide) fun brace hbrace => ?_
  refine sim_untilClose StructField.Good.grows hfield (Nat.zero_le _) fun fields read hread hfields =>
    ?_
  refine sim_expect (by decide) fun stop hstop => ?_
  have hspan : Covers ([] ++ [start] ++ [token] ++ [brace] ++ read) start.span :=
    (((Covers.token start).append_left [token]).append_left [brace]).append_left read
  have hmerge : Merges ([] ++ [start] ++ [token] ++ [brace] ++ read ++ [stop]) start.span stop.span :=
    .append hspan (.token stop)
  refine sim_merge hmerge (sim_pure ⟨rfl, by simp, ?_, ?_, ?_⟩)
  · have hhead : Neutral ([] ++ [start] ++ [token]) :=
      (Neutral.token (by rw [hstart]; rfl)).append_token (by rw [hname]; rfl)
    have hbody := hhead.append (hread.enclosed hbrace hstop)
    simpa only [List.append_assoc] using hbody
  · intro ty hty
    obtain ⟨field, hfield, rfl⟩ := List.mem_map.mp hty
    exact (hfields field hfield).ty
  · refine List.forall_mem_cons.mpr ⟨hmerge.covers, fun s hs => ?_⟩
    obtain ⟨field, hfield, hs⟩ := List.mem_flatMap.mp hs
    exact (((hfields field hfield).spans s hs).append_right _).append_left [stop]

theorem parseConstant_agree :
    Agree 0 maxNesting Cursor.parseConstant (Parser.parseConstant maxNesting) Constant.Good := by
  intro tokens scopes total _
  refine sim_expect (by decide) fun start hstart => ?_
  refine sim_typedInitializer (le_refl _) fun name ty init read hread hty hinit => ?_
  have hmerge : Merges ([] ++ [start] ++ read) start.span init.span :=
    .append (.token start) (hinit.spans _ init.span_mem)
  refine sim_simpleSpan hmerge ((Covers.token start).append_left read)
    fun span read' hread' hcovers => ?_
  refine sim_pure ⟨rfl, by simp, ?_, hty.fits, hinit.within, ?_⟩
  · exact ((Neutral.token (by rw [hstart]; rfl)).append hread).append hread'
  · simp only [Constant.spans, List.mem_cons, List.mem_append]
    rintro s (rfl | hs | hs)
    · exact hcovers
    · exact ((hty.spans s hs).append_right _).append_left read'
    · exact ((hinit.spans s hs).append_right _).append_left read'

theorem parseGlobal_agree :
    Agree 0 maxNesting Cursor.parseGlobal (Parser.parseGlobal maxNesting) Global.Good := by
  intro tokens scopes total _
  refine sim_expect (by decide) fun start hstart => ?_
  refine sim_typedInitializer (le_refl _) fun name ty init read hread hty hinit => ?_
  have hmerge : Merges ([] ++ [start] ++ read) start.span init.span :=
    .append (.token start) (hinit.spans _ init.span_mem)
  refine sim_simpleSpan hmerge ((Covers.token start).append_left read)
    fun span read' hread' hcovers => ?_
  refine sim_pure ⟨rfl, by simp, ?_, hty.fits, hinit.within, ?_⟩
  · exact ((Neutral.token (by rw [hstart]; rfl)).append hread).append hread'
  · simp only [Global.spans, List.mem_cons, List.mem_append]
    rintro s (rfl | hs | hs)
    · exact hcovers
    · exact ((hty.spans s hs).append_right _).append_left read'
    · exact ((hinit.spans s hs).append_right _).append_left read'

/-- Advancing over a token that is known to be plain. -/
theorem ends_advance {k : Token → CursorM α} {k' : Token → ParseM β} {depth : ℕ} {c : Cursor}
    {p : Parser} (hrel : Related tokens depth scopes total done c p) (hplain : p.current.kind.isPlain)
    (hk : ∀ token, token.kind.isPlain →
      Sim tokens depth total scopes (done ++ [token]) (k token) (k' token) scopes' R) :
    EndsAlike tokens depth total done scopes' R ((Cursor.advance >>= k) c)
      ((Parser.advance >>= k') p) := by
  have hne : p.current.kind ≠ .eof := by
    intro heof
    rw [heof] at hplain
    cases hplain
  obtain ⟨hc, hp, hrel'⟩ := hrel.advance hne
  rw [run_bind_ok hc, parse_bind_ok hp]
  exact (hk _ hplain _ _ hrel').append

/-- A sound declaration starts with the name `sound`. -/
theorem parseSound_ends {c : Cursor} {p : Parser}
    (hrel : Related tokens maxNesting scopes total [] c p) (hplain : p.current.kind.isPlain) :
    EndsAlike tokens maxNesting total [] scopes (Reads SoundAsset.Good)
      (Cursor.parseSound c) (Parser.parseSound p) := by
  refine ends_advance hrel hplain fun start hstart => ?_
  refine sim_identifier fun name token hname => ?_
  refine sim_expect (by decide) fun equal hequal => ?_
  have hneutral : Neutral ([] ++ [start] ++ [token] ++ [equal]) :=
    ((Neutral.token hstart).append_token (by rw [hname]; rfl)).append_token (by rw [hequal]; rfl)
  have hspan : Covers ([] ++ [start] ++ [token] ++ [equal]) start.span :=
    ((Covers.token start).append_left [token]).append_left [equal]
  refine sim_advance (fun path hne => ?_) fun path heof hcovers => ?_
  · have hpath : Covers ([] ++ [start] ++ [token] ++ [equal] ++ [path]) path.span :=
      (Covers.token path).append_right _
    have hmerge : Merges ([] ++ [start] ++ [token] ++ [equal] ++ [path]) start.span path.span :=
      .append hspan (.token path)
    obtain ⟨kind, span⟩ := path
    cases kind
    case string value =>
      refine sim_simpleSpan hmerge (hspan.append_left _) fun span read hread hcovers => ?_
      exact sim_pure ⟨rfl, by simp, (hneutral.append_token rfl).append hread, hcovers⟩
    all_goals exact sim_fail hpath
  · rw [heof]
    exact sim_fail_covers hcovers

/-- A function from its parts. -/
theorem Function.Good.of_parts {covers : Span → Prop} {name : String} {kind : FunctionKind}
    {params : List Param} {returnType : ReturnType} {result : Block × Span} {span : Span}
    (hparams : ∀ param ∈ params, param.Good covers)
    (hreturn : ∀ ty ∈ returnType.types, ty.Fits)
    (hreturnSpans : ∀ s ∈ returnType.spans, covers s) (hbody : GoodBlock maxNesting covers result)
    (hspan : covers span) :
    Function.Good covers ⟨name, kind, params, returnType, result.1, span⟩ where
  types := by
    intro ty hty
    simp only [Function.types, List.mem_append, List.mem_map] at hty
    rcases hty with (⟨param, hparam, rfl⟩ | hty) | hty
    · exact (hparams param hparam).ty
    · exact hreturn ty hty
    · exact hbody.types ty hty
  body := hbody.within
  spans := by
    simp only [Function.spans, List.mem_cons, List.mem_append, List.mem_flatMap]
    rintro s (rfl | (⟨param, hparam, hs⟩ | hs) | hs)
    · exact hspan
    · exact (hparams param hparam).spans s hs
    · exact hreturnSpans s hs
    · exact hbody.spans s hs

/-- `start` and `draw`. -/
theorem entryPoint_agree {kind : TokenKind} (hplain : kind.isPlain) {message name : String}
    {functionKind : FunctionKind} :
    Agree 0 maxNesting
      (Cursor.expect kind message >>= fun start =>
        Cursor.blockWithBindings [] Cursor.block >>= fun result =>
          Cursor.merge start.span result.2 >>= fun span =>
            pure ⟨name, functionKind, [], .void, result.1, span⟩)
      (Parser.expect kind message >>= fun start =>
        Parser.blockWithBindings [] (Parser.block maxNesting) >>= fun result =>
          pure ⟨name, functionKind, [], .void, result.1, start.span.merge result.2⟩)
      Function.Good := by
  intro tokens scopes total _
  have hkind : kind ≠ .eof := by
    rintro rfl
    cases hplain
  refine sim_expect hkind fun start hstart => ?_
  refine sim_blockWithBindings (block_agree (le_refl _)) fun result read hread hbody => ?_
  have hmerge : Merges ([] ++ [start] ++ read) start.span result.2 :=
    .append (.token start) hbody.stop
  refine sim_merge hmerge (sim_pure ⟨rfl, by simp, ?_, ?_⟩)
  · exact (Neutral.token (by rw [hstart]; exact hplain)).append hread
  · exact .of_parts (by simp) (by simp [ReturnType.types]) (by simp [ReturnType.spans])
      (GoodBlock.grows maxNesting (fun _ h => h.append_right _) hbody) hmerge.covers

theorem parameter_agree :
    Agree 0 maxNesting Cursor.parameter (Parser.parameter maxNesting) Param.Good := by
  intro tokens scopes total _
  refine sim_identifier fun name token hname => ?_
  refine sim_expect (by decide) fun colon hcolon => ?_
  refine (parseValueType_agree (le_refl _)).bind (Nat.zero_le _) fun ty read _ hread hty => ?_
  refine sim_pure ⟨rfl, by simp, ?_, hty.fits, List.forall_mem_cons.mpr ⟨?_, fun s hs => ?_⟩⟩
  · exact ((Neutral.token (by rw [hname]; rfl)).append_token (by rw [hcolon]; rfl)).append hread
  · exact ((Covers.token token).append_left [colon]).append_left read
  · exact (hty.spans s hs).append_right _

theorem parseUpdate_agree :
    Agree 0 maxNesting Cursor.parseUpdate (Parser.parseUpdate maxNesting) Function.Good := by
  intro tokens scopes total _
  refine sim_expect (by decide) fun start hstart => ?_
  refine sim_expect (by decide) fun left hleft => ?_
  refine sim_identifier fun name token hname => ?_
  refine sim_expect (by decide) fun colon hcolon => ?_
  refine (parseValueType_agree (le_refl _)).bind (Nat.zero_le _) fun ty read _ hread hty => ?_
  refine sim_expect (by decide) fun right hright => ?_
  refine sim_blockWithBindings (block_agree (le_refl _)) fun result read' hread' hbody => ?_
  have hhead : Neutral ([] ++ [start] ++ [left] ++ [token] ++ [colon]) :=
    (((Neutral.token (by rw [hstart]; rfl)).append_token (by rw [hleft]; rfl)).append_token
      (by rw [hname]; rfl)).append_token (by rw [hcolon]; rfl)
  have hspan : Covers ([] ++ [start] ++ [left] ++ [token] ++ [colon] ++ read ++ [right])
      start.span :=
    (((((Covers.token start).append_left [left]).append_left [token]).append_left
      [colon]).append_left read).append_left [right]
  have htoken : Covers ([] ++ [start] ++ [left] ++ [token] ++ [colon] ++ read ++ [right] ++ read')
      token.span :=
    (((((Covers.token token).append_right ([] ++ [start] ++ [left])).append_left
      [colon]).append_left read).append_left [right]).append_left read'
  have hmerge : Merges ([] ++ [start] ++ [left] ++ [token] ++ [colon] ++ read ++ [right] ++ read')
      start.span result.2 := .append hspan hbody.stop
  refine sim_merge hmerge (sim_pure ⟨rfl, by simp, ?_, ?_⟩)
  · exact ((hhead.append hread).append_token (by rw [hright]; rfl)).append hread'
  · refine .of_parts (List.forall_mem_singleton.mpr ⟨hty.fits, ?_⟩) (by simp [ReturnType.types])
      (by simp [ReturnType.spans])
      (GoodBlock.grows maxNesting (fun _ h => h.append_right _) hbody) hmerge.covers
    refine List.forall_mem_cons.mpr ⟨htoken, fun s hs => ?_⟩
    exact (((hty.spans s hs).append_right _).append_left [right]).append_left read'

theorem parseReturnType_agree :
    Agree 0 maxNesting Cursor.parseReturnType (Parser.parseReturnType maxNesting)
      fun covers returnType => (∀ ty ∈ returnType.types, ty.Fits) ∧
        ∀ s ∈ returnType.spans, covers s := by
  intro tokens scopes total _
  refine sim_take (by decide) (fun token htoken => ?_) ?_
  · exact sim_pure ⟨rfl, by simp, .token (by rw [htoken]; rfl), by simp [ReturnType.types],
      by simp [ReturnType.spans]⟩
  · refine (parseValueType_agree (le_refl _)).bind (Nat.zero_le _) fun ty read hne hread hty => ?_
    exact sim_pure ⟨rfl, hne, hread, List.forall_mem_singleton.mpr hty.fits, hty.spans⟩

theorem parseNamedFunction_agree :
    Agree 0 maxNesting Cursor.parseNamedFunction (Parser.parseNamedFunction maxNesting)
      Function.Good := by
  intro tokens scopes total _
  unfold Cursor.parseNamedFunction Parser.parseNamedFunction
  refine sim_expect (by decide) fun start hstart => ?_
  refine sim_identifier fun name token hname => ?_
  refine sim_expect (by decide) fun left hleft => ?_
  refine sim_commaList Param.Good.grows parameter_agree (Nat.zero_le _) (fun _ => sim_stop_false)
    fun params read hread hparams => ?_
  refine sim_expect (by decide) fun right hright => ?_
  refine sim_expect (by decide) fun arrow harrow => ?_
  refine parseReturnType_agree.bind (Nat.zero_le _) fun returnType read' _ hread' hreturn => ?_
  refine sim_blockWithBindings (block_agree (le_refl _)) fun result read'' hread'' hbody => ?_
  have hhead : Neutral ([] ++ [start] ++ [token] ++ [left]) :=
    ((Neutral.token (by rw [hstart]; rfl)).append_token (by rw [hname]; rfl)).append_token
      (by rw [hleft]; rfl)
  have hmiddle : Neutral ([] ++ [start] ++ [token] ++ [left] ++ read ++ [right] ++ [arrow]) :=
    ((hhead.append hread).append_token (by rw [hright]; rfl)).append_token (by rw [harrow]; rfl)
  have hspan : Covers ([] ++ [start] ++ [token] ++ [left] ++ read ++ [right] ++ [arrow] ++ read')
      start.span :=
    ((((((Covers.token start).append_left [token]).append_left [left]).append_left
      read).append_left [right]).append_left [arrow]).append_left read'
  have hmerge : Merges
      ([] ++ [start] ++ [token] ++ [left] ++ read ++ [right] ++ [arrow] ++ read' ++ read'')
      start.span result.2 := .append hspan hbody.stop
  refine sim_merge hmerge (sim_pure ⟨rfl, by simp, (hmiddle.append hread').append hread'', ?_⟩)
  refine .of_parts (fun param hparam => ?_) hreturn.1 (fun s hs => ?_)
    (GoodBlock.grows maxNesting (fun _ h => h.append_right _) hbody) hmerge.covers
  · exact Param.Good.grows (fun _ h => ((((h.append_right _).append_left [right]).append_left
      [arrow]).append_left read').append_left read'') (hparams param hparam)
  · exact ((hreturn.2 s hs).append_right _).append_left read''

/-- An import is not neutral. -/
theorem sim_parseImport :
    Sim tokens maxNesting total scopes [] Cursor.parseImport Parser.parseImport scopes
      fun done' a b => b = a ∧ done' ≠ [] ∧ Covers done' a.span := by
  refine sim_expect (by decide) fun start hstart => ?_
  refine sim_advance (fun path hne => ?_) fun path heof hcovers => ?_
  · have hpath : Covers ([] ++ [start] ++ [path]) path.span := (Covers.token path).append_right _
    have hspan : Covers ([] ++ [start] ++ [path]) start.span := (Covers.token start).append_left _
    obtain ⟨kind, span⟩ := path
    cases kind
    case string value =>
      refine sim_expect (by decide) fun keyword hkeyword => ?_
      refine sim_identifier fun name token hname => ?_
      have hmerge := Merges.append (hspan.append_left [keyword]) (Covers.token token)
      refine sim_take (by decide) (fun semicolon hsemicolon => ?_) ?_
      · have hlast := hmerge.append_left [semicolon]
        exact sim_merge hlast (sim_pure ⟨rfl, by simp, hlast.covers⟩)
      · exact sim_merge hmerge (sim_pure ⟨rfl, by simp, hmerge.covers⟩)
    all_goals exact sim_fail hpath
  · rw [heof]
    exact sim_fail_covers hcovers

/-! ## Programs -/

namespace Program.Good

variable {covers : Span → Prop} {program : Program}

theorem mem_types {ty : ValueType} : ty ∈ program.types ↔
    (∃ decl ∈ program.structs, ty ∈ decl.types) ∨ (∃ constant ∈ program.constants, constant.ty = ty) ∨
      (∃ global ∈ program.globals, global.ty = ty) ∨ ∃ function ∈ program.functions,
        ty ∈ function.types := by
  simp only [Program.types, List.mem_append, List.mem_flatMap, List.mem_map, or_assoc]

theorem mem_spans {span : Span} : span ∈ program.spans ↔ span = program.titleSpan ∨
    (∃ decl ∈ program.structs, span ∈ decl.spans) ∨ (∃ sound ∈ program.sounds, sound.span = span) ∨
      (∃ constant ∈ program.constants, span ∈ constant.spans) ∨
      (∃ global ∈ program.globals, span ∈ global.spans) ∨
      ∃ function ∈ program.functions, span ∈ function.spans := by
  simp only [Program.spans, List.mem_cons, List.mem_append, List.mem_flatMap, List.mem_map,
    or_assoc]

/-- A program is good when its declarations are. -/
theorem iff_declarations : program.Good covers ↔ covers program.titleSpan ∧
    (∀ decl ∈ program.structs, decl.Good covers) ∧ (∀ sound ∈ program.sounds, covers sound.span) ∧
    (∀ constant ∈ program.constants, constant.Good covers) ∧
    (∀ global ∈ program.globals, global.Good covers) ∧
    ∀ function ∈ program.functions, function.Good covers := by
  constructor
  · rintro ⟨hbounded, hwritten, hspans⟩
    have hfits : ∀ ty ∈ program.types, ty.Fits := fun ty hty =>
      ⟨hbounded.types ty hty, hwritten ty hty⟩
    refine ⟨hspans _ (mem_spans.mpr (.inl rfl)), fun decl hmem => ⟨fun ty hty => ?_, fun s hs => ?_⟩,
      fun sound hmem => hspans _ (mem_spans.mpr (.inr (.inr (.inl ⟨sound, hmem, rfl⟩)))),
      fun constant hmem => ⟨?_, hbounded.constants constant hmem, fun s hs => ?_⟩,
      fun global hmem => ⟨?_, hbounded.globals global hmem, fun s hs => ?_⟩,
      fun function hmem => ⟨fun ty hty => ?_, hbounded.functions function hmem, fun s hs => ?_⟩⟩
    · exact hfits ty (mem_types.mpr (.inl ⟨decl, hmem, hty⟩))
    · exact hspans s (mem_spans.mpr (.inr (.inl ⟨decl, hmem, hs⟩)))
    · exact hfits _ (mem_types.mpr (.inr (.inl ⟨constant, hmem, rfl⟩)))
    · exact hspans s (mem_spans.mpr (.inr (.inr (.inr (.inl ⟨constant, hmem, hs⟩)))))
    · exact hfits _ (mem_types.mpr (.inr (.inr (.inl ⟨global, hmem, rfl⟩))))
    · exact hspans s (mem_spans.mpr (.inr (.inr (.inr (.inr (.inl ⟨global, hmem, hs⟩))))))
    · exact hfits ty (mem_types.mpr (.inr (.inr (.inr ⟨function, hmem, hty⟩))))
    · exact hspans s (mem_spans.mpr (.inr (.inr (.inr (.inr (.inr ⟨function, hmem, hs⟩))))))
  · rintro ⟨htitle, hstructs, hsounds, hconstants, hglobals, hfunctions⟩
    have hfits : ∀ ty ∈ program.types, ty.Fits := fun ty hty => by
      rcases mem_types.mp hty with ⟨decl, hmem, hty⟩ | ⟨constant, hmem, rfl⟩ | ⟨global, hmem, rfl⟩ |
        ⟨function, hmem, hty⟩
      · exact (hstructs decl hmem).types ty hty
      · exact (hconstants constant hmem).ty
      · exact (hglobals global hmem).ty
      · exact (hfunctions function hmem).types ty hty
    refine ⟨⟨fun ty hty => (hfits ty hty).within, fun constant hmem => (hconstants constant hmem).init,
      fun global hmem => (hglobals global hmem).init,
      fun function hmem => (hfunctions function hmem).body⟩, fun ty hty => (hfits ty hty).written,
      fun s hs => ?_⟩
    · rcases mem_spans.mp hs with rfl | ⟨decl, hmem, hs⟩ | ⟨sound, hmem, rfl⟩ |
        ⟨constant, hmem, hs⟩ | ⟨global, hmem, hs⟩ | ⟨function, hmem, hs⟩
      · exact htitle
      · exact (hstructs decl hmem).spans s hs
      · exact hsounds sound hmem
      · exact (hconstants constant hmem).spans s hs
      · exact (hglobals global hmem).spans s hs
      · exact (hfunctions function hmem).spans s hs

end Program.Good

/-- A look at the current token, where the parser reads its state. -/
theorem atResolution_eq {c : Cursor} {p : Parser}
    (hrel : Related tokens maxNesting scopes total done c p) :
    Cursor.atResolution c = .ok (p.atResolution, c) := by
  obtain ⟨token, rest, htokens, hcurrent, hget, -⟩ := hrel.exists_token
  rw [Cursor.atResolution, run_bind_ok hget, Parser.atResolution, hcurrent]
  rfl

theorem sim_resolutionDimension {name : String}
    {k : {value : ℕ // 1 ≤ value ∧ value ≤ 4096} → CursorM α}
    {k' : {value : ℕ // 1 ≤ value ∧ value ≤ 4096} → ParseM β}
    (hk : ∀ value token, token.kind.isPlain →
      Sim tokens maxNesting total scopes (done ++ [token]) (k value) (k' value) scopes' R) :
    Sim tokens maxNesting total scopes done (Cursor.resolutionDimension name >>= k)
      (Parser.resolutionDimension name >>= k') scopes' R := by
  refine sim_bind (P := fun done' a b => b = a ∧ ∃ token, token.kind.isPlain ∧
    done' = done ++ [token]) (s := scopes) ?_ ?_
  · refine sim_advance (fun token hne => ?_) fun token heof hcovers => ?_
    · have hspan : Covers (done ++ [token]) token.span := (Covers.token token).append_right _
      obtain ⟨kind, span⟩ := token
      cases kind
      case integer value =>
        dsimp only
        split
        · exact sim_pure ⟨rfl, ⟨.integer value, span⟩, rfl, rfl⟩
        · exact sim_fail hspan
      all_goals exact sim_fail hspan
    · rw [heof]
      exact sim_fail_covers hcovers
  · rintro _ _ _ ⟨rfl, token, hplain, rfl⟩
    exact hk _ token hplain

theorem parseResolution_ends {c : Cursor} {p : Parser}
    (hrel : Related tokens maxNesting scopes total done c p) (hplain : p.current.kind.isPlain) :
    EndsAlike tokens maxNesting total done scopes
      (fun done' a b => b = a ∧ ∃ read, done' = done ++ read ∧ Neutral read)
      (Cursor.parseResolution c) (Parser.parseResolution p) := by
  refine ends_advance hrel hplain fun start hstart => ?_
  refine sim_expect (by decide) fun left hleft => ?_
  refine sim_resolutionDimension fun width first hfirst => ?_
  refine sim_expect (by decide) fun comma hcomma => ?_
  refine sim_resolutionDimension fun height second hsecond => ?_
  refine sim_expect (by decide) fun right hright => ?_
  refine sim_pure ⟨rfl, [start, left, first, comma, second, right], by simp, ?_⟩
  have hopen : Neutral ([start] ++ [left] ++ [first] ++ [comma]) :=
    (((Neutral.token hstart).append_token (by rw [hleft]; rfl)).append_token hfirst).append_token
      (by rw [hcomma]; rfl)
  exact (hopen.append_token hsecond).append_token (by rw [hright]; rfl)

/-- The header of a root file. -/
theorem sim_header : Sim tokens maxNesting total scopes [] Cursor.header Parser.header scopes
    fun done' a b => b = a ∧ Neutral done' ∧ Covers done' a.2.1 := by
  unfold Cursor.header Parser.header
  refine sim_expect (by decide) fun start hstart => ?_
  refine sim_advance (fun title hne => ?_) fun title heof hcovers => ?_
  · have hspan : Covers ([] ++ [start] ++ [title]) title.span := (Covers.token title).append_right _
    obtain ⟨kind, span⟩ := title
    cases kind
    case string value =>
      have hneutral : Neutral ([] ++ [start] ++ [⟨.string value, span⟩]) :=
        (Neutral.token (by rw [hstart]; rfl)).append_token rfl
      -- What follows the resolution, whether one was read or not.
      have hrest : ∀ (resolution : Resolution) (read : List Token), Neutral read →
          Sim tokens maxNesting total scopes ([] ++ [start] ++ [⟨.string value, span⟩] ++ read)
            (Cursor.take .semicolon >>= fun _ => pure (value, span, resolution))
            (Parser.take .semicolon >>= fun _ => pure (value, span, resolution)) scopes
            fun done' a b => b = a ∧ Neutral done' ∧ Covers done' a.2.1 := by
        intro resolution read hread
        have hall := hneutral.append hread
        have hcovers := hspan.append_left read
        refine sim_take (by decide) (fun semicolon hsemicolon => ?_) ?_
        · refine sim_pure ⟨rfl, hall.append_token (by rw [hsemicolon]; rfl), ?_⟩
          exact hcovers.append_left [semicolon]
        · exact sim_pure ⟨rfl, hall, hcovers⟩
      intro c p hrel
      dsimp only
      rw [run_bind_ok (atResolution_eq hrel), parse_bind_ok (m := get) (p := p) rfl]
      cases hat : p.atResolution with
      | true =>
        have hplain : p.current.kind.isPlain := by
          rw [of_decide_eq_true hat]
          rfl
        refine ends_bind (parseResolution_ends hrel hplain) ?_
        rintro resolution _ _ ⟨rfl, read, rfl, hread⟩
        exact hrest _ read hread
      | false =>
        have hdefault := hrest .default [] .nil
        rw [List.append_nil] at hdefault
        exact hdefault c p hrel
    all_goals exact sim_fail hspan
  · rw [heof]
    exact sim_fail_covers hcovers

/-- A turn of the loop : the program grows by a good declaration, or the imports by one. -/
structure Declared (tokens done : List Token) (parsed : Cursor.Parsed) (kind : TokenKind)
    (done' : List Token) (a : Cursor.Parsed) (b : Program) : Prop where
  eq : b = a.1
  good : Program.Good (Covers tokens) parsed.1 → Program.Good (Covers tokens) a.1
  read : ∃ read, done' = done ++ read ∧ read ≠ [] ∧
    (kind ≠ .import → a.2 = parsed.2 ∧ Neutral read)
  imports : kind = .import → ∃ header, a.2 = parsed.2 ++ [header] ∧ Covers tokens header.span

/-- A declaration that is put into the program. -/
theorem ends_declare {γ : Type} {good : (Span → Prop) → γ → Prop} (hgrows : Grows good)
    {run : CursorM γ} {m : ParseM γ} {parsed : Cursor.Parsed} {kind : TokenKind}
    (hkind : kind ≠ .import) (put : γ → Program)
    (hput : ∀ a, good (Covers tokens) a → Program.Good (Covers tokens) parsed.1 →
      Program.Good (Covers tokens) (put a)) {c : Cursor} {p : Parser}
    (hrel : Related tokens maxNesting scopes total done c p)
    (h : ∀ total, Related tokens maxNesting scopes total [] c p →
      EndsAlike tokens maxNesting total [] scopes (Reads good) (run c) (m p)) :
    EndsAlike tokens maxNesting total done scopes (Declared tokens done parsed kind)
      ((run >>= fun a => pure (put a, parsed.2)) c) ((m >>= fun a => pure (put a)) p) := by
  have hrun := ends_after hrel h
  refine ends_bind (P := fun done' a b => (∃ read, done' = done ++ read ∧ Reads good read a b) ∧
    ∀ span, Covers done' span → Covers tokens span) hrun.covers ?_
  rintro a _ _ ⟨⟨read, rfl, ⟨rfl, hne, hneutral, hgood⟩⟩, hcovers⟩
  refine sim_pure ⟨rfl, hput _ ?_, ⟨read, rfl, hne, fun _ => ⟨rfl, hneutral⟩⟩, fun h => ?_⟩
  · exact hgrows (fun span hspan => hcovers span (hspan.append_right done)) hgood
  · exact absurd h hkind

/-- A declaration of the token at the cursor. -/
theorem declarationAt_ends (parsed : Cursor.Parsed) {c : Cursor} {p : Parser}
    (hrel : Related tokens maxNesting scopes total done c p) :
    EndsAlike tokens maxNesting total done scopes
      (Declared tokens done parsed p.current.kind)
      (Cursor.declarationAt parsed p.current.kind c)
      (Parser.declarationAt parsed.1 p.current.kind p) := by
  generalize hkind : p.current.kind = kind
  have hfunction : ∀ {run : CursorM Function} {m : ParseM Function},
      Agree 0 maxNesting run m Function.Good → kind ≠ .import →
      EndsAlike tokens maxNesting total done scopes (Declared tokens done parsed kind)
        ((run >>= fun function => pure
          ({ parsed.1 with functions := parsed.1.functions ++ [function] }, parsed.2)) c)
        ((m >>= fun function => pure
          { parsed.1 with functions := parsed.1.functions ++ [function] }) p) := by
    intro run m hagree hne
    refine ends_declare (fun hcovers _ h => ⟨h.types, h.body, fun s hs => hcovers s (h.spans s hs)⟩)
      hne _ (fun function hfunction hgood => ?_) hrel fun total => hagree _ _ _ (Nat.zero_le _) c p
    rw [Program.Good.iff_declarations] at hgood ⊢
    obtain ⟨htitle, hstructs, hsounds, hconstants, hglobals, hfunctions⟩ := hgood
    exact ⟨htitle, hstructs, hsounds, hconstants, hglobals,
      List.forall_mem_append.mpr ⟨hfunctions, List.forall_mem_singleton.mpr hfunction⟩⟩
  unfold Cursor.declarationAt Parser.declarationAt
  split
  · refine ends_bind (ends_after hrel fun total hrel' => (sim_parseImport c p hrel').covers) ?_
    rintro header program _ ⟨read, rfl, ⟨heq, hne, hspan⟩, hcovers⟩
    exact sim_pure ⟨rfl, id, ⟨read, rfl, hne, fun h => absurd rfl h⟩,
      fun _ => ⟨header, rfl, hcovers _ hspan⟩⟩
  · refine ends_declare (fun hcovers _ h => ⟨h.types, fun s hs => hcovers s (h.spans s hs)⟩)
      (by decide) _ (fun decl hdecl hgood => ?_) hrel
      fun total => parseStruct_agree _ _ _ (Nat.zero_le _) c p
    rw [Program.Good.iff_declarations] at hgood ⊢
    obtain ⟨htitle, hstructs, hrest⟩ := hgood
    exact ⟨htitle, List.forall_mem_append.mpr ⟨hstructs, List.forall_mem_singleton.mpr hdecl⟩, hrest⟩
  · refine ends_declare SoundAsset.Good.grows (by decide) _ (fun sound hsound hgood => ?_) hrel
      fun total hrel' => parseSound_ends hrel' (by rw [hkind]; rfl)
    rw [Program.Good.iff_declarations] at hgood ⊢
    obtain ⟨htitle, hstructs, hsounds, hrest⟩ := hgood
    exact ⟨htitle, hstructs,
      List.forall_mem_append.mpr ⟨hsounds, List.forall_mem_singleton.mpr hsound⟩, hrest⟩
  · refine ends_declare (fun hcovers _ h => ⟨h.ty, h.init, fun s hs => hcovers s (h.spans s hs)⟩)
      (by decide) _ (fun constant hconstant hgood => ?_) hrel
      fun total => parseConstant_agree _ _ _ (Nat.zero_le _) c p
    rw [Program.Good.iff_declarations] at hgood ⊢
    obtain ⟨htitle, hstructs, hsounds, hconstants, hrest⟩ := hgood
    exact ⟨htitle, hstructs, hsounds,
      List.forall_mem_append.mpr ⟨hconstants, List.forall_mem_singleton.mpr hconstant⟩, hrest⟩
  · refine ends_declare (fun hcovers _ h => ⟨h.ty, h.init, fun s hs => hcovers s (h.spans s hs)⟩)
      (by decide) _ (fun global hglobal hgood => ?_) hrel
      fun total => parseGlobal_agree _ _ _ (Nat.zero_le _) c p
    rw [Program.Good.iff_declarations] at hgood ⊢
    obtain ⟨htitle, hstructs, hsounds, hconstants, hglobals, hrest⟩ := hgood
    exact ⟨htitle, hstructs, hsounds, hconstants,
      List.forall_mem_append.mpr ⟨hglobals, List.forall_mem_singleton.mpr hglobal⟩, hrest⟩
  · exact hfunction (entryPoint_agree rfl) (by decide)
  · exact hfunction parseUpdate_agree (by decide)
  · exact hfunction (entryPoint_agree rfl) (by decide)
  · exact hfunction parseNamedFunction_agree (by decide)
  · first
    | exact sim_errorHere c p hrel
    | (split <;> first | exact sim_errorHere c p hrel | simp_all)

/-- A turn of the loop of `run`. -/
theorem declaration_ends (root : Bool) (parsed : Cursor.Parsed) {c : Cursor} {p : Parser}
    (hrel : Related tokens maxNesting scopes total done c p) :
    EndsAlike tokens maxNesting total done scopes (Declared tokens done parsed p.current.kind)
      (Cursor.declaration root parsed c) (Parser.declaration root parsed.1 p) := by
  obtain ⟨token, rest, htokens, hcurrent, hget, -⟩ := hrel.exists_token
  rw [Cursor.declaration, run_bind_ok (atResolution_eq hrel), Parser.declaration,
    parse_bind_ok (m := get) (p := p) rfl]
  cases p.atResolution with
  | true => exact sim_errorHere c p hrel
  | false =>
    rw [if_neg Bool.false_ne_true, if_neg Bool.false_ne_true, run_bind_ok hget, ← hcurrent]
    split
    · exact sim_errorHere c p hrel
    · exact declarationAt_ends parsed hrel

/-- What the loop of `run` leaves. -/
structure Gathered (tokens : List Token) (parsed a : Cursor.Parsed) (b : Program) : Prop where
  eq : b = a.1
  good : Program.Good (Covers tokens) parsed.1 → Program.Good (Covers tokens) a.1
  imports : (∀ header ∈ parsed.2, Covers tokens header.span) →
    ∀ header ∈ a.2, Covers tokens header.span

theorem Declared.imports_covered {parsed a : Cursor.Parsed} {b : Program} {kind : TokenKind}
    {done' : List Token} (h : Declared tokens done parsed kind done' a b)
    (hparsed : ∀ header ∈ parsed.2, Covers tokens header.span) :
    ∀ header ∈ a.2, Covers tokens header.span := by
  by_cases hkind : kind = .import
  · obtain ⟨header, ha, hspan⟩ := h.imports hkind
    rw [ha]
    exact List.forall_mem_append.mpr ⟨hparsed, List.forall_mem_singleton.mpr hspan⟩
  · obtain ⟨read, -, -, hread⟩ := h.read
    rw [(hread hkind).1]
    exact hparsed

theorem declarations_sim (root : Bool) (fuel : ℕ) (parsed : Cursor.Parsed)
    (hfuel : total < done.length + fuel) :
    Sim tokens maxNesting total scopes done (Cursor.declarations root fuel parsed)
      (Parser.declarations root fuel parsed.1) scopes fun _ => Gathered tokens parsed := by
  induction fuel generalizing done parsed with
  | zero =>
    intro c p hrel
    have htotal := hrel.total
    rw [List.length_append] at htotal
    omega
  | succ fuel ih =>
    rw [Cursor.declarations, Parser.declarations]
    refine sim_isAt fun b => ?_
    cases b with
    | true => exact sim_pure ⟨rfl, id, id⟩
    | false =>
      intro c p hrel
      refine ends_bind (declaration_ends root parsed hrel) ?_
      rintro next _ _ hnext
      obtain ⟨read, hread, hne, -⟩ := hnext.read
      have hpos : 0 < read.length := List.length_pos_iff.mpr hne
      have hrest := @ih (done ++ read) next (by rw [List.length_append]; omega)
      rw [hread, hnext.eq]
      refine hrest.mono fun _ a b h => ?_
      exact ⟨h.eq, fun hgood => h.good (hnext.good hgood),
        fun himports => h.imports (hnext.imports_covered himports)⟩

/-- What the loop of `run` starts from. -/
theorem Program.Good.empty {covers : Span → Prop} {resolution : Resolution} {title : String}
    {span : Span} (h : covers span) :
    Program.Good covers ⟨resolution, title, span, [], [], [], [], []⟩ := by
  rw [Program.Good.iff_declarations]
  exact ⟨h, by simp, by simp, by simp, by simp, by simp⟩

theorem run_sim (root : Bool) :
    Sim tokens maxNesting total 0 [] (Cursor.run root) (Parser.run root) 0
      fun _ a b => b = a.1 ∧ Program.Good (Covers tokens) a.1 ∧
        ∀ header ∈ a.2, Covers tokens header.span := by
  have hloop : ∀ (done : List Token) (program : Program), Program.Good (Covers tokens) program →
      Sim tokens maxNesting total 0 done
        (Cursor.remaining >>= fun left => Cursor.declarations root (left + 1) (program, []))
        (Parser.remaining >>= fun left => Parser.declarations root (left + 1) program) 0
        fun _ a b => b = a.1 ∧ Program.Good (Covers tokens) a.1 ∧
          ∀ header ∈ a.2, Covers tokens header.span := by
    intro done program hgood
    refine sim_remaining fun left hleft _ => ?_
    refine (declarations_sim root (left + 1) (program, []) (by omega)).mono fun _ a b h => ?_
    exact ⟨h.eq, h.good hgood, h.imports (by simp)⟩
  intro c p hrel
  cases root with
  | true =>
    refine ends_bind (sim_header c p hrel).covers ?_
    rintro ⟨title, span, resolution⟩ _ done' ⟨⟨rfl, -, hspan⟩, hcovers⟩
    exact hloop done' _ (.empty (hcovers span hspan))
  | false =>
    obtain ⟨token, rest, htokens, hcurrent, hget, -⟩ := hrel.exists_token
    have hspan : Covers tokens token.span := hcurrent ▸ hrel.covers_current
    have hrun := hloop [] ⟨.default, "", token.span, [], [], [], [], []⟩ (.empty hspan) c p hrel
    have hcursor : Cursor.run false c = (Cursor.remaining >>= fun left =>
        Cursor.declarations false (left + 1)
          (⟨.default, "", token.span, [], [], [], [], []⟩, [])) c := by
      unfold Cursor.run
      dsimp only
      rw [if_neg Bool.false_ne_true, run_bind_ok hget]
      rfl
    have hparser : Parser.run false p = (Parser.remaining >>= fun left =>
        Parser.declarations false (left + 1) ⟨.default, "", token.span, [], [], [], [], []⟩) p := by
      unfold Parser.run
      dsimp only
      rw [if_neg Bool.false_ne_true, parse_bind_ok (m := get) (p := p) rfl, hcurrent]
      rfl
    rw [hcursor, hparser]
    exact hrun

end

/-! ## Files -/

/-- The parsers before the first token. -/
theorem related_start {tokens : List Token} (hends : EndsInEof tokens) {strict : Bool}
    (hstrict : strict → InOrder tokens) (structNames : List String) :
    Related tokens maxNesting 0 tokens.length []
      { Cursor.new strict tokens with structNames := structNames } ⟨tokens, structNames, []⟩ where
  ends := hends
  strict := hstrict
  vector := rfl
  inside := by
    obtain ⟨token, hlast, -⟩ := hends
    cases tokens with
    | nil => cases hlast
    | cons first rest => exact Nat.succ_pos _
  rest := rfl
  read := List.suffix_refl tokens
  total := rfl
  structNames := rfl
  valueScopes := rfl
  scopes := rfl
  nesting := Nat.zero_add _

/-- The two readings of `parse_file` end alike, and the spans of what they leave, or of the
diagnostic, are spans of the tokens. -/
theorem Cursor.parseFile_ends {tokens : List Token} (hends : EndsInEof tokens) {strict : Bool}
    (hstrict : strict → InOrder tokens) (root : Bool) (importedStructs : List String) :
    match Cursor.parseFile strict tokens root importedStructs with
    | .ok parsed => Speck.parseFile tokens root importedStructs = .ok parsed.1 ∧
        Program.Good (Covers tokens) parsed.1 ∧ ∀ header ∈ parsed.2, Covers tokens header.span
    | .error (.diagnostic d) => Speck.parseFile tokens root importedStructs = .error [d] ∧
        Covers tokens d.span
    | .error (.fault fault) => fault.Blames tokens := by
  have hrun := @run_sim tokens tokens.length root _ _
    (related_start hends hstrict (declaredStructNames tokens ++ importedStructs))
  unfold Cursor.parseFile Speck.parseFile
  simp only [StateT.run]
  generalize Cursor.run root _ = x at hrun ⊢
  generalize Parser.run root _ = y at hrun ⊢
  cases hrun with
  | ok read related post =>
    obtain ⟨rfl, hgood, himports⟩ := post
    exact ⟨rfl, hgood, himports⟩
  | diagnostic covers => exact ⟨rfl, covers⟩
  | fault blames => exact blames

end Speck
