import Speck.LocatedStatements

/-!
# Programs of a development build

The text of a development build is the text of a plain build with the lines that `isLocationLine` finds,
and each report in it stands in the failure block of a check, in front of the call that ends the game,
and says where the checked expression starts (`development_locates`).
-/

set_option linter.unusedSectionVars false

namespace Speck

namespace Emitter

open EmbeddedData (unlines RuntimeDiagnostics)

/-! ## Lines of a program -/

theorem unlines_append (lines more : List Text) :
    unlines (lines ++ more) = unlines lines ++ unlines more :=
  List.flatMap_append

theorem eq_nil_of_unlines {lines : List Text} (h : unlines lines = []) : lines = [] := by
  cases lines with
  | nil => rfl
  | cons line rest => simp [unlines] at h

/-- The empty line behind the last function is left out. -/
theorem trimLastLine_unlines {lines : List Text} (h : lines ≠ []) :
    trimLastLine (unlines (lines ++ [[]])) = unlines lines := by
  have hlast : unlines (lines ++ [[]]) = unlines lines ++ ['\n'] := by
    rw [unlines_append]
    rfl
  obtain ⟨front, line, rfl⟩ := List.eq_nil_or_concat lines |>.resolve_left h
  have hends : unlines (front.concat line) = unlines front ++ line ++ ['\n'] := by
    rw [List.concat_eq_append, unlines_append, List.append_assoc]
    simp [unlines]
  have hsuffix : ['\n', '\n'].isSuffixOf (unlines (front.concat line) ++ ['\n']) = true := by
    rw [List.isSuffixOf_iff_suffix, hends]
    exact ⟨unlines front ++ line, by simp⟩
  rw [hlast, trimLastLine, if_pos hsuffix, List.dropLast_concat]

theorem symbol_isLocationLine {program : Program} {name : String} {signature : Signature}
    (h : (functionSignatures program).lookup name = some signature) (rest : Text) :
    isLocationLine ("  call void ".toList ++ (signature.symbol ++ '(' :: rest)) = false := by
  rcases HashMap.mem_of_lookup_extend h with h | h
  · obtain ⟨function, -, heq⟩ := List.mem_map.mp h
    obtain ⟨-, rfl⟩ := Prod.mk.inj heq
    dsimp only [symbolName]
    split <;> rfl
  · obtain ⟨builtin, hbuiltin, heq⟩ := List.mem_map.mp (HashMap.mem_of_lookup_ofList h)
    obtain ⟨-, rfl⟩ := Prod.mk.inj heq
    simp only [Builtins.functions, List.mem_cons, List.not_mem_nil, or_false] at hbuiltin
    rcases hbuiltin with rfl | rfl | rfl | rfl | rfl | rfl | rfl | rfl | rfl | rfl | rfl | rfl | rfl |
      rfl | rfl | rfl | rfl | rfl | rfl <;> rfl

theorem builtinLine_isLocationLine {builtin : BuiltinFunction} {line : Text}
    (h : builtin ∈ Builtins.functions) (hline : builtinLine builtin = some line) :
    isLocationLine line = false := by
  have hall : ∀ builtin ∈ Builtins.functions,
      (builtinLine builtin).all fun line => !isLocationLine line := by decide
  simpa [hline] using hall builtin h

theorem structLine_isLocationLine {declaration : StructDecl} {line : Text}
    (hline : structLine declaration = some line) : isLocationLine line = false := by
  obtain ⟨fields, -, hline⟩ := Option.bind_eq_some_iff.mp hline
  obtain rfl := Option.some.inj hline
  rfl

theorem constantLine_isLocationLine {constant : Constant} {value : ConstantValue} {line : Text}
    (hline : constantLine constant value = some line) : isLocationLine line = false := by
  obtain ⟨ty, -, hline⟩ := Option.bind_eq_some_iff.mp hline
  obtain ⟨text, -, hline⟩ := Option.bind_eq_some_iff.mp hline
  obtain rfl := Option.some.inj hline
  dsimp only [symbolName]
  split <;> rfl

theorem globalLine_isLocationLine {global : Global} {line : Text}
    (hline : globalLine global = some line) : isLocationLine line = false := by
  obtain ⟨value, -, hline⟩ := Option.bind_eq_some_iff.mp hline
  obtain ⟨ty, -, hline⟩ := Option.bind_eq_some_iff.mp hline
  obtain ⟨text, -, hline⟩ := Option.bind_eq_some_iff.mp hline
  obtain rfl := Option.some.inj hline
  dsimp only [symbolName]
  split <;> rfl

/-- The lines of `embedded_data::emit`. -/
def embeddedLines (program : Program) : List Text :=
  let sounds := EmbeddedData.sortedSounds program
  EmbeddedData.identityLine program :: sounds.map EmbeddedData.soundLine ++
    [[], "declare void @crumb_storage_init(ptr, i64)".toList, [],
      "define i32 @spk_sound_lookup(i32 %handle, ptr %data, ptr %sample_count) \x7b".toList,
      "entry:".toList] ++
    EmbeddedData.lookupLines sounds

theorem embeddedLines_isLocationLine (program : Program) {line : Text}
    (h : line ∈ embeddedLines program) : isLocationLine line = false := by
  rw [embeddedLines, List.mem_append, List.mem_append, List.mem_cons, List.mem_map] at h
  rcases h with ((rfl | ⟨sound, -, rfl⟩) | h) | h
  · rfl
  · rfl
  · simp only [List.mem_cons, List.not_mem_nil, or_false] at h
    rcases h with rfl | rfl | rfl | rfl | rfl <;> rfl
  · rw [EmbeddedData.lookupLines] at h
    split at h
    · simp only [List.mem_cons, List.not_mem_nil, or_false] at h
      rcases h with rfl | rfl | rfl | rfl | rfl <;> rfl
    · simp only [List.mem_append, List.mem_cons, List.mem_map, List.mem_flatMap, List.not_mem_nil,
        or_false] at h
      rcases h with ((rfl | ⟨sound, -, rfl⟩) | rfl | ⟨sound, -, rfl | rfl | rfl | rfl⟩) |
        rfl | rfl | rfl | rfl | rfl | rfl <;> rfl

theorem headerLines_isLocationLine (program : Program) (targetTriple : Option Text) {line : Text}
    (h : line ∈ headerLines program targetTriple) : isLocationLine line = false := by
  cases targetTriple with
  | none =>
    simp only [headerLines, Option.toList, List.map_nil, List.append_nil, List.mem_append, List.mem_cons,
      List.not_mem_nil, or_false] at h
    rcases h with (rfl | rfl) | rfl <;> rfl
  | some triple =>
    simp only [headerLines, Option.toList, List.map_cons, List.map_nil, List.mem_append, List.mem_cons,
      List.not_mem_nil, or_false] at h
    rcases h with ((rfl | rfl) | rfl) | rfl <;> rfl

/-! ## Functions -/

/-- The texts of the functions, each with an empty line behind it. -/
theorem functions_locate {sources : List (Text × Text)} (emit emit' : Function → Option Text)
    (checks : Function → List (Check × Span)) {functions : List Function}
    (h : ∀ function ∈ functions, ∃ lines lines', emit function = some (unlines lines) ∧
      emit' function = some (unlines lines') ∧ Locates sources (checks function) lines lines') :
    ∃ texts texts' lines lines', functions.mapM emit = some texts ∧
      functions.mapM emit' = some texts' ∧ texts.flatMap (· ++ ['\n']) = unlines lines ∧
      texts'.flatMap (· ++ ['\n']) = unlines lines' ∧
      Locates sources (functions.flatMap checks) lines lines' ∧
      (functions ≠ [] → ∃ front front', lines = front ++ [[]] ∧ lines' = front' ++ [[]] ∧
        Locates sources (functions.flatMap checks) front front') := by
  induction functions with
  | nil => exact ⟨[], [], [], [], rfl, rfl, rfl, rfl, .nil, fun h => absurd rfl h⟩
  | cons function rest ih =>
    obtain ⟨first, first', hfirst, hfirst', hlocates⟩ := h function List.mem_cons_self
    obtain ⟨texts, texts', lines, lines', htexts, htexts', hlines, hlines', hrest, hlast⟩ :=
      ih fun f hf => h f (List.mem_cons_of_mem _ hf)
    have hempty : Locates sources (checks function) (first ++ [[]]) (first' ++ [[]]) :=
      List.append_nil (checks function) ▸ hlocates.append (.line rfl)
    rw [List.flatMap_cons]
    refine ⟨unlines first :: texts, unlines first' :: texts', first ++ [[]] ++ lines,
      first' ++ [[]] ++ lines', ?_, ?_, ?_, ?_, hempty.append hrest, fun _ => ?_⟩
    · rw [List.mapM_cons, hfirst, htexts]
      rfl
    · rw [List.mapM_cons, hfirst', htexts']
      rfl
    · rw [List.flatMap_cons, hlines, unlines_append, unlines_append]
      rfl
    · rw [List.flatMap_cons, hlines', unlines_append, unlines_append]
      rfl
    · by_cases hnil : rest = []
      · subst hnil
        obtain rfl := Option.some.inj htexts
        obtain rfl := Option.some.inj htexts'
        obtain rfl := eq_nil_of_unlines hlines.symm
        obtain rfl := eq_nil_of_unlines hlines'.symm
        exact ⟨first, first', by simp, by simp, by simpa using hlocates⟩
      · obtain ⟨front, front', rfl, rfl, hfront⟩ := hlast hnil
        exact ⟨first ++ [[]] ++ front, first' ++ [[]] ++ front', (List.append_assoc _ _ _).symm,
          (List.append_assoc _ _ _).symm, hempty.append hfront⟩

/-! ## Accepted programs -/

theorem forall_of_mapM {α : Type} {f : α → Option Text} {as : List α} {lines : List Text}
    (h : as.mapM f = some lines) {p : Text → Prop} (hp : ∀ a ∈ as, ∀ line, f a = some line → p line) :
    ∀ line ∈ lines, p line := by
  induction as generalizing lines with
  | nil =>
    obtain rfl := Option.some.inj h
    simp
  | cons a rest ih =>
    rw [List.mapM_cons] at h
    obtain ⟨line, hline, h⟩ := Option.bind_eq_some_iff.mp h
    obtain ⟨rest', hrest, h⟩ := Option.bind_eq_some_iff.mp h
    obtain rfl := Option.some.inj h
    exact List.forall_mem_cons.mpr ⟨hp a List.mem_cons_self line hline,
      ih hrest fun b hb => hp b (List.mem_cons_of_mem _ hb)⟩

theorem declarations_locate {sources : List (Text × Text)}
    (files : List (SourceLocation.SourceFile × ℕ)) :
    Locates sources [] ("declare void @crumb_source_location(ptr, i32, i32)".toList ::
      files.map fun (file, id) => EmbeddedData.sourceLine id file.path) [] := by
  have hcons {line : Text} {lines : List Text} (hline : isLocationLine line = true)
      (hcall : locationCallStart.isPrefixOf line = false) (h : Locates sources [] lines []) :
      Locates sources [] (line :: lines) [] := Locates.append (.declaration hline hcall) h
  refine hcons rfl rfl ?_
  induction files with
  | nil => exact .nil
  | cons file rest ih => exact hcons rfl rfl ih

theorem separator_eq (p : Prop) [Decidable p] :
    (if p then [] else ['\n'] : Text) = unlines (if p then [] else [[]]) := by
  split <;> rfl

/-- The lines of a program in front of its functions. -/
def frontLines (program : Program) (targetTriple : Option Text)
    (builtins declarations structs aggregates globals : List Text) : List Text :=
  headerLines program targetTriple ++ embeddedLines program ++ builtins ++ declarations ++
    ["declare void @crumb_bounds_fail(i32, i32)".toList,
      "declare void @crumb_division_fail(i32, i32)".toList,
      "declare void @crumb_remainder_fail(i32, i32)".toList, []] ++
    structs ++ (if program.structs = [] then [] else [[]]) ++ aggregates ++ globals ++
    (if program.globals = [] ∧ aggregates = [] then [] else [[]])

theorem mem_frontLines {program : Program} {targetTriple : Option Text}
    {builtins declarations structs aggregates globals : List Text} {line : Text}
    (h : line ∈ declarations) :
    line ∈ frontLines program targetTriple builtins declarations structs aggregates globals := by
  simp only [frontLines, List.mem_append, h, true_or, or_true]

theorem frontLines_locate {sources : List (Text × Text)} (program : Program) (targetTriple : Option Text)
    {builtins declarations declarations' structs aggregates globals : List Text}
    (hbuiltins : ∀ line ∈ builtins, isLocationLine line = false)
    (hdeclarations : Locates sources [] declarations declarations')
    (hstructs : ∀ line ∈ structs, isLocationLine line = false)
    (haggregates : ∀ line ∈ aggregates, isLocationLine line = false)
    (hglobals : ∀ line ∈ globals, isLocationLine line = false) :
    Locates sources [] (frontLines program targetTriple builtins declarations structs aggregates globals)
      (frontLines program targetTriple builtins declarations' structs aggregates globals) := by
  have hseparator (p : Prop) [Decidable p] :
      Locates sources [] (if p then [] else [[]]) (if p then [] else [[]]) := by
    split
    · exact .nil
    · exact .line rfl
  have happend {lines lines' more more' : List Text} (h : Locates sources [] lines lines')
      (hmore : Locates sources [] more more') : Locates sources [] (lines ++ more) (lines' ++ more') :=
    Locates.append h hmore
  refine happend (happend (happend (happend (happend (happend (happend (happend (happend ?_ ?_) ?_) ?_)
    ?_) ?_) ?_) ?_) ?_) ?_
  · exact .all fun _ => headerLines_isLocationLine program targetTriple
  · exact .all fun _ => embeddedLines_isLocationLine program
  · exact .all hbuiltins
  · exact hdeclarations
  · refine .all fun line hline => ?_
    simp only [List.mem_cons, List.not_mem_nil, or_false] at hline
    rcases hline with rfl | rfl | rfl | rfl <;> rfl
  · exact .all hstructs
  · exact hseparator _
  · exact .all haggregates
  · exact .all hglobals
  · exact hseparator _

/-! ## The values of constants -/

section Values

variable {c : FunctionChecker} (values : HashMap ConstantValue)

/-- The types do not need the values of the constants. -/
theorem HasType.withValues {scopes : Scopes} {e : Expr} {r : ReturnType} (h : HasType c scopes e r) :
    HasType { c with constantValues := values } scopes e r := by
  induction h with
  | i32 hvalue => exact .i32 hvalue
  | f32 hvalue => exact .f32 hvalue
  | bool => exact .bool
  | arrayLiteral _ ih => exact .arrayLiteral ih
  | structLiteral hd hnodup hall hknown _ ih => exact .structLiteral hd hnodup hall hknown ih
  | var hb => exact .var hb
  | index hnot _ _ ihbase ihindex => exact .index hnot ihbase ihindex
  | field _ hd hfield ih => exact .field ih hd hfield
  | minimum hminimum => exact .minimum hminimum
  | unary hminimum _ hop ih => exact .unary hminimum ih hop
  | binary _ _ hop ihleft ihright => exact .binary ihleft ihright hop
  | call hsignature hlength _ ih => exact .call hsignature hlength ih
  | conversion _ hnumeric ih => exact .conversion ih hnumeric

theorem PlaceTyped.withValues {scopes : Scopes} {e : Expr} {root : Lvalue}
    (h : PlaceTyped c scopes e root) : PlaceTyped { c with constantValues := values } scopes e root := by
  induction h with
  | var hb => exact .var hb
  | index _ hty hindex ih => exact .index ih hty (HasType.withValues values hindex)
  | field _ hty hd hfield ih => exact .field ih hty hd hfield

mutual

theorem StmtTyped.withValues : (statement : Stmt) → ∀ {scopes scopes'},
    StmtTyped c scopes statement scopes' →
    StmtTyped { c with constantValues := values } scopes statement scopes'
  | .letVar .., _, _, .letVar hwf hinit => .letVar hwf (HasType.withValues values hinit)
  | .assign .., _, _, .assign htarget hmutable hvalue hallowed =>
    .assign (PlaceTyped.withValues values htarget) hmutable (HasType.withValues values hvalue) hallowed
  | .expr .., _, _, .expr he htyped => .expr he (HasType.withValues values htyped)
  | .ifElse _ thenBlock none _, _, _, .ifElse hcondition hthen _ =>
    .ifElse (HasType.withValues values hcondition) (BlockTyped.withValues thenBlock hthen) nofun
  | .ifElse _ thenBlock (some elseBlock) _, _, _, .ifElse hcondition hthen helse =>
    .ifElse (HasType.withValues values hcondition) (BlockTyped.withValues thenBlock hthen)
      fun _ heq => Option.some.inj heq ▸ BlockTyped.withValues elseBlock (helse elseBlock rfl)
  | .whileLoop _ body _, _, _, .whileLoop hcondition hbody =>
    .whileLoop (HasType.withValues values hcondition) (BlockTyped.withValues body hbody)
  | .forLoop _ _ _ _ body _, _, _, .forLoop hlower hupper hbody =>
    .forLoop (HasType.withValues values hlower) (HasType.withValues values hupper)
      (BlockTyped.withValues body hbody)
  | .ret none _, _, _, .ret hreturn => .ret hreturn
  | .ret (some _) _, _, _, .retValue hreturn hvalue =>
    .retValue hreturn (HasType.withValues values hvalue)

theorem BlockTyped.withValues : (block : List Stmt) → ∀ {scopes}, BlockTyped c scopes block →
    BlockTyped { c with constantValues := values } scopes block
  | [], _, .nil => .nil
  | statement :: rest, _, .cons hstatement hrest =>
    .cons (StmtTyped.withValues statement hstatement) (BlockTyped.withValues rest hrest)

end

end Values

/-- The lines of a function of a program for a development build and those for a plain build. -/
theorem functionEmitter_locates [F32Primitives] {checked : CheckedProgram}
    {constants : List (Constant × ConstantValue)}
    (hconstants : constantValues checked.program = some constants) {function : Function}
    (hfunction : function ∈ checked.program.functions) {sources : List (Text × Text)} {titleLength : ℕ}
    {s : State} (h : (functionEmitter checked.program constants
      (.located (sources.map fun source => .add source.1 source.2)) function).emitLines titleLength .new =
        some ((), s)) :
    ∃ s', (functionEmitter checked.program constants .plain function).emitLines titleLength .new =
        some ((), s') ∧
      Locates sources (functionChecks checked.program function) (s.lines.map Line.write)
        (s'.lines.map Line.write) := by
  have hagrees := agrees hconstants
    (.located (sources.map fun source => .add source.1 source.2)) hfunction
  have hwf : (checked.program.checker ∅).WellFormed := checker_wellFormed checked.fieldNames checked.types
  have hagrees' : (functionEmitter checked.program constants
      (.located (sources.map fun source => .add source.1 source.2)) function).Agrees
        { checked.program.checker ∅ with returnType := function.returnType } :=
    ⟨⟨hwf.globals, hwf.constants, hwf.fields, hwf.fieldNames, hwf.params, hwf.returns⟩,
      hagrees.structs, hagrees.returnType, hagrees.returns, hagrees.functions, hagrees.globals,
      hagrees.constants⟩
  refine FunctionEmitter.emitLines_locates ⟨rfl, symbol_isLocationLine⟩
    (functionEmitter_fixed _ _ _ _) hagrees' (fun param hparam => checked.types _ ?_)
    (BlockTyped.withValues ∅ _ (checked.functions function hfunction).body) h
  simp only [Program.types, List.mem_append, List.mem_flatMap]
  exact .inr ⟨function, hfunction, List.mem_append_left _ (List.mem_append_left _
    (List.mem_map_of_mem hparam))⟩

/-- The text of a program, line by line. -/
theorem emitProgram_eq {program : Program} {targetTriple : Option Text}
    {diagnostics : RuntimeDiagnostics} {constants : List (Constant × ConstantValue)}
    {builtins structs aggregates globals texts declarations lines : List Text}
    (hconstants : constantValues program = some constants)
    (hbuiltins : Builtins.functions.mapM builtinLine = some builtins)
    (hstructs : program.structs.mapM structLine = some structs)
    (haggregates : (constants.filter fun (_, value) => isAggregateConstant value).mapM
      (fun (constant, value) => constantLine constant value) = some aggregates)
    (hglobals : program.globals.mapM globalLine = some globals)
    (htexts : program.functions.mapM (fun function => (functionEmitter program constants diagnostics
      function).emit program.title.utf8ByteSize) = some texts)
    (hdeclarations : diagnostics.declarations = unlines declarations)
    (hlines : texts.flatMap (· ++ ['\n']) = unlines (lines ++ [[]])) :
    emitProgram program targetTriple diagnostics = some (unlines
      (frontLines program targetTriple builtins declarations structs aggregates globals ++ lines)) := by
  unfold emitProgram
  rw [hconstants, Option.bind_eq_bind, Option.bind_some, hbuiltins, Option.bind_eq_bind,
    Option.bind_some, hstructs, Option.bind_some, haggregates, Option.bind_some, hglobals,
    Option.bind_some, htexts]
  have hembedded : EmbeddedData.emit program = unlines (embeddedLines program) := rfl
  have hfront : frontLines program targetTriple builtins declarations structs aggregates globals ++
      lines ≠ [] := by simp [frontLines, headerLines]
  rw [← trimLastLine_unlines hfront, Option.bind_some, hembedded, hdeclarations, hlines, separator_eq,
    separator_eq]
  simp only [frontLines, unlines_append, List.append_assoc]
  rfl

section Accepted

variable [F32Primitives] {program program' : Program}

/-- The text of a development build is that of a plain build with the lines that the build adds. The
reports in it are those of the checks of the functions, in their order. Each is in the failure block of
its check, in front of the call that ends the game, and says where in its file the checked expression
starts. -/
theorem development_locates (hwritten : program.IsWritten) (h : check program = .ok program')
    (targetTriple : Option Text) (sources : List (Text × Text))
    (hsources : ∀ span ∈ program.spans, span.source.id < sources.length) :
    ∃ lines : List Text,
      emitProgram program' targetTriple
        (.located (sources.map fun source => .add source.1 source.2)) = some (unlines lines) ∧
      emitProgram program' targetTriple .plain =
        some (unlines (lines.filter (!isLocationLine ·))) ∧
      (∀ id path text, sources[id]? = some (path, text) → EmbeddedData.sourceLine id path ∈ lines) ∧
      Locates sources (program'.functions.flatMap (functionChecks program')) lines
        (lines.filter (!isLocationLine ·)) ∧
      ∀ front back line, lines = front ++ line :: back →
        locationCallStart.isPrefixOf line = true →
        ∃ check span number arguments front' back',
          (check, span) ∈ program'.functions.flatMap (functionChecks program') ∧
          Reports sources span line ∧ front = front' ++ [failureLabel check number] ∧
          back = failureCall check arguments :: "  unreachable".toList :: back' := by
  have hspans {function : Function} (hfunction : function ∈ program'.functions) {span : Span}
      (hspan : span ∈ blockSpans function.body) := functions_spans hwritten h hfunction hspan
  obtain ⟨checked, rfl, -⟩ := check_spec hwritten h
  let diagnostics : RuntimeDiagnostics := .located (sources.map fun source => .add source.1 source.2)
  obtain ⟨constants, hconstants⟩ := exists_constantValues checked
  obtain ⟨builtins, hbuiltins⟩ := exists_mapM fun _ => exists_builtinLine
  obtain ⟨structs, hstructs⟩ := exists_mapM fun _ => @exists_structLine _ checked _
  have hall : ∀ p ∈ constants.filter fun (_, value) => isAggregateConstant value,
      ∃ text, (fun (constant, value) => constantLine constant value) p = some text :=
    fun p hp => exists_constantLine hconstants (List.mem_of_mem_filter hp)
  obtain ⟨aggregates, haggregates⟩ := exists_mapM hall
  obtain ⟨globals, hglobals⟩ := exists_mapM fun _ => @exists_globalLine _ checked _
  let emitter (diagnostics : RuntimeDiagnostics) (function : Function) : FunctionEmitter :=
    functionEmitter checked.program constants diagnostics function
  have hlocated : ∀ function ∈ checked.program.functions, ∃ lines lines',
      (emitter diagnostics function).emit checked.program.title.utf8ByteSize = some (unlines lines) ∧
      (emitter .plain function).emit checked.program.title.utf8ByteSize = some (unlines lines') ∧
      Locates sources (functionChecks checked.program function) lines lines' := by
    intro function hfunction
    obtain ⟨s, hs⟩ := functionEmitter_total hconstants diagnostics hfunction (fun span hspan =>
      FunctionEmitter.knows_located rfl (hsources span (hspans hfunction hspan)))
      checked.program.title.utf8ByteSize
    obtain ⟨s', hs', hlocates⟩ := functionEmitter_locates hconstants hfunction hs
    exact ⟨_, _, by rw [FunctionEmitter.emit, hs]; rfl, by rw [FunctionEmitter.emit, hs']; rfl, hlocates⟩
  obtain ⟨texts, texts', functions, functions', htexts, htexts', hlines, hlines', -, hlast⟩ :=
    functions_locate _ _ (functionChecks checked.program) hlocated
  have hfunctions : checked.program.functions ≠ [] := by
    intro hnil
    have hlength := checked.entryPoints .update (by simp)
    rw [hnil] at hlength
    simp at hlength
  obtain ⟨body, body', rfl, rfl, hbody⟩ := hlast hfunctions
  let paths := (sources.map fun source => SourceLocation.SourceFile.add source.1 source.2).zipIdx
  have hfront := frontLines_locate checked.program targetTriple
    (forall_of_mapM hbuiltins fun _ hbuiltin _ => builtinLine_isLocationLine hbuiltin)
    (declarations_locate paths : Locates sources [] _ _)
    (forall_of_mapM hstructs fun _ _ _ => structLine_isLocationLine)
    (forall_of_mapM haggregates fun _ _ _ => constantLine_isLocationLine)
    (forall_of_mapM hglobals fun _ _ _ => globalLine_isLocationLine)
  have hlocates := hfront.append hbody
  rw [List.nil_append] at hlocates
  refine ⟨_, emitProgram_eq hconstants hbuiltins hstructs haggregates hglobals htexts rfl hlines, ?_,
    ?_, ?_, fun front back line heq hline => hlocates.report heq hline⟩
  · rw [← hlocates.filter_eq]
    exact emitProgram_eq hconstants hbuiltins hstructs haggregates hglobals htexts' rfl hlines'
  · intro id path text hsource
    have hpath : (SourceLocation.SourceFile.add path text, id) ∈ paths := by
      rw [List.mem_zipIdx_iff_getElem?, List.getElem?_map, hsource]
      rfl
    have hline := List.mem_map_of_mem (f := fun source : SourceLocation.SourceFile × ℕ =>
      EmbeddedData.sourceLine source.2 source.1.path) hpath
    exact List.mem_append_left _ (mem_frontLines (List.mem_cons_of_mem _ hline))
  · rwa [← hlocates.filter_eq]

end Accepted

theorem development_locates_sample : ∃ program' lines,
    @check softFloat Sample.program = .ok program' ∧
    @emitProgram program' none (.located [.add "game.speck".toList []]) = some (unlines lines) ∧
    @emitProgram program' none .plain = some (unlines (lines.filter (!isLocationLine ·))) := by
  let _ : F32Primitives := softFloat
  obtain ⟨program', h⟩ := Sample.accepted
  obtain ⟨lines, hlocated, hplain, -⟩ := development_locates Sample.isWritten h none
    [("game.speck".toList, [])] (by decide)
  exact ⟨program', lines, h, hlocated, hplain⟩

end Emitter

end Speck
