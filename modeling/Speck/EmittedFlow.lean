import Speck.EmittedBlocks
import Speck.EmitterTotality

/-!
# Emitted flow

What control can reach in the text of a function. A function that was emitted consists of blocks, each
with one terminator at its end (`emitLines_runs`), and control comes to a block at the start of the
function or through a branch (`Reaches`). The checker and the emitter agree on what returns : a block
of statements ends with a terminator exactly if `blockReturns` holds of it, so that no `unreachable`
stands where control can come to, but behind the call that ends the game (`return_flow_agrees`).
-/

namespace Speck

namespace Emitter

/-! ## Functions -/

/-- The start of a function. -/
def Config.start (header : Text) : Config where
  state := ⟨[∅], [.define header, .label .entry], 0, 0, .entry, false⟩
  available := ∅
  info := fun _ => ⟨"", ∅, .closed, []⟩
  blocks := ⟨[], .entry, [], none⟩

/-- What holds in every state of the emission of a function. -/
structure Formed (c : Config) : Prop where
  laid : Laid c
  linked : Linked c
  guarded : Guarded c

theorem Formed.start (header : Text) : Formed (Config.start header) where
  laid := ⟨⟨header, rfl⟩, rfl, rfl, nofun, rfl, List.nodup_singleton _,
    fun stage n => by simp [Config.start, Blocks.labels, Blocks.toList]⟩
  linked := ⟨by simp [Config.start, Blocks.edges, Blocks.toList, Block.targets], nofun⟩
  guarded := by simp [Guarded, Config.start, Blocks.toList]

theorem Formed.steps {c c' : Config} (h : Formed c) (hsteps : Steps c c') : Formed c' := by
  induction hsteps with
  | refl => exact h
  | tail _ hstep ih =>
    exact ⟨ih.laid.step hstep, ih.linked.step ih.laid hstep, ih.guarded.step ih.laid hstep⟩

namespace FunctionEmitter

variable {f : FunctionEmitter}

theorem exists_of_expect_bind {α β : Type} {value : Option α} {m : α → EmitM β} {s : State}
    {r : β × State} (h : (expect value >>= m) s = some r) : ∃ a, value = some a ∧ m a s = some r := by
  cases value with
  | none => cases h
  | some a => exact ⟨a, rfl, h⟩

/-- A function that was emitted took steps from its start, and its last block has its terminator. -/
theorem emitLines_runs (hf : f.Fixed)
    (hreturns : f.function.returnType ≠ .void → blockReturns f.function.body) {titleLength : ℕ}
    {s : State} (h : f.emitLines titleLength .new = some ((), s)) :
    ∃ header c, Steps (.start header) c ∧ Keeps (.start header) [] c ∧
      c.state.terminated = true ∧ s.lines = c.state.lines ++ [.close] := by
  unfold emitLines at h
  obtain ⟨headerParams, -, h⟩ := exists_of_expect_bind h
  obtain ⟨returnType, -, h⟩ := exists_of_expect_bind h
  set header := "define ".toList ++ returnType ++ " @".toList ++ f.symbol ++ "(".toList ++
    headerParams ++ ") \x7b".toList
  set c₀ := Config.start header
  have hready₀ : Ready c₀ := ⟨rfl, by simp [c₀, Config.start, Scoped]⟩
  let rest : EmitM Unit := do
    params 0 f.function.params
    f.statements f.function.body
    if (← get).terminated then pure ()
    else if f.function.returnType = ReturnType.void then terminate ["ret void"]
    else terminate ["unreachable"]
    pushLine .close
  change (if f.function.kind = .start then instruction _ >>= fun _ => rest
    else rest : EmitM Unit) c₀.state = _ at h
  have hstart : ∃ c₁, Steps c₀ c₁ ∧ Ends c₀ false c₁ ∧ c₁.state.currentBlock = .entry ∧
      rest c₁.state = some ((), s) := by
    split_ifs at h
    · have hinit := Extends.instruction (c := c₀) (.refl rfl)
        ["call void @crumb_storage_init(ptr @spk_storage_identity_data, i64 ",
          decimalText titleLength, ")"]
      obtain ⟨_, c₁, hsteps₁, ⟨h₁, hentry⟩, h⟩ := (Runs.instruction (c := c₀)
        (Q := fun _ c' => Extends c₀ c' ∧ c'.state.currentBlock = .entry) rfl (by simp) ⟨rfl, rfl⟩
        ⟨hinit, rfl⟩).rest h
      exact ⟨c₁, hsteps₁, h₁.ends hready₀, hentry, h⟩
    · exact ⟨c₀, .refl, (Extends.refl rfl).ends hready₀, rfl, h⟩
  obtain ⟨c₁, hsteps₁, h₁, hentry, h⟩ := hstart
  obtain ⟨_, c₂, hsteps₂, h₂, h⟩ := (params_runs 0 f.function.params h₁.ready hentry).rest h
  obtain ⟨_, c₃, hsteps₃, h₃, h⟩ := (statements_runs hf f.function.body h₂.ready).rest h
  have hext := (h₁.trans h₂).trans h₃
  have hsteps := (hsteps₁.trans hsteps₂).trans hsteps₃
  change (if c₃.state.terminated = true then _ else if f.function.returnType = ReturnType.void then _
    else _ : EmitM Unit) c₃.state = _ at h
  split_ifs at h with hterminated hvoid
  · obtain ⟨-, rfl⟩ := Prod.mk.inj (Option.some.inj h)
    exact ⟨header, c₃, hsteps, hext.keeps, hterminated, rfl⟩
  · have hrunning : c₃.state.terminated = false := by simpa using hterminated
    obtain ⟨-, rfl⟩ := Prod.mk.inj (Option.some.inj h)
    refine ⟨header, c₃.terminate ["ret void"], hsteps.tail ?_, hext.keeps.terminate (by simp), rfl,
      rfl⟩
    refine .terminate hrunning (by simp) rfl (by simp) (by simp) fun h => ?_
    simp [unreachableParts] at h
  · exact absurd (h₃.terminated.trans (hreturns hvoid)) hterminated

end FunctionEmitter

/-! ## Control -/

/-- Control can come to a block : it is the first one, or a block that control can come to ends with a
branch to it. -/
inductive Reaches (lines : List Line) : Label → Prop
  | entry : Reaches lines .entry
  | branch {front back : List Line} {body : List Instruction} {i : Instruction} {block next : Label} :
    Reaches lines block →
    lines = front ++ .label block :: (body.map Line.instruction ++ .terminator i :: back) →
    next ∈ labelsOf i.parts → Reaches lines next

/-- Where a list that begins without `a` is split at an `a`, the split is behind that beginning. -/
theorem exists_of_append_eq {α : Type} {a : α} {front rest before after : List α} (h : a ∉ front)
    (heq : front ++ rest = before ++ a :: after) :
    ∃ middle, before = front ++ middle ∧ rest = middle ++ a :: after := by
  rcases List.append_eq_append_iff.mp heq with ⟨middle, hbefore, hrest⟩ | ⟨middle, hfront, hrest⟩
  · exact ⟨middle, hbefore, hrest⟩
  · cases middle with
    | nil => exact ⟨[], by simpa using hfront.symm, by simpa using hrest.symm⟩
    | cons b middle =>
      obtain ⟨rfl, -⟩ := List.cons.inj hrest
      exact absurd (hfront ▸ List.mem_append_right _ List.mem_cons_self) h

/-- A terminator in the text of blocks ends one of them. -/
theorem exists_of_terminator {blocks : List Block} {rest front back : List Line} {i : Instruction}
    (hrest : .terminator i ∉ rest)
    (h : blocks.flatMap Block.lines ++ rest = front ++ .terminator i :: back) :
    ∃ block ∈ blocks, block.terminator = some i ∧
      ∃ front', front = front' ++ (.label block.label :: block.body.map Line.instruction) := by
  induction blocks generalizing front with
  | nil =>
    have hmem : .terminator i ∈ rest := by
      have h : rest = front ++ .terminator i :: back := h
      rw [h]
      exact List.mem_append_right _ List.mem_cons_self
    exact absurd hmem hrest
  | cons block blocks ih =>
    have hbody : Line.terminator i ∉ Line.label block.label :: block.body.map Line.instruction := by
      simp
    rw [List.flatMap_cons, Block.lines, ← List.cons_append, List.append_assoc, List.append_assoc] at h
    obtain ⟨middle, rfl, hmiddle⟩ := exists_of_append_eq hbody h
    cases hterminator : block.terminator with
    | none =>
      rw [hterminator] at hmiddle
      obtain ⟨block', hblock', hi, front', rfl⟩ := ih hmiddle
      exact ⟨block', List.mem_cons_of_mem _ hblock', hi, _, (List.append_assoc _ _ _).symm⟩
    | some j =>
      rw [hterminator] at hmiddle
      cases middle with
      | nil =>
        obtain ⟨hj, -⟩ := List.cons.inj hmiddle
        obtain rfl := Line.terminator.inj hj
        exact ⟨block, List.mem_cons_self, hterminator, [], by simp⟩
      | cons line middle =>
        obtain ⟨-, hmiddle⟩ := List.cons.inj hmiddle
        obtain ⟨block', hblock', hi, front', rfl⟩ := ih hmiddle
        refine ⟨block', List.mem_cons_of_mem _ hblock', hi,
          Line.label block.label :: block.body.map Line.instruction ++ line :: front', ?_⟩
        simp

/-- A branch in the text of a function is to a label that notes it. -/
theorem Formed.preds_ne_nil {c : Config} (h : Formed c) {front back : List Line} {i : Instruction}
    {label : Label} (hlines : c.blocks.lines ++ [.close] = front ++ .terminator i :: back)
    (hlabel : label ∈ labelsOf i.parts) : ∃ n < c.state.nextLabel,
      label = .numbered (c.info n).stage n ∧ (c.info n).preds ≠ [] := by
  obtain ⟨block, hblock, hterminator, -⟩ := exists_of_terminator (by simp) hlines
  have hedge : (block.label, block.targets) ∈ c.blocks.edges := List.mem_map_of_mem hblock
  have htarget : label ∈ block.targets := by
    rw [Block.targets, hterminator]
    exact hlabel
  obtain ⟨n, hlt, rfl⟩ := h.linked.targets _ hedge _ htarget
  refine ⟨n, hlt, rfl, fun hnone => ?_⟩
  have hpreds := h.linked.preds n hlt
  rw [hnone, List.map_nil, eq_comm, List.map_eq_nil_iff] at hpreds
  exact absurd (List.filter_eq_nil_iff.mp hpreds _ hedge) (by simpa using htarget)

/-- An `unreachable` is behind a call that does not come back, or its block has nothing else and
control does not come to it. -/
def GuardedIn (lines front : List Line) : Prop :=
  (∃ call, FailureCall call ∧ front.getLast? = some (.instruction ⟨none, call⟩)) ∨
    ∃ label, front.getLast? = some (.label label) ∧ ¬Reaches lines label

theorem Formed.guardedIn {c : Config} (h : Formed c) {front back : List Line}
    (hlines : c.state.lines ++ [.close] = front ++ .terminator ⟨none, unreachableParts⟩ :: back) :
    GuardedIn (c.state.lines ++ [.close]) front := by
  obtain ⟨header, heq⟩ := h.laid.lines
  rw [heq] at hlines ⊢
  have hnot : ∀ i, Line.terminator i ∉ [Line.define header] := by simp
  obtain ⟨front, rfl, hlines'⟩ := exists_of_append_eq (hnot _) hlines
  obtain ⟨block, hblock, hterminator, front', rfl⟩ := exists_of_terminator (by simp) hlines'
  rcases h.guarded block hblock hterminator with ⟨call, hcall, hlast⟩ | ⟨hbody, stage, n, hlabel, hn⟩
  · refine .inl ⟨call, hcall, ?_⟩
    simp [List.getLast?_append, List.getLast?_cons, List.getLast?_map, hlast]
  · refine .inr ⟨.numbered stage n, ?_, fun hreaches => ?_⟩
    · simp [hbody, hlabel, List.getLast?_append, List.getLast?_cons]
    · cases hreaches with
      | @branch front back body i block next _ htext hnext =>
        rw [← List.cons_append, ← List.append_assoc] at htext
        obtain ⟨middle, -, hmiddle⟩ := exists_of_append_eq (hnot _) htext
        obtain ⟨m, -, hm, hpreds⟩ := h.preds_ne_nil hmiddle hnext
        obtain ⟨-, rfl⟩ := Label.numbered.inj hm
        exact hpreds hn.preds_eq

/-! ## Checked programs -/

theorem functionEmitter_fixed (program : Program) (constants : List (Constant × ConstantValue))
    (diagnostics : EmbeddedData.RuntimeDiagnostics) (function : Function) :
    (functionEmitter program constants diagnostics function).Fixed := by
  intro name place h
  rcases HashMap.mem_of_lookup_extend h with h | h
  · obtain ⟨constant, -, heq⟩ := List.mem_map.mp h
    obtain ⟨-, rfl⟩ := Prod.mk.inj heq
    exact ⟨_, rfl⟩
  · obtain ⟨global, -, heq⟩ := List.mem_map.mp (HashMap.mem_of_lookup_ofList h)
    obtain ⟨-, rfl⟩ := Prod.mk.inj heq
    exact ⟨_, rfl⟩

/-- What a part that runs says of the flag, it says from every state without a terminator. -/
theorem terminated_of_runs {m : EmitM Unit} {returns : Bool} {s s' : State}
    (hm : ∀ {c}, Ready c → Runs m c fun _ => Ends c returns) (hrunning : s.terminated = false)
    (h : m s = some ((), s')) : s'.terminated = returns := by
  -- which temporaries are defined does not matter for the flag
  let c : Config := ⟨s, Set.univ, fun _ => ⟨"", ∅, .closed, []⟩, ⟨[], .entry, [], none⟩⟩
  have hlocals : Scoped s.scopes Set.univ := fun scope _ _ place _ => by
    cases place.pointer with
    | temp number => exact Set.mem_univ number
    | text _ => trivial
  obtain ⟨c', rfl, -, hends⟩ := hm (c := c) ⟨hrunning, hlocals⟩ () s' h
  exact hends.terminated

/-- A statement ends with a terminator exactly if the checker says that it returns. -/
theorem statement_terminated {f : FunctionEmitter} (hf : f.Fixed) {statement : Stmt} {s s' : State}
    (hrunning : s.terminated = false) (h : f.statement statement s = some ((), s')) :
    s'.terminated = statement.returns :=
  terminated_of_runs (FunctionEmitter.statement_runs hf statement) hrunning h

/-- A block of statements ends with a terminator exactly if the checker says that it returns. -/
theorem statements_terminated {f : FunctionEmitter} (hf : f.Fixed) {block : List Stmt} {s s' : State}
    (hrunning : s.terminated = false) (h : f.statements block s = some ((), s')) :
    s'.terminated = blockReturns block :=
  terminated_of_runs (FunctionEmitter.statements_runs hf block) hrunning h

section Accepted

variable [F32Primitives] {program program' : Program}

/-- In an accepted program, the emitter ends a block of statements with a terminator exactly if the
checker says that the block returns. So no `unreachable` of a function is where control can come to,
but behind the call that ends the game : not at the end of a function with a result, and not behind
an `if` whose branches both return. -/
theorem return_flow_agrees (hwritten : program.IsWritten) (h : check program = .ok program')
    {constants : List (Constant × ConstantValue)}
    (hconstants : constantValues program' = some constants) {function : Function}
    (hfunction : function ∈ program'.functions) (titleLength : ℕ) :
    (∃ s, (functionEmitter program' constants .plain function).emitLines titleLength .new =
      some ((), s)) ∧
    ∀ diagnostics : EmbeddedData.RuntimeDiagnostics,
      (∀ (block : List Stmt) (s s' : State), s.terminated = false →
        (functionEmitter program' constants diagnostics function).statements block s =
          some ((), s') → (s'.terminated = true ↔ blockReturns block = true)) ∧
      ∀ s : State,
        (functionEmitter program' constants diagnostics function).emitLines titleLength .new =
          some ((), s) →
        ∀ front back, s.lines = front ++ .terminator ⟨none, unreachableParts⟩ :: back →
          GuardedIn s.lines front := by
  obtain ⟨checked, rfl, -, -, -⟩ := check_spec hwritten h
  refine ⟨functionEmitter_total hconstants .plain hfunction
    (fun span _ => FunctionEmitter.knows_plain rfl span) titleLength, fun diagnostics => ?_⟩
  have hf := functionEmitter_fixed checked.program constants diagnostics function
  refine ⟨fun block s s' hrunning hrun => ?_, fun s hrun front back hlines => ?_⟩
  · rw [statements_terminated hf hrunning hrun]
  · have htyped := checked.functions function hfunction
    obtain ⟨header, c, hsteps, -, -, heq⟩ := FunctionEmitter.emitLines_runs hf htyped.returns hrun
    rw [heq] at hlines ⊢
    exact ((Formed.start header).steps hsteps).guardedIn hlines

end Accepted

theorem return_flow_agrees_sample : ∃ program' constants function,
    @check softFloat Sample.program = .ok program' ∧ function ∈ program'.functions ∧
      (∃ s, (functionEmitter program' constants .plain function).emitLines 0 .new = some ((), s)) ∧
      ∀ (block : List Stmt) (s s' : State), s.terminated = false →
        (functionEmitter program' constants .plain function).statements block s = some ((), s') →
        (s'.terminated = true ↔ blockReturns block = true) := by
  let _ : F32Primitives := softFloat
  obtain ⟨program', h⟩ := Sample.accepted
  obtain ⟨checked, hchecked, -⟩ := check_spec Sample.isWritten h
  have hlength := checked.entryPoints .update (by simp)
  obtain ⟨function, hupdate⟩ := List.exists_mem_of_length_pos (hlength ▸ Nat.one_pos)
  have hfunction := (List.mem_filter.mp hupdate).1
  obtain ⟨constants, hconstants⟩ := exists_constantValues checked
  rw [hchecked] at hfunction hconstants
  obtain ⟨hemitted, hflow⟩ := return_flow_agrees Sample.isWritten h hconstants hfunction 0
  exact ⟨program', constants, function, h, hfunction, hemitted, (hflow .plain).1⟩

end Emitter

end Speck
