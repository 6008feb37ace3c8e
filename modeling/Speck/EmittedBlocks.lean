import Speck.EmittedStatements

/-!
# Emitted blocks

What holds of the blocks of a function in every state of its emission. `Laid` : the lines are those of
the blocks, every block but the current one has its terminator, and the labels of the blocks are those
that were placed, each once. `Linked` : a branch goes to a label of the function, and the blocks that
branch to a label are those that were noted. `Guarded` : an `unreachable` ends a block only behind a
call that does not come back, or in an empty block without a branch to it.
-/

set_option linter.unusedSectionVars false

namespace Speck

namespace Emitter

/-! ## Lists of blocks -/

namespace Blocks

variable (b : Blocks)

def labels : List Label := b.toList.map (·.label)

/-- The blocks with the blocks that they branch to. -/
def edges : List (Label × List Label) := b.toList.map fun block => (block.label, block.targets)

def lines : List Line := b.toList.flatMap Block.lines

/-- Something that an instruction more does not change. -/
theorem map_append {α : Type} (g : Block → α) (i : Instruction)
    (h : ∀ block : Block, g (block.append i) = g block) :
    (b.append i).toList.map g = b.toList.map g := by
  simp [toList, h]

theorem map_prepend {α : Type} (g : Block → α) (i : Instruction)
    (h : ∀ block : Block, g (block.prepend i) = g block) :
    (b.prepend i).toList.map g = b.toList.map g := by
  obtain ⟨done, current⟩ := b
  cases done <;> simp [toList, prepend, h]

@[simp]
theorem labels_append (i : Instruction) : (b.append i).labels = b.labels :=
  b.map_append _ i fun _ => rfl

@[simp]
theorem labels_prepend (i : Instruction) : (b.prepend i).labels = b.labels :=
  b.map_prepend _ i fun _ => rfl

@[simp]
theorem labels_close (i : Instruction) : (b.close i).labels = b.labels := by
  simp [labels, toList]

@[simp]
theorem labels_place (label : Label) : (b.place label).labels = b.labels ++ [label] := by
  simp [labels, toList]

@[simp]
theorem edges_append (i : Instruction) : (b.append i).edges = b.edges :=
  b.map_append _ i fun _ => rfl

@[simp]
theorem edges_prepend (i : Instruction) : (b.prepend i).edges = b.edges :=
  b.map_prepend _ i fun _ => rfl

theorem edges_close (i : Instruction) :
    (b.close i).edges = b.done.map (fun block => (block.label, block.targets)) ++
      [(b.current.label, labelsOf i.parts)] := by
  simp [edges, toList, Block.targets]

@[simp]
theorem edges_place (label : Label) : (b.place label).edges = b.edges ++ [(label, [])] := by
  simp [edges, toList, Block.targets]

variable {b}

theorem lines_append (h : b.current.terminator = none) (i : Instruction) :
    (b.append i).lines = b.lines ++ [.instruction i] := by
  simp [lines, toList, Block.lines, h]

theorem lines_close (h : b.current.terminator = none) (i : Instruction) :
    (b.close i).lines = b.lines ++ [.terminator i] := by
  simp [lines, toList, Block.lines, h]

theorem lines_place (label : Label) : (b.place label).lines = b.lines ++ [.label label] := by
  simp [lines, toList, Block.lines]

theorem lines_prepend (i : Instruction) : ∃ first rest, b.lines = .label first :: rest ∧
    (b.prepend i).lines = .label first :: .instruction i :: rest := by
  obtain ⟨done, current⟩ := b
  cases done with
  | nil =>
    refine ⟨current.label,
      current.body.map Line.instruction ++ current.terminator.toList.map Line.terminator, ?_, ?_⟩
    · simp [lines, toList, Block.lines]
    · simp [lines, toList, prepend, Block.lines]
  | cons first rest =>
    refine ⟨first.label, first.body.map Line.instruction ++
      (first.terminator.toList.map Line.terminator ++ lines ⟨rest, current⟩), ?_, ?_⟩
    · simp [lines, toList, Block.lines]
    · simp [lines, toList, prepend, Block.lines]

@[simp]
theorem current_prepend_label (i : Instruction) :
    (b.prepend i).current.label = b.current.label := by
  obtain ⟨done, current⟩ := b
  cases done <;> rfl

@[simp]
theorem current_prepend_terminator (i : Instruction) :
    (b.prepend i).current.terminator = b.current.terminator := by
  obtain ⟨done, current⟩ := b
  cases done <;> rfl

theorem map_done_prepend (i : Instruction) :
    (b.prepend i).done.map (·.terminator) = b.done.map (·.terminator) := by
  obtain ⟨done, current⟩ := b
  cases done <;> rfl

/-- Only the first block changes. -/
theorem mem_prepend {i : Instruction} {block : Block} (h : block ∈ (b.prepend i).toList) :
    block ∈ b.toList ∨ ∃ first, b.toList.head? = some first ∧ block = first.prepend i := by
  obtain ⟨done, current⟩ := b
  cases done with
  | nil => exact .inr ⟨current, rfl, by simpa [toList, prepend] using h⟩
  | cons first rest =>
    have h : block = first.prepend i ∨ block ∈ rest ++ [current] := by
      simpa [toList, prepend] using h
    rcases h with rfl | h
    · exact .inr ⟨first, rfl, rfl⟩
    · exact .inl (List.mem_cons_of_mem _ h)

end Blocks

/-! ## The text and the labels -/

/-- The lines are those of the blocks. -/
structure Laid (c : Config) : Prop where
  lines : ∃ header, c.state.lines = .define header :: c.blocks.lines
  label : c.blocks.current.label = c.state.currentBlock
  closed : c.blocks.current.terminator.isSome = c.state.terminated
  done : ∀ block ∈ c.blocks.done, block.terminator.isSome = true
  entry : c.blocks.labels.head? = some .entry
  nodup : c.blocks.labels.Nodup
  placed : ∀ stage n, .numbered stage n ∈ c.blocks.labels ↔
    n < c.state.nextLabel ∧ (c.info n).stage = stage ∧ (c.info n).status ≠ .pending

namespace Laid

variable {c : Config}

theorem terminator_eq (h : Laid c) (hrunning : c.state.terminated = false) :
    c.blocks.current.terminator = none := by
  have hclosed := h.closed
  rw [hrunning] at hclosed
  exact Option.not_isSome_iff_eq_none.mp (by simp [hclosed])

theorem append (h : Laid c) {c' : Config} (i : Instruction) (hrunning : c.state.terminated = false)
    (hlines : c'.state.lines = c.state.lines ++ [.instruction i])
    (hblock : c'.state.currentBlock = c.state.currentBlock)
    (hnext : c'.state.nextLabel = c.state.nextLabel) (hinfo : c'.info = c.info)
    (hterminated : c'.state.terminated = c.state.terminated) (hblocks : c'.blocks = c.blocks.append i) :
    Laid c' where
  lines := by
    obtain ⟨header, heq⟩ := h.lines
    refine ⟨header, ?_⟩
    rw [hlines, heq, hblocks, Blocks.lines_append (h.terminator_eq hrunning)]
    rfl
  label := by rw [hblocks, hblock, ← h.label]; rfl
  closed := by rw [hblocks, hterminated, ← h.closed]; rfl
  done := by rw [hblocks]; exact h.done
  entry := by rw [hblocks, Blocks.labels_append]; exact h.entry
  nodup := by rw [hblocks, Blocks.labels_append]; exact h.nodup
  placed := by rw [hblocks, Blocks.labels_append, hnext, hinfo]; exact h.placed

theorem place (h : Laid c) {stage : String} {number : ℕ} (status : Status)
    (hterminated : c.state.terminated = true) (hpending : c.Pending stage number)
    (hstatus : status ≠ .pending) : Laid (c.placeLabel stage number status) where
  lines := by
    obtain ⟨header, heq⟩ := h.lines
    refine ⟨header, ?_⟩
    rw [Config.placeLabel_state_lines, heq, Config.placeLabel_blocks, Blocks.lines_place]
    rfl
  label := rfl
  closed := rfl
  done block hblock := by
    rcases List.mem_append.mp hblock with hblock | hblock
    · exact h.done block hblock
    · rw [List.mem_singleton.mp hblock, h.closed, hterminated]
  entry := by
    rw [Config.placeLabel_blocks, Blocks.labels_place, List.head?_append, h.entry]
    rfl
  nodup := by
    rw [Config.placeLabel_blocks, Blocks.labels_place]
    refine List.nodup_append.mpr ⟨h.nodup, List.nodup_singleton _, ?_⟩
    rintro label hlabel _ hmem rfl
    rw [List.mem_singleton.mp hmem] at hlabel
    exact ((h.placed _ _).mp hlabel).2.2 hpending.status_eq
  placed stage' n := by
    rw [Config.placeLabel_blocks, Blocks.labels_place, List.mem_append, h.placed,
      Config.placeLabel_info, Config.placeLabel_state_nextLabel, List.mem_singleton]
    by_cases heq : n = number
    · subst heq
      simp [hpending.lt, hpending.stage_eq, hpending.status_eq, hstatus, eq_comm]
    · rw [Function.update_of_ne heq]
      simp [heq]

theorem step {c' : Config} (h : Laid c) (hstep : Step c c') : Laid c' := by
  cases hstep with
  | instruction hrunning => exact h.append _ hrunning rfl rfl rfl rfl rfl rfl
  | define hrunning => exact h.append _ hrunning rfl rfl rfl rfl rfl rfl
  | paramAlloca ty hrunning => exact h.append _ hrunning rfl rfl rfl rfl rfl rfl
  | entryAlloca ty hrunning =>
    obtain ⟨header, heq⟩ := h.lines
    obtain ⟨first, rest, hfirst, hprepend⟩ := Blocks.lines_prepend (b := c.blocks)
      ⟨some c.state.nextTemp, ["alloca ", ty]⟩
    refine ⟨⟨header, ?_⟩, ?_, ?_, ?_, ?_, ?_, ?_⟩
    · rw [Config.entryAlloca_state_lines, heq, hfirst, Config.entryAlloca_blocks, hprepend]
      rfl
    · rw [Config.entryAlloca_blocks, Blocks.current_prepend_label]
      exact h.label
    · rw [Config.entryAlloca_blocks, Blocks.current_prepend_terminator]
      exact h.closed
    · intro block hblock
      have hterminator := List.mem_map_of_mem (f := Block.terminator) hblock
      rw [Config.entryAlloca_blocks, Blocks.map_done_prepend] at hterminator
      obtain ⟨block', hblock', heq⟩ := List.mem_map.mp hterminator
      rw [← heq]
      exact h.done block' hblock'
    · rw [Config.entryAlloca_blocks, Blocks.labels_prepend]
      exact h.entry
    · rw [Config.entryAlloca_blocks, Blocks.labels_prepend]
      exact h.nodup
    · rw [Config.entryAlloca_blocks, Blocks.labels_prepend]
      exact h.placed
  | newLabel stage =>
    refine ⟨h.lines, h.label, h.closed, h.done, h.entry, h.nodup, fun stage' n => ?_⟩
    rw [Config.newLabel_blocks, h.placed, Config.newLabel_info, Config.newLabel_state_nextLabel]
    by_cases heq : n = c.state.nextLabel
    · subst heq
      simp
    · rw [Function.update_of_ne heq, show n < c.state.nextLabel + 1 ↔ n < c.state.nextLabel by omega]
  | @terminate parts hrunning =>
    refine ⟨?_, h.label, rfl, h.done, ?_, ?_, fun stage n => ?_⟩
    · obtain ⟨header, heq⟩ := h.lines
      refine ⟨header, ?_⟩
      rw [Config.terminate_state_lines, heq, Config.terminate_blocks,
        Blocks.lines_close (h.terminator_eq hrunning)]
      rfl
    · rw [Config.terminate_blocks, Blocks.labels_close]
      exact h.entry
    · rw [Config.terminate_blocks, Blocks.labels_close]
      exact h.nodup
    · rw [Config.terminate_blocks, Blocks.labels_close, h.placed, Config.terminate_stage,
        Config.terminate_status]
      rfl
  | placeLabel status hterminated hpending hstatus => exact h.place status hterminated hpending hstatus
  | merge hterminated hpending hincoming =>
    exact (h.place .closed hterminated hpending nofun).append _ rfl rfl rfl rfl rfl rfl rfl
  | scopes scopes => exact ⟨h.lines, h.label, h.closed, h.done, h.entry, h.nodup, h.placed⟩

end Laid

/-! ## Branches -/

/-- A branch goes to a label of the function, and the blocks that branch to a label are noted. -/
structure Linked (c : Config) : Prop where
  targets : ∀ edge ∈ c.blocks.edges, ∀ label ∈ edge.2, ∃ n < c.state.nextLabel,
    label = .numbered (c.info n).stage n
  preds : ∀ n < c.state.nextLabel, (c.info n).preds.map (·.1) =
    (c.blocks.edges.filter fun edge => .numbered (c.info n).stage n ∈ edge.2).map (·.1)

/-- What a step does to the label of a block that is there. -/
theorem Step.info {c c' : Config} (h : Step c c') {n : ℕ} (hlt : n < c.state.nextLabel) :
    (c'.info n).stage = (c.info n).stage ∧ (c'.info n).reserved = (c.info n).reserved ∧
      ((c.info n).status = .closed → c'.info n = c.info n) := by
  cases h with
  | newLabel stage =>
    rw [Config.newLabel_info, Function.update_of_ne hlt.ne]
    exact ⟨rfl, rfl, fun _ => rfl⟩
  | terminate hrunning huses hopcode hnodup hlabels =>
    refine ⟨Config.terminate_stage .., Config.terminate_reserved .., fun hclosed => ?_⟩
    refine Config.terminate_info_of_notMem fun stage hmem => ?_
    obtain ⟨stage', n', heq, hbranch⟩ := hlabels _ hmem
    obtain ⟨-, rfl⟩ := Label.numbered.inj heq
    exact hbranch.status_ne hclosed
  | @placeLabel stage number status hterminated hpending =>
    rw [Config.placeLabel_info]
    by_cases heq : n = number
    · subst heq
      rw [Function.update_self]
      refine ⟨rfl, rfl, fun hclosed => ?_⟩
      rw [hpending.status_eq] at hclosed
      cases hclosed
    · rw [Function.update_of_ne heq]
      exact ⟨rfl, rfl, fun _ => rfl⟩
  | @merge stage number ty incoming hterminated hpending =>
    rw [Config.define_info, Config.placeLabel_info]
    by_cases heq : n = number
    · subst heq
      rw [Function.update_self]
      refine ⟨rfl, rfl, fun hclosed => ?_⟩
      rw [hpending.status_eq] at hclosed
      cases hclosed
    · rw [Function.update_of_ne heq]
      exact ⟨rfl, rfl, fun _ => rfl⟩
  | _ => exact ⟨rfl, rfl, fun _ => rfl⟩

/-- A label that is named is branched to once. -/
theorem foldl_branch_self {block : Label} {available : Set ℕ} {labels : List Label}
    {info : ℕ → LabelInfo} {stage : String} {n : ℕ} (hnodup : labels.Nodup)
    (hstage : ∀ stage', .numbered stage' n ∈ labels → stage' = stage)
    (hmem : .numbered stage n ∈ labels) : labels.foldl (branch block available) info n =
      { info n with preds := (info n).preds ++ [(block, available)] } := by
  induction labels generalizing info with
  | nil => simp at hmem
  | cons label rest ih =>
    obtain ⟨hnew, hrest⟩ := List.nodup_cons.mp hnodup
    rw [List.foldl_cons]
    by_cases heq : label = .numbered stage n
    · subst heq
      rw [foldl_branch fun stage' hmem' => ?_, branch, Function.update_self]
      rw [hstage stage' (List.mem_cons_of_mem _ hmem')] at hmem'
      exact hnew hmem'
    · have hother : branch block available info label n = info n := by
        cases label with
        | entry => rfl
        | numbered stage' n' =>
          refine Function.update_of_ne (fun hn => heq ?_) _ _
          subst hn
          rw [hstage stage' List.mem_cons_self]
      have hmem : .numbered stage n ∈ rest :=
        (List.mem_cons.mp hmem).resolve_left fun h => heq h.symm
      rw [ih hrest (fun stage' h => hstage stage' (List.mem_cons_of_mem _ h)) hmem, hother]

namespace Linked

variable {c c' : Config}

theorem same (h : Linked c) (hnext : c'.state.nextLabel = c.state.nextLabel)
    (hinfo : c'.info = c.info) (hedges : c'.blocks.edges = c.blocks.edges) : Linked c' where
  targets := by rw [hnext, hinfo, hedges]; exact h.targets
  preds := by rw [hnext, hinfo, hedges]; exact h.preds

theorem place (h : Linked c) {stage : String} {number : ℕ} (status : Status) :
    Linked (c.placeLabel stage number status) := by
  have hinfo : ∀ n, (c.placeLabel stage number status).info n =
      { c.info n with status := ((c.placeLabel stage number status).info n).status } := fun n => by
    rw [Config.placeLabel_info]
    by_cases heq : n = number
    · subst heq
      rw [Function.update_self]
    · rw [Function.update_of_ne heq]
  refine ⟨?_, fun n hlt => ?_⟩
  · rw [Config.placeLabel_blocks, Blocks.edges_place, List.forall_mem_append]
    refine ⟨fun edge hedge label hlabel => ?_, by simp⟩
    obtain ⟨n, hlt, rfl⟩ := h.targets edge hedge label hlabel
    exact ⟨n, hlt, by rw [hinfo]⟩
  · rw [Config.placeLabel_blocks, Blocks.edges_place, hinfo, List.filter_append, h.preds n hlt]
    simp

theorem step (hlaid : Laid c) (h : Linked c) (hstep : Step c c') : Linked c' := by
  cases hstep with
  | instruction => exact h.same rfl rfl (Blocks.edges_append _ _)
  | define => exact h.same rfl rfl (Blocks.edges_append _ _)
  | paramAlloca => exact h.same rfl rfl (Blocks.edges_append _ _)
  | entryAlloca => exact h.same rfl rfl (Blocks.edges_prepend _ _)
  | scopes => exact h.same rfl rfl rfl
  | newLabel stage =>
    have hinfo : ∀ n < c.state.nextLabel, (c.newLabel stage).info n = c.info n := fun n hlt => by
      rw [Config.newLabel_info, Function.update_of_ne hlt.ne]
    refine ⟨fun edge hedge label hlabel => ?_, fun n hlt => ?_⟩
    · obtain ⟨n, hlt, rfl⟩ := h.targets edge hedge label hlabel
      exact ⟨n, hlt.trans (Nat.lt_succ_self _), by rw [hinfo n hlt]⟩
    · rcases Nat.lt_succ_iff_lt_or_eq.mp hlt with hlt | rfl
      · rw [hinfo n hlt]
        exact h.preds n hlt
      · have hnone : c.blocks.edges.filter (fun edge => .numbered
            ((c.newLabel stage).info c.state.nextLabel).stage c.state.nextLabel ∈ edge.2) = [] := by
          refine List.filter_eq_nil_iff.mpr fun edge hedge hmem => ?_
          obtain ⟨n, hlt, heq⟩ := h.targets edge hedge _ (of_decide_eq_true hmem)
          exact hlt.ne (Label.numbered.inj heq).2.symm
        rw [Config.newLabel_blocks, hnone]
        simp
  | @terminate parts hrunning huses hopcode hnodup hlabels =>
    have hedges : c.blocks.edges = c.blocks.done.map (fun block => (block.label, block.targets)) ++
        [(c.blocks.current.label, [])] := by
      simp [Blocks.edges, Blocks.toList, Block.targets, hlaid.terminator_eq hrunning]
    obtain ⟨htargets, hpreds⟩ := h
    rw [hedges] at htargets hpreds
    refine ⟨?_, fun n hlt => ?_⟩
    · rw [Config.terminate_blocks, Blocks.edges_close, List.forall_mem_append]
      refine ⟨fun edge hedge label hlabel => ?_, ?_⟩
      · obtain ⟨n, hlt, rfl⟩ := htargets edge (List.mem_append_left _ hedge) label hlabel
        exact ⟨n, hlt, by rw [Config.terminate_stage]⟩
      · simp only [List.mem_singleton, forall_eq]
        intro label hlabel
        obtain ⟨stage, n, rfl, hbranch⟩ := hlabels label hlabel
        exact ⟨n, hbranch.lt, by rw [Config.terminate_stage, hbranch.stage_eq]⟩
    · have hpreds := hpreds n hlt
      rw [Config.terminate_blocks, Blocks.edges_close, Config.terminate_stage, List.filter_append,
        List.map_append]
      rw [List.filter_append, List.map_append] at hpreds
      by_cases hmem : .numbered (c.info n).stage n ∈ labelsOf parts
      · have hbranched : (c.terminate parts).info n = { c.info n with
            preds := (c.info n).preds ++ [(c.state.currentBlock, c.available)] } := by
          refine foldl_branch_self hnodup (fun stage hstage => ?_) hmem
          obtain ⟨stage', n', heq, hbranch⟩ := hlabels _ hstage
          obtain ⟨rfl, rfl⟩ := Label.numbered.inj heq
          exact hbranch.stage_eq.symm
        rw [hbranched, List.map_append, hpreds]
        simp [hmem, hlaid.label]
      · have hbranched : (c.terminate parts).info n = c.info n := by
          refine Config.terminate_info_of_notMem fun stage hstage => ?_
          obtain ⟨stage', n', heq, hbranch⟩ := hlabels _ hstage
          obtain ⟨rfl, rfl⟩ := Label.numbered.inj heq
          exact hmem (hbranch.stage_eq ▸ hstage)
        rw [hbranched, hpreds]
        simp [hmem]
  | placeLabel status => exact h.place status
  | merge => exact (h.place .closed).same rfl rfl (Blocks.edges_append _ _)

end Linked

/-! ## Ends that are not reached -/

/-- The end of the block is behind a call that does not come back, or the block is empty and no branch
goes to it. -/
def Config.Guards (c : Config) (block : Block) : Prop :=
  (∃ call, FailureCall call ∧ block.body.getLast? = some ⟨none, call⟩) ∨
    block.body = [] ∧ ∃ stage n, block.label = .numbered stage n ∧ c.Unreached stage n

/-- Every `unreachable` is guarded. -/
def Guarded (c : Config) : Prop :=
  ∀ block ∈ c.blocks.toList, block.terminator = some ⟨none, unreachableParts⟩ → c.Guards block

theorem Config.Unreached.step {c c' : Config} {stage : String} {n : ℕ} (h : c.Unreached stage n)
    (hstep : Step c c') : c'.Unreached stage n := by
  obtain ⟨hstage, -, hclosed⟩ := hstep.info h.lt
  have hinfo := hclosed h.status_eq
  have hnext : c.state.nextLabel ≤ c'.state.nextLabel := by
    cases hstep with
    | newLabel => exact Nat.le_succ _
    | _ => exact le_rfl
  exact ⟨h.lt.trans_le hnext, by rw [hinfo, h.stage_eq], by rw [hinfo, h.status_eq],
    by rw [hinfo, h.preds_eq]⟩

theorem Config.Guards.step {c c' : Config} {block : Block} (h : c.Guards block)
    (hstep : Step c c') : c'.Guards block := by
  rcases h with h | ⟨hbody, stage, n, hlabel, hunreached⟩
  · exact .inl h
  · exact .inr ⟨hbody, stage, n, hlabel, hunreached.step hstep⟩

theorem Guarded.step {c c' : Config} (hlaid : Laid c) (h : Guarded c) (hstep : Step c c') :
    Guarded c' := by
  have hold : ∀ block ∈ c.blocks.toList, block.terminator = some ⟨none, unreachableParts⟩ →
      c'.Guards block := fun block hblock hterminator => (h block hblock hterminator).step hstep
  have hdone : ∀ block ∈ c.blocks.done, block.terminator = some ⟨none, unreachableParts⟩ →
      c'.Guards block := fun block hblock => hold block (List.mem_append_left _ hblock)
  have happend : ∀ {i : Instruction}, c.state.terminated = false →
      ∀ block ∈ (c.blocks.append i).toList, block.terminator = some ⟨none, unreachableParts⟩ →
        c'.Guards block := fun {i} hrunning block hblock hterminator => by
    rcases List.mem_append.mp hblock with hblock | hblock
    · exact hdone block hblock hterminator
    · obtain rfl := List.mem_singleton.mp hblock
      rw [Blocks.append_current, Block.append_terminator, hlaid.terminator_eq hrunning] at hterminator
      cases hterminator
  have hplace : ∀ {label : Label}, ∀ block ∈ (c.blocks.place label).toList,
      block.terminator = some ⟨none, unreachableParts⟩ → c'.Guards block :=
    fun block hblock hterminator => by
      rcases List.mem_append.mp hblock with hblock | hblock
      · exact hold block hblock hterminator
      · obtain rfl := List.mem_singleton.mp hblock
        cases hterminator
  cases hstep with
  | instruction hrunning => exact happend hrunning
  | define hrunning => exact happend hrunning
  | paramAlloca ty hrunning => exact happend hrunning
  | newLabel => exact hold
  | scopes => exact hold
  | placeLabel => exact hplace
  | merge =>
    intro block hblock hterminator
    rcases List.mem_append.mp hblock with hblock | hblock
    · exact hold block hblock hterminator
    · obtain rfl := List.mem_singleton.mp hblock
      cases hterminator
  | entryAlloca ty hrunning =>
    intro block hblock hterminator
    rcases Blocks.mem_prepend hblock with hblock | ⟨first, hfirst, rfl⟩
    · exact hold block hblock hterminator
    · have hmem : first ∈ c.blocks.toList := List.mem_of_mem_head? hfirst
      rcases hold first hmem hterminator with ⟨call, hcall, hlast⟩ | ⟨-, stage, n, hlabel, -⟩
      · refine .inl ⟨call, hcall, ?_⟩
        rw [Block.prepend_body, List.getLast?_cons, hlast]
        rfl
      · have hentry := hlaid.entry
        rw [Blocks.labels, List.head?_map, hfirst, Option.map_some, hlabel] at hentry
        cases hentry
  | terminate hrunning huses hopcode hnodup hlabels hstopped =>
    intro block hblock hterminator
    rcases List.mem_append.mp hblock with hblock | hblock
    · exact hdone block hblock hterminator
    obtain rfl := List.mem_singleton.mp hblock
    obtain rfl : _ = unreachableParts := by simpa using hterminator
    obtain ⟨line, hlast, hline⟩ := hstopped rfl
    obtain ⟨header, hlines⟩ := hlaid.lines
    have hcurrent : (c.blocks.current.lines).getLast? = some line := by
      rw [hlines, Blocks.lines, Blocks.toList, List.flatMap_append] at hlast
      simpa [Block.lines, List.getLast?_cons, List.getLast?_append] using hlast
    rw [Block.lines, hlaid.terminator_eq hrunning] at hcurrent
    rcases List.eq_nil_or_concat c.blocks.current.body with hbody | ⟨front, i, hbody⟩
    · obtain rfl : Line.label c.blocks.current.label = line := by simpa [hbody] using hcurrent
      refine .inr ⟨hbody, ?_⟩
      cases hlabel : c.blocks.current.label with
      | entry =>
        rw [hlabel] at hline
        exact hline.elim
      | numbered stage n =>
        rw [hlabel] at hline
        exact ⟨stage, n, hlabel, Config.Unreached.step hline
          (.terminate hrunning huses hopcode hnodup hlabels hstopped)⟩
    · obtain rfl : Line.instruction i = line := by
        simpa [hbody, List.getLast?_cons, List.getLast?_append] using hcurrent
      obtain ⟨_ | result, call⟩ := i
      · refine .inl ⟨call, hline, ?_⟩
        rw [Config.terminate_blocks, Blocks.close_current, Block.close_body, hbody,
          List.concat_eq_append]
        exact List.getLast?_concat
      · exact hline.elim

end Emitter

end Speck
