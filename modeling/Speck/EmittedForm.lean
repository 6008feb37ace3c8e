import Speck.EmittedDefinitions
import Speck.EmittedFlow
import Speck.FlowPaths

/-!
# Emitted functions

What a function is when its emission ends. The lines of a function are those of blocks that are
`WellFormed` : each block has its terminator, labels and temporaries have one definition each, a
branch goes to a block of the function, what is used is defined on every way to its use, a choice has
a value for each block that branches to its own, and storage is allocated in the first block only. It
holds of every function of an accepted program (`emitted_wellFormed`), from what holds in every state
of the emission (`Formed`, `Numbered`, `Bounded`, `Defined`).
-/

namespace Speck

namespace Emitter

/-! ## Functions in good form -/

/-- Control can go from the end of a block to the start of another. -/
def Edge (blocks : List Block) (a b : Label) : Prop :=
  ∃ block ∈ blocks, block.label = a ∧ b ∈ block.targets

/-- The blocks that branch to a label. -/
def predecessors (blocks : List Block) (label : Label) : List Label :=
  (blocks.filter fun block => label ∈ block.targets).map (·.label)

/-- Behind the first instructions of a block, a temporary is defined : it has its definition in one of
them, or in a block that every way from the start of the function to this block has left. -/
def Dominated (blocks : List Block) (t : ℕ) (label : Label) (front : List Instruction) : Prop :=
  ∃ home ∈ blocks, t ∈ resultsOf home.body ∧
    ∀ left, FlowGraph.Path .entry (Edge blocks) left label →
      t ∈ resultsOf front ∨ home.label ∈ left

/-- A choice at the start of a block has one value for each block that branches to it, and the value
is defined at the end of that block. -/
def ChoosesIn (blocks : List Block) (label : Label) (parts : List Part) : Prop :=
  ∃ ty incoming, parts = phiParts ty incoming ∧
    incoming.map (·.2) = predecessors blocks label ∧
    ∀ value ∈ incoming, value.1.label? = none ∧ ∀ t, value.1 = .operand (.temp t) →
      ∃ pred ∈ blocks, pred.label = value.2 ∧ Dominated blocks t pred.label pred.body

/-- The blocks of a function that LLVM accepts. -/
structure WellFormed (blocks : List Block) : Prop where
  entry : blocks.head?.map (·.label) = some .entry
  -- Each block ends with a terminator, and has no other.
  terminator : ∀ block ∈ blocks, ∃ parts, block.terminator = some ⟨none, parts⟩ ∧
    opcode parts = .terminator
  body : ∀ block ∈ blocks, ∀ i ∈ block.body, opcode i.parts ≠ .terminator
  -- The labels are distinct as they are written.
  labels : (blocks.map fun block => block.label.write).Nodup
  temps : (blocks.flatMap fun block => resultsOf block.body).Nodup
  targets : ∀ block ∈ blocks, ∀ label ∈ block.targets,
    label ≠ .entry ∧ label ∈ blocks.map (·.label)
  uses : ∀ block ∈ blocks, ∀ {front i back}, block.body = front ++ i :: back →
    opcode i.parts ≠ .phi → ∀ t, .operand (.temp t) ∈ i.parts →
      Dominated blocks t block.label front
  ends : ∀ block ∈ blocks, ∀ i ∈ block.terminator, ∀ t, .operand (.temp t) ∈ i.parts →
    Dominated blocks t block.label block.body
  choices : ∀ block ∈ blocks, ∀ {front i back}, block.body = front ++ i :: back →
    opcode i.parts = .phi → front = [] ∧ ChoosesIn blocks block.label i.parts
  storage : ∀ block ∈ blocks, ∀ i ∈ block.body, opcode i.parts = .storage → block.label = .entry

/-! ## Labels as they are written -/

/-- The number of a label stands behind its last underscore. -/
theorem Label.number_eq {stage stage' : String} {n n' : ℕ}
    (h : (numbered stage n).write = (numbered stage' n').write) : n = n' := by
  have hdigits (n : ℕ) : ∀ c ∈ (decimalText n).reverse, (c != '_') = true := fun c hc => by
    have hdigit := isAsciiDigit_of_mem_decimalText (List.mem_reverse.mp hc)
    rw [bne_iff_ne]
    rintro rfl
    cases hdigit
  have htake (stage : String) (n : ℕ) : (numbered stage n).write.reverse.takeWhile (· != '_') =
      (decimalText n).reverse := by
    rw [write, List.reverse_append, List.reverse_cons, List.append_assoc,
      List.takeWhile_append_of_pos (hdigits n)]
    simp
  have hreverse := (htake stage n).symm.trans ((congrArg _ (congrArg _ h)).trans (htake stage' n'))
  have htext := congrArg decimalValue (List.reverse_injective hreverse)
  rwa [decimalValue_decimalText, decimalValue_decimalText] at htext

theorem Label.entry_ne_numbered (stage : String) (n : ℕ) :
    Label.entry.write ≠ (numbered stage n).write := by
  intro h
  have hmem : '_' ∈ (numbered stage n).write := List.mem_append_right _ List.mem_cons_self
  rw [← h] at hmem
  revert hmem
  decide

/-- Labels of the same number are the same, so that no two labels are written in the same way. -/
theorem Laid.labels_write {c : Config} (h : Laid c) :
    (c.blocks.toList.map fun block => block.label.write).Nodup := by
  have hmap : c.blocks.toList.map (fun block => block.label.write) =
      c.blocks.labels.map Label.write := by
    rw [Blocks.labels, List.map_map]
    rfl
  rw [hmap]
  refine h.nodup.map_on fun label hlabel label' hlabel' heq => ?_
  cases label with
  | entry =>
    cases label' with
    | entry => rfl
    | numbered stage' n' => exact absurd heq (Label.entry_ne_numbered stage' n')
  | numbered stage n =>
    cases label' with
    | entry => exact absurd heq.symm (Label.entry_ne_numbered stage n)
    | numbered stage' n' =>
      obtain rfl := Label.number_eq heq
      rw [← ((h.placed stage n).mp hlabel).2.1, ← ((h.placed stage' n).mp hlabel').2.1]

/-! ## Dominance -/

theorem exists_of_mem_forall₂ {α β : Type} {R : α → β → Prop} {as : List α} {bs : List β}
    (h : List.Forall₂ R as bs) {a : α} (ha : a ∈ as) : ∃ b ∈ bs, R a b := by
  induction h with
  | nil => cases ha
  | cons hab _ ih =>
    rcases List.mem_cons.mp ha with rfl | ha
    · exact ⟨_, List.mem_cons_self, hab⟩
    · obtain ⟨b, hb, hR⟩ := ih ha
      exact ⟨b, List.mem_cons_of_mem _ hb, hR⟩

/-- What holds in every state of the emission of a function about its definitions. -/
structure Numbering (c : Config) : Prop where
  numbered : Numbered c
  bounded : Bounded c
  defined : Defined c

theorem Numbering.start (header : Text) : Numbering (Config.start header) where
  numbered := ⟨List.nodup_nil, fun _ => by simp [Config.start, Blocks.temps, Blocks.toList]⟩
  bounded := ⟨by rintro _ ⟨⟩, by rintro _ ⟨⟩⟩
  defined := by
    refine ⟨by rintro _ ⟨⟩, ?_, by rintro _ ⟨⟩⟩
    intro block hblock
    obtain rfl : block = ⟨.entry, [], none⟩ := List.mem_singleton.mp hblock
    exact ⟨fun h => by simp at h, by rintro _ ⟨⟩, by rintro _ ⟨⟩, fun h => by simp at h,
      fun h => by simp at h, by rintro _ ⟨⟩, fun h => by simp [Block.targets] at h⟩

theorem Numbering.steps {c c' : Config} (hformed : Formed c) (h : Numbering c)
    (hsteps : Steps c c') : Numbering c' := by
  induction hsteps with
  | refl => exact h
  | tail hsteps hstep ih =>
    exact ⟨ih.numbered.step hstep, ih.bounded.step hstep,
      ih.defined.step (hformed.steps hsteps).laid hstep⟩

namespace Numbering

variable {c : Config}

/-- The temporaries of a block. -/
def inside (blocks : List Block) (label : Label) : Set ℕ :=
  {t | ∃ block ∈ blocks, block.label = label ∧ t ∈ resultsOf block.body}

/-- What is available in front of a block comes from the blocks that go to it. -/
theorem carries (hformed : Formed c) (h : Numbering c) :
    FlowGraph.Carries .entry (Edge c.blocks.toList) (inside c.blocks.toList) c.incoming where
  entry := rfl
  next := by
    rintro a b ⟨block, hblock, rfl, htarget⟩ t ht
    have hadmits := h.defined.blocks block hblock
    have hinside : t ∈ resultsOf block.body → t ∈ inside c.blocks.toList block.label :=
      fun hresult => ⟨block, hblock, rfl, hresult⟩
    cases b with
    | entry => exact ht.elim
    | numbered stage number =>
      rcases ht with ht | ht
      · exact ((hadmits.targets htarget).2 ht).imp_right hinside
      · cases hlabel : block.label with
        | numbered => exact .inl (.inr ht)
        | entry =>
          -- the storage is in the first block, and only this one has the label of the entry
          obtain ⟨first, hfirst⟩ : ∃ first, c.blocks.toList.head? = some first := by
            cases hhead : c.blocks.toList.head? with
            | none =>
              rw [List.head?_eq_none_iff] at hhead
              rw [hhead] at hblock
              cases hblock
            | some first => exact ⟨first, rfl⟩
          have hentry : first.label = .entry := by
            have hentry := hformed.laid.entry
            rw [Blocks.labels, List.head?_map, hfirst, Option.map_some] at hentry
            exact Option.some.inj hentry
          have hresult : t ∈ resultsOf first.body := by
            have hstorage : t ∈ c.blocks.storage := ht
            rw [Blocks.storage, hfirst] at hstorage
            exact hstorage
          exact .inr ⟨first, List.mem_of_mem_head? hfirst, hentry, hresult⟩

/-- A temporary has one block. -/
theorem home_unique (h : Numbering c) {t : ℕ} {block block' : Block}
    (hblock : block ∈ c.blocks.toList) (hblock' : block' ∈ c.blocks.toList)
    (ht : t ∈ resultsOf block.body) (ht' : t ∈ resultsOf block'.body) : block = block' := by
  by_contra hne
  have hdisjoint := (List.nodup_flatMap.mp h.numbered.nodup).2
  have : Std.Symm (Function.onFun List.Disjoint fun block : Block => resultsOf block.body) :=
    ⟨fun _ _ h _ hmem hmem' => h hmem' hmem⟩
  exact hdisjoint.forall hblock hblock' hne ht ht'

/-- What a block works on is defined on every way to it. -/
theorem dominated (hformed : Formed c) (h : Numbering c) {block : Block}
    (hblock : block ∈ c.blocks.toList) {front : List Instruction}
    (hfront : resultsOf front ⊆ resultsOf block.body) {t : ℕ} (ht : t ∈ c.before block.label front) :
    Dominated c.blocks.toList t block.label front := by
  have hadmits := h.defined.blocks block hblock
  have hnumber : t < c.state.nextTemp := by
    have hmem (b : Block) (hb : b ∈ c.blocks.toList) (hresult : t ∈ resultsOf b.body) :
        t < c.state.nextTemp :=
      (h.numbered.mem t).mp (List.mem_flatMap.mpr ⟨b, hb, hresult⟩)
    rcases ht with ht | ht
    · cases hlabel : block.label with
      | entry =>
        rw [hlabel] at ht
        exact ht.elim
      | numbered stage number =>
        rw [hlabel] at ht
        rcases ht with ht | ht
        · exact h.bounded.reserved number (hadmits.known hlabel) t ht
        · have hstorage : t ∈ c.blocks.storage := ht
          rw [Blocks.storage] at hstorage
          cases hhead : c.blocks.toList.head? with
          | none => simp [hhead] at hstorage
          | some first =>
            rw [hhead] at hstorage
            exact hmem first (List.mem_of_mem_head? hhead) hstorage
    · exact hmem block hblock (hfront ht)
  obtain ⟨home, hhome, hresult⟩ := List.mem_flatMap.mp ((h.numbered.mem t).mpr hnumber)
  refine ⟨home, hhome, hresult, fun left hpath => ?_⟩
  rcases ht with ht | ht
  · obtain ⟨label, hlabel, home', hhome', rfl, hresult'⟩ := hpath.defined (h.carries hformed) ht
    rw [h.home_unique hhome hhome' hresult hresult']
    exact .inr hlabel
  · exact .inl ht

/-- A choice has the blocks that branch to its own. -/
theorem chooses (hformed : Formed c) (h : Numbering c) {label : Label} {parts : List Part}
    (hchooses : c.Chooses label parts) (hplaced : label ∈ c.blocks.labels) :
    ChoosesIn c.blocks.toList label parts := by
  obtain ⟨stage, number, ty, incoming, rfl, hlt, -, rfl, hincoming⟩ := hchooses
  obtain ⟨-, rfl, -⟩ := (hformed.laid.placed stage number).mp hplaced
  refine ⟨ty, incoming, rfl, ?_, fun value hvalue => ?_⟩
  · have hlabels : incoming.map (·.2) = (c.info number).preds.map (·.1) := by
      have hsame := hincoming.imp fun _ _ h => h.1
      exact List.forall₂_eq_eq_eq ▸ (List.forall₂_map_left_iff.mpr (List.forall₂_map_right_iff.mpr hsame))
    rw [hlabels, hformed.linked.preds number hlt, Blocks.edges, List.filter_map, List.map_map,
      predecessors]
    rfl
  · obtain ⟨pred, hpred, heq, hholds, hnone⟩ := exists_of_mem_forall₂ hincoming hvalue
    refine ⟨hnone, fun t ht => ?_⟩
    obtain ⟨block, hblock, hlabel, havailable⟩ := h.defined.preds number hlt pred hpred
    refine ⟨block, hblock, hlabel.trans heq.symm, ?_⟩
    rw [ht] at hholds
    exact h.dominated hformed hblock (List.Subset.refl _) (havailable hholds)

end Numbering

/-! ## Emitted functions -/

/-- At the end of an emission, the blocks are in good form. -/
theorem wellFormed_of_steps {header : Text} {c : Config} (hsteps : Steps (.start header) c)
    (hkeeps : Keeps (.start header) [] c) (hterminated : c.state.terminated = true) :
    WellFormed c.blocks.toList := by
  have hformed := (Formed.start header).steps hsteps
  have hnumbering := (Numbering.start header).steps (Formed.start header) hsteps
  have hadmits := hnumbering.defined.blocks
  have hplaced : ∀ number < c.state.nextLabel,
      .numbered (c.info number).stage number ∈ c.blocks.labels := fun number hlt =>
    (hformed.laid.placed _ number).mpr ⟨hlt, rfl, fun hpending =>
      absurd (hkeeps.owed number (Nat.zero_le _) hlt hpending) List.not_mem_nil⟩
  refine
    { entry := ?_
      terminator := fun block hblock => ?_
      body := fun block hblock => (hadmits block hblock).body
      labels := hformed.laid.labels_write
      temps := hnumbering.numbered.nodup
      targets := fun block hblock label hlabel => ?_
      uses := fun block hblock front i back hbody hphi t ht => ?_
      ends := fun block hblock i hi t ht => ?_
      choices := fun block hblock front i back hbody hphi => ?_
      storage := fun block hblock => (hadmits block hblock).storage }
  · rw [← List.head?_map]
    exact hformed.laid.entry
  · have hsome : block.terminator.isSome = true := by
      rcases List.mem_append.mp hblock with hdone | hcurrent
      · exact hformed.laid.done block hdone
      · rw [List.mem_singleton.mp hcurrent, hformed.laid.closed, hterminated]
    obtain ⟨⟨result, parts⟩, hi⟩ := Option.isSome_iff_exists.mp hsome
    obtain ⟨rfl, hopcode, -⟩ := (hadmits block hblock).ends _ hi
    exact ⟨parts, hi, hopcode⟩
  · have hedge : (block.label, block.targets) ∈ c.blocks.edges := List.mem_map_of_mem hblock
    obtain ⟨number, hlt, rfl⟩ := hformed.linked.targets _ hedge label hlabel
    exact ⟨nofun, hplaced number hlt⟩
  · refine hnumbering.dominated hformed hblock ?_ ((hadmits block hblock).uses hbody hphi _ ht)
    rw [hbody, resultsOf_append]
    exact List.subset_append_left _ _
  · exact hnumbering.dominated hformed hblock (List.Subset.refl _)
      (((hadmits block hblock).ends i hi).2.2 _ ht)
  · obtain ⟨hfront, hchooses⟩ := (hadmits block hblock).choices hbody hphi
    exact ⟨hfront, hnumbering.chooses hformed hchooses (List.mem_map_of_mem hblock)⟩

section Accepted

variable [F32Primitives] {program program' : Program}

/-- A function of an accepted program is emitted, and its text is that of blocks in good form. -/
theorem emitted_wellFormed (hwritten : program.IsWritten) (h : check program = .ok program')
    {constants : List (Constant × ConstantValue)}
    (hconstants : constantValues program' = some constants) {function : Function}
    (hfunction : function ∈ program'.functions) (titleLength : ℕ) :
    (∃ s, (functionEmitter program' constants .plain function).emitLines titleLength .new =
      some ((), s)) ∧
    ∀ (diagnostics : EmbeddedData.RuntimeDiagnostics) (s : State),
      (functionEmitter program' constants diagnostics function).emitLines titleLength .new =
        some ((), s) →
      ∃ header blocks, s.lines = .define header :: blocks.flatMap Block.lines ++ [.close] ∧
        WellFormed blocks := by
  obtain ⟨checked, rfl, -, -, -⟩ := check_spec hwritten h
  refine ⟨functionEmitter_total hconstants .plain hfunction
    (fun span _ => FunctionEmitter.knows_plain rfl span) titleLength, fun diagnostics s hrun => ?_⟩
  have hf := functionEmitter_fixed checked.program constants diagnostics function
  have htyped := checked.functions function hfunction
  obtain ⟨header, c, hsteps, hkeeps, hterminated, heq⟩ :=
    FunctionEmitter.emitLines_runs hf htyped.returns hrun
  obtain ⟨header', hlines⟩ := ((Formed.start header).steps hsteps).laid.lines
  exact ⟨header', c.blocks.toList, by rw [heq, hlines]; rfl,
    wellFormed_of_steps hsteps hkeeps hterminated⟩

end Accepted

theorem emitted_wellFormed_sample : ∃ program' constants function s header blocks,
    @check softFloat Sample.program = .ok program' ∧ function ∈ program'.functions ∧
      (functionEmitter program' constants .plain function).emitLines 0 .new = some ((), s) ∧
      s.lines = .define header :: blocks.flatMap Block.lines ++ [.close] ∧ WellFormed blocks := by
  let _ : F32Primitives := softFloat
  obtain ⟨program', h⟩ := Sample.accepted
  obtain ⟨checked, hchecked, -⟩ := check_spec Sample.isWritten h
  have hlength := checked.entryPoints .update (by simp)
  obtain ⟨function, hupdate⟩ := List.exists_mem_of_length_pos (hlength ▸ Nat.one_pos)
  have hfunction := (List.mem_filter.mp hupdate).1
  obtain ⟨constants, hconstants⟩ := exists_constantValues checked
  rw [hchecked] at hfunction hconstants
  obtain ⟨⟨s, hrun⟩, hform⟩ := emitted_wellFormed Sample.isWritten h hconstants hfunction 0
  obtain ⟨header, blocks, hlines, hblocks⟩ := hform .plain s hrun
  exact ⟨program', constants, function, s, header, blocks, h, hfunction, hrun, hlines, hblocks⟩

end Emitter

end Speck
