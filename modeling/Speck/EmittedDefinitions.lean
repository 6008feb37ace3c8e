import Speck.EmittedBlocks

/-!
# Definitions in emitted blocks

Where the temporaries of a function are defined, in every state of its emission. `Numbered` : each
temporary so far has one definition. `Bounded` : only temporaries so far are available. `Defined` : what is available at the current position is defined
in the current block, in the entry block, or in front of the current block on every way to it, and
every block works on temporaries that are defined so (`Config.Admits`).
-/

set_option linter.unusedSectionVars false

namespace Speck

namespace Emitter

/-! ## Temporaries -/

/-- The temporaries that instructions define. -/
def resultsOf (body : List Instruction) : List ℕ := body.filterMap (·.result)

@[simp]
theorem resultsOf_nil : resultsOf [] = [] := rfl

@[simp]
theorem resultsOf_append (front back : List Instruction) :
    resultsOf (front ++ back) = resultsOf front ++ resultsOf back := List.filterMap_append

@[simp]
theorem resultsOf_cons (i : Instruction) (rest : List Instruction) :
    resultsOf (i :: rest) = i.result.toList ++ resultsOf rest := by
  cases i with
  | mk result parts => cases result <;> rfl

namespace Blocks

variable (b : Blocks)

/-- The temporaries that the blocks define. -/
def temps : List ℕ := b.toList.flatMap fun block => resultsOf block.body

/-- The temporaries of the entry block. -/
def storage : List ℕ := (b.toList.head?.map fun block => resultsOf block.body).getD []

theorem temps_append (i : Instruction) : (b.append i).temps = b.temps ++ i.result.toList := by
  simp [temps, toList]

theorem temps_prepend (i : Instruction) : (b.prepend i).temps = i.result.toList ++ b.temps := by
  obtain ⟨done, current⟩ := b
  cases done <;> simp [temps, toList, prepend]

@[simp]
theorem temps_close (i : Instruction) : (b.close i).temps = b.temps := by
  simp [temps, toList]

@[simp]
theorem temps_place (label : Label) : (b.place label).temps = b.temps := by
  simp [temps, toList]

end Blocks

/-- Each number so far is that of one definition. -/
structure Numbered (c : Config) : Prop where
  nodup : c.blocks.temps.Nodup
  mem : ∀ number, number ∈ c.blocks.temps ↔ number < c.state.nextTemp

namespace Numbered

variable {c c' : Config}

theorem same (h : Numbered c) (hnext : c'.state.nextTemp = c.state.nextTemp)
    (htemps : c'.blocks.temps = c.blocks.temps) : Numbered c' := by
  refine ⟨?_, ?_⟩
  · rw [htemps]
    exact h.nodup
  · rw [htemps, hnext]
    exact h.mem

/-- A new temporary. -/
theorem fresh (h : Numbered c) (hnext : c'.state.nextTemp = c.state.nextTemp + 1)
    (htemps : c'.blocks.temps.Perm (c.state.nextTemp :: c.blocks.temps)) : Numbered c' := by
  refine ⟨?_, fun number => ?_⟩
  · rw [htemps.nodup_iff, List.nodup_cons, h.mem]
    exact ⟨lt_irrefl _, h.nodup⟩
  · rw [htemps.mem_iff, List.mem_cons, h.mem, hnext]
    omega

theorem define (h : Numbered c) (parts : List Part) : Numbered (c.define parts) := by
  refine h.fresh rfl ?_
  rw [Config.define_blocks, Blocks.temps_append]
  exact List.perm_append_singleton _ _

theorem step (h : Numbered c) (hstep : Step c c') : Numbered c' := by
  cases hstep with
  | instruction =>
    refine h.same rfl ?_
    rw [Config.instruction_blocks, Blocks.temps_append]
    exact List.append_nil _
  | define => exact h.define _
  | paramAlloca => exact h.define _
  | entryAlloca ty =>
    refine h.fresh rfl ?_
    rw [Config.entryAlloca_blocks, Blocks.temps_prepend]
    exact .refl _
  | newLabel => exact h.same rfl rfl
  | scopes => exact h.same rfl rfl
  | terminate => exact h.same rfl (Blocks.temps_close _ _)
  | placeLabel => exact h.same rfl (Blocks.temps_place _ _)
  | merge => exact (h.same rfl (Blocks.temps_place _ _) : Numbered (c.placeLabel _ _ _)).define _

end Numbered

/-- Only temporaries so far are available, now or at a label. -/
structure Bounded (c : Config) : Prop where
  available : ∀ t ∈ c.available, t < c.state.nextTemp
  reserved : ∀ number < c.state.nextLabel, ∀ t ∈ (c.info number).reserved, t < c.state.nextTemp

theorem Bounded.step {c c' : Config} (h : Bounded c) (hstep : Step c c') : Bounded c' := by
  have hreserved : ∀ number < c.state.nextLabel, ∀ t ∈ (c'.info number).reserved,
      t < c.state.nextTemp := fun number hlt t ht =>
    h.reserved number hlt t ((hstep.info hlt).2.1 ▸ ht)
  -- with a temporary more
  have hinsert : ∀ t ∈ insert c.state.nextTemp c.available, t < c.state.nextTemp + 1 := by
    rintro t (rfl | ht)
    · exact Nat.lt_succ_self _
    · exact (h.available t ht).trans (Nat.lt_succ_self _)
  have hmore : ∀ number < c.state.nextLabel, ∀ t ∈ (c'.info number).reserved,
      t < c.state.nextTemp + 1 := fun number hlt t ht =>
    (hreserved number hlt t ht).trans (Nat.lt_succ_self _)
  cases hstep with
  | instruction => exact ⟨h.available, hreserved⟩
  | define => exact ⟨hinsert, hmore⟩
  | paramAlloca => exact ⟨hinsert, hmore⟩
  | entryAlloca => exact ⟨hinsert, hmore⟩
  | scopes => exact ⟨h.available, hreserved⟩
  | terminate => exact ⟨h.available, hreserved⟩
  | placeLabel status hterminated hpending => exact ⟨h.reserved _ hpending.lt, hreserved⟩
  | merge hterminated hpending =>
    refine ⟨?_, hmore⟩
    rintro t (rfl | ht)
    · exact Nat.lt_succ_self _
    · exact (h.reserved _ hpending.lt t ht).trans (Nat.lt_succ_self _)
  | newLabel stage =>
    refine ⟨h.available, fun number hlt t ht => ?_⟩
    rw [Config.newLabel_info] at ht
    by_cases heq : number = c.state.nextLabel
    · rw [heq, Function.update_self] at ht
      exact h.available t ht
    · rw [Function.update_of_ne heq] at ht
      have hlt : number < c.state.nextLabel + 1 := hlt
      exact h.reserved number (by omega) t ht

/-! ## Availability -/

namespace Config

variable (c : Config)

/-- What is defined in front of a block : nothing in front of the entry, and in front of another block
the storage, and what was reserved for its label. -/
def incoming : Label → Set ℕ
  | .entry => ∅
  | .numbered _ number => (c.info number).reserved ∪ {t | t ∈ c.blocks.storage}

/-- What is defined behind the first instructions of a block. -/
def before (label : Label) (front : List Instruction) : Set ℕ :=
  c.incoming label ∪ {t | t ∈ resultsOf front}

/-- A choice between the blocks that branch to the label, each with a value that is defined there. No
branch to the label is to come. -/
def Chooses (label : Label) (parts : List Part) : Prop :=
  ∃ stage number ty incoming, label = .numbered stage number ∧ number < c.state.nextLabel ∧
    (c.info number).status = .closed ∧ parts = phiParts ty incoming ∧
    List.Forall₂ (fun value pred => value.2 = pred.1 ∧ value.1.Holds pred.2 ∧
      value.1.label? = none) incoming (c.info number).preds

/-- A block as the emitter may have it. -/
structure Admits (block : Block) : Prop where
  known : ∀ {stage number}, block.label = .numbered stage number → number < c.state.nextLabel
  storage : ∀ i ∈ block.body, opcode i.parts = .storage → block.label = .entry
  body : ∀ i ∈ block.body, opcode i.parts ≠ .terminator
  uses : ∀ {front i back}, block.body = front ++ i :: back → opcode i.parts ≠ .phi →
    ∀ part ∈ i.parts, part.Holds (c.before block.label front)
  choices : ∀ {front i back}, block.body = front ++ i :: back → opcode i.parts = .phi →
    front = [] ∧ c.Chooses block.label i.parts
  ends : ∀ i ∈ block.terminator, i.result = none ∧ opcode i.parts = .terminator ∧
    ∀ part ∈ i.parts, part.Holds (c.before block.label block.body)
  targets : ∀ {stage number}, .numbered stage number ∈ block.targets →
    number < c.state.nextLabel ∧ (c.info number).reserved ⊆ c.before block.label block.body

end Config

/-- What is available is defined, and the blocks work on what is defined. -/
structure Defined (c : Config) : Prop where
  available : c.available ⊆ c.before c.blocks.current.label c.blocks.current.body
  blocks : ∀ block ∈ c.blocks.toList, c.Admits block
  preds : ∀ number < c.state.nextLabel, ∀ pred ∈ (c.info number).preds,
    ∃ block ∈ c.blocks.toList, block.label = pred.1 ∧ pred.2 ⊆ c.before block.label block.body

/-- Each block is there behind the change, and defines at least what it did. -/
def Blocks.Kept (b b' : Blocks) : Prop :=
  ∀ block ∈ b.toList, ∃ block' ∈ b'.toList, block'.label = block.label ∧
    resultsOf block.body ⊆ resultsOf block'.body

/-- What a step does not take back. -/
structure Grows (c c' : Config) : Prop where
  nextLabel : c.state.nextLabel ≤ c'.state.nextLabel
  info : ∀ number < c.state.nextLabel, (c'.info number).reserved = (c.info number).reserved ∧
    ((c.info number).status = .closed → c'.info number = c.info number)
  storage : c.blocks.storage ⊆ c'.blocks.storage
  blocks : c.blocks.Kept c'.blocks

namespace Blocks

variable {b : Blocks}

theorem storage_append (i : Instruction) : b.storage ⊆ (b.append i).storage := by
  obtain ⟨done, current⟩ := b
  cases done <;> simp [storage, toList]

theorem storage_prepend (i : Instruction) :
    (b.prepend i).storage = i.result.toList ++ b.storage := by
  obtain ⟨done, current⟩ := b
  cases done <;> simp [storage, toList, prepend]

theorem storage_close (i : Instruction) : (b.close i).storage = b.storage := by
  obtain ⟨done, current⟩ := b
  cases done <;> simp [storage, toList]

theorem storage_place (label : Label) : (b.place label).storage = b.storage := by
  obtain ⟨done, current⟩ := b
  cases done <;> simp [storage, toList]

theorem kept_refl : Kept b b := fun block hblock => ⟨block, hblock, rfl, List.Subset.refl _⟩

/-- Only the current block changes. -/
theorem kept_current {done : List Block} {current current' : Block}
    (hlabel : current'.label = current.label)
    (hbody : resultsOf current.body ⊆ resultsOf current'.body) :
    Kept ⟨done, current⟩ ⟨done, current'⟩ := by
  intro block hblock
  rcases List.mem_append.mp hblock with hblock | hblock
  · exact ⟨block, List.mem_append_left _ hblock, rfl, List.Subset.refl _⟩
  · obtain rfl := List.mem_singleton.mp hblock
    exact ⟨current', List.mem_append_right _ (List.mem_singleton_self _), hlabel, hbody⟩

theorem kept_append (i : Instruction) : Kept b (b.append i) :=
  kept_current rfl (by simp)

theorem kept_close (i : Instruction) : Kept b (b.close i) :=
  kept_current rfl (List.Subset.refl _)

theorem kept_place (label : Label) : Kept b (b.place label) :=
  fun block hblock => ⟨block, List.mem_append_left _ hblock, rfl, List.Subset.refl _⟩

theorem kept_prepend (i : Instruction) : Kept b (b.prepend i) := by
  obtain ⟨_ | ⟨first, rest⟩, current⟩ := b
  · exact kept_current rfl (by simp)
  · intro block hblock
    rcases List.mem_cons.mp hblock with rfl | hblock
    · exact ⟨block.prepend i, List.mem_cons_self, rfl, by simp⟩
    · exact ⟨block, List.mem_cons_of_mem _ hblock, rfl, List.Subset.refl _⟩

theorem results_prepend (i : Instruction) :
    resultsOf b.current.body ⊆ resultsOf (b.prepend i).current.body := by
  obtain ⟨_ | ⟨first, rest⟩, current⟩ := b
  · simp [prepend]
  · exact List.Subset.refl _

theorem Kept.trans {b' b'' : Blocks} (h : b.Kept b') (h' : b'.Kept b'') : b.Kept b'' := by
  intro block hblock
  obtain ⟨block', hblock', hlabel, hresults⟩ := h block hblock
  obtain ⟨block'', hblock'', hlabel', hresults'⟩ := h' block' hblock'
  exact ⟨block'', hblock'', hlabel'.trans hlabel, List.Subset.trans hresults hresults'⟩

end Blocks

theorem Step.grows {c c' : Config} (h : Step c c') : Grows c c' := by
  have hinfo : ∀ number < c.state.nextLabel, (c'.info number).reserved = (c.info number).reserved ∧
      ((c.info number).status = .closed → c'.info number = c.info number) :=
    fun number hlt => (h.info hlt).2
  cases h with
  | instruction => exact ⟨le_rfl, hinfo, Blocks.storage_append _, Blocks.kept_append _⟩
  | define => exact ⟨le_rfl, hinfo, Blocks.storage_append _, Blocks.kept_append _⟩
  | paramAlloca => exact ⟨le_rfl, hinfo, Blocks.storage_append _, Blocks.kept_append _⟩
  | entryAlloca ty =>
    refine ⟨le_rfl, hinfo, ?_, Blocks.kept_prepend _⟩
    rw [Config.entryAlloca_blocks, Blocks.storage_prepend]
    exact List.subset_append_right _ _
  | newLabel => exact ⟨Nat.le_succ _, hinfo, List.Subset.refl _, Blocks.kept_refl⟩
  | scopes => exact ⟨le_rfl, hinfo, List.Subset.refl _, Blocks.kept_refl⟩
  | terminate =>
    exact ⟨le_rfl, hinfo, (Blocks.storage_close _).symm ▸ List.Subset.refl _, Blocks.kept_close _⟩
  | placeLabel =>
    exact ⟨le_rfl, hinfo, (Blocks.storage_place _).symm ▸ List.Subset.refl _, Blocks.kept_place _⟩
  | merge =>
    refine ⟨le_rfl, hinfo, ?_, (Blocks.kept_place _).trans (Blocks.kept_append _)⟩
    exact List.Subset.trans ((Blocks.storage_place _).symm ▸ List.Subset.refl _)
      (Blocks.storage_append _)

theorem Grows.before_subset {c c' : Config} (h : Grows c c') {label : Label}
    (hknown : ∀ {stage number}, label = .numbered stage number → number < c.state.nextLabel)
    {front front' : List Instruction} (hfront : resultsOf front ⊆ resultsOf front') :
    c.before label front ⊆ c'.before label front' := by
  rintro t (ht | ht)
  · refine .inl ?_
    cases label with
    | entry => exact ht.elim
    | numbered stage number =>
      rcases ht with ht | ht
      · exact .inl ((h.info number (hknown rfl)).1.symm ▸ ht)
      · exact .inr (h.storage ht)
  · exact .inr (hfront ht)

namespace Config.Admits

variable {c c' : Config} {block : Block} {i : Instruction}

theorem mono (h : c.Admits block) (hgrows : Grows c c') : c'.Admits block where
  known hlabel := (h.known hlabel).trans_le hgrows.nextLabel
  storage := h.storage
  body := h.body
  uses hbody hopcode part hpart := (h.uses hbody hopcode part hpart).mono
    (hgrows.before_subset h.known (List.Subset.refl _))
  choices hbody hopcode := by
    obtain ⟨hfront, stage, number, ty, incoming, hlabel, hlt, hclosed, hparts, hincoming⟩ :=
      h.choices hbody hopcode
    have hinfo := (hgrows.info number hlt).2 hclosed
    refine ⟨hfront, stage, number, ty, incoming, hlabel, hlt.trans_le hgrows.nextLabel, ?_, hparts, ?_⟩
    · rw [hinfo, hclosed]
    · rw [hinfo]
      exact hincoming
  ends j hj := by
    obtain ⟨hresult, hopcode, huses⟩ := h.ends j hj
    exact ⟨hresult, hopcode, fun part hpart =>
      (huses part hpart).mono (hgrows.before_subset h.known (List.Subset.refl _))⟩
  targets htarget := by
    obtain ⟨hlt, hreserved⟩ := h.targets htarget
    refine ⟨hlt.trans_le hgrows.nextLabel, ?_⟩
    rw [(hgrows.info _ hlt).1]
    exact hreserved.trans (hgrows.before_subset h.known (List.Subset.refl _))

/-- With an instruction more at its end. -/
theorem append (h : c.Admits block) (hopen : block.terminator = none)
    (hopcode : opcode i.parts = .other ∨ opcode i.parts = .storage ∧ block.label = .entry)
    (huses : ∀ part ∈ i.parts, part.Holds (c.before block.label block.body)) :
    c.Admits (block.append i) := by
  have hlast {front back : List Instruction} {j : Instruction}
      (hbody : block.body ++ [i] = front ++ j :: back) :
      (∃ back', block.body = front ++ j :: back') ∨ front = block.body ∧ j = i := by
    rcases List.eq_nil_or_concat back with rfl | ⟨back', last, rfl⟩
    · obtain ⟨rfl, hsame⟩ := List.append_inj' hbody rfl
      exact .inr ⟨rfl, (List.singleton_inj.mp hsame).symm⟩
    · refine .inl ⟨back', ?_⟩
      rw [List.concat_eq_append, ← List.cons_append, ← List.append_assoc] at hbody
      exact (List.append_inj' hbody rfl).1
  refine ⟨h.known, fun j hj hstorage => ?_, fun j hj => ?_, fun {front j back} hbody hnot => ?_,
    fun {front j back} hbody hphi => ?_, fun j hj => ?_, fun htarget => ?_⟩
  · rcases List.mem_append.mp hj with hj | hj
    · exact h.storage j hj hstorage
    · obtain rfl := List.mem_singleton.mp hj
      rcases hopcode with hother | ⟨-, hentry⟩
      · rw [hother] at hstorage
        cases hstorage
      · exact hentry
  · rcases List.mem_append.mp hj with hj | hj
    · exact h.body j hj
    · obtain rfl := List.mem_singleton.mp hj
      rcases hopcode with hother | ⟨hstorage, -⟩
      · rw [hother]
        nofun
      · rw [hstorage]
        nofun
  · rcases hlast hbody with ⟨back', hbody⟩ | ⟨rfl, rfl⟩
    · exact h.uses hbody hnot
    · exact huses
  · rcases hlast hbody with ⟨back', hbody⟩ | ⟨rfl, rfl⟩
    · exact h.choices hbody hphi
    · rcases hopcode with hother | ⟨hstorage, -⟩
      · rw [hother] at hphi
        cases hphi
      · rw [hstorage] at hphi
        cases hphi
  · rw [Block.append_terminator, hopen] at hj
    cases hj
  · rw [Block.targets, Block.append_terminator, hopen] at htarget
    cases htarget

/-- With storage more at its start. -/
theorem prepend (h : c.Admits block) (hentry : block.label = .entry) (result : Option ℕ) (ty : Text) :
    c.Admits (block.prepend ⟨result, ["alloca ", ty]⟩) := by
  have hsubset (front : List Instruction) : c.before block.label front ⊆
      c.before block.label (⟨result, ["alloca ", ty]⟩ :: front) := by
    rintro t (ht | ht)
    · exact .inl ht
    · refine .inr ?_
      change t ∈ resultsOf (⟨result, ["alloca ", ty]⟩ :: front)
      rw [resultsOf_cons]
      exact List.mem_append_right _ ht
  refine ⟨h.known, fun _ _ _ => hentry, fun j hj => ?_, fun {front j back} hbody hnot => ?_,
    fun {front j back} hbody hphi => ?_, fun j hj => ?_, fun htarget => ?_⟩
  · rcases List.mem_cons.mp hj with rfl | hj
    · nofun
    · exact h.body j hj
  · cases front with
    | nil =>
      obtain ⟨rfl, -⟩ := List.cons_eq_cons.mp hbody
      simp
    | cons first front =>
      obtain ⟨rfl, hrest⟩ := List.cons_eq_cons.mp hbody
      exact fun part hpart => (h.uses hrest hnot part hpart).mono (hsubset front)
  · cases front with
    | nil =>
      obtain ⟨rfl, -⟩ := List.cons_eq_cons.mp hbody
      cases hphi
    | cons first front =>
      obtain ⟨-, hbody⟩ := List.cons_eq_cons.mp hbody
      obtain ⟨-, stage, number, ty, incoming, hlabel, -⟩ := h.choices hbody hphi
      rw [hentry] at hlabel
      cases hlabel
  · obtain ⟨hresult, hopcode, huses⟩ := h.ends j hj
    exact ⟨hresult, hopcode, fun part hpart => (huses part hpart).mono (hsubset _)⟩
  · obtain ⟨hlt, hreserved⟩ := h.targets htarget
    exact ⟨hlt, hreserved.trans (hsubset _)⟩

/-- With its terminator. -/
theorem close (h : c.Admits block) {parts : List Part} (hopcode : opcode parts = .terminator)
    (huses : ∀ part ∈ parts, part.Holds (c.before block.label block.body))
    (htargets : ∀ {stage number}, .numbered stage number ∈ labelsOf parts →
      number < c.state.nextLabel ∧ (c.info number).reserved ⊆ c.before block.label block.body) :
    c.Admits (block.close ⟨none, parts⟩) where
  known := h.known
  storage := h.storage
  body := h.body
  uses := h.uses
  choices := h.choices
  ends j hj := by
    obtain rfl := Option.some.inj hj
    exact ⟨rfl, hopcode, huses⟩
  targets := htargets

/-- A block that is new. -/
theorem of_empty {stage : String} {number : ℕ} (hlt : number < c.state.nextLabel) :
    c.Admits ⟨.numbered stage number, [], none⟩ where
  known hlabel := by
    obtain ⟨-, rfl⟩ := Label.numbered.inj hlabel
    exact hlt
  storage := nofun
  body := nofun
  uses hbody := by simp at hbody
  choices hbody := by simp at hbody
  ends := nofun
  targets htarget := by simp [Block.targets] at htarget

/-- A new block that begins with a choice. -/
theorem of_choice {stage : String} {number : ℕ} (hlt : number < c.state.nextLabel)
    (hchoice : opcode i.parts = .phi) (hchooses : c.Chooses (.numbered stage number) i.parts) :
    c.Admits ⟨.numbered stage number, [i], none⟩ := by
  have honly {front back : List Instruction} {j : Instruction} (hbody : [i] = front ++ j :: back) :
      front = [] ∧ j = i := by
    cases front with
    | nil => exact ⟨rfl, (List.cons_eq_cons.mp hbody).1.symm⟩
    | cons => simp at hbody
  refine ⟨fun hlabel => ?_, fun j hj hstorage => ?_, fun j hj => ?_,
    fun {front j back} hbody hnot => ?_, fun {front j back} hbody hphi => ?_, nofun, fun htarget => ?_⟩
  · obtain ⟨-, rfl⟩ := Label.numbered.inj hlabel
    exact hlt
  · obtain rfl := List.mem_singleton.mp hj
    rw [hchoice] at hstorage
    cases hstorage
  · obtain rfl := List.mem_singleton.mp hj
    rw [hchoice]
    nofun
  · obtain ⟨rfl, rfl⟩ := honly hbody
    exact absurd hchoice hnot
  · obtain ⟨rfl, rfl⟩ := honly hbody
    exact ⟨rfl, hchooses⟩
  · simp [Block.targets] at htarget

end Config.Admits

/-! ## Steps -/

theorem mem_foldl_branch {block : Label} {available : Set ℕ} {labels : List Label}
    {info : ℕ → LabelInfo} {number : ℕ} {pred : Label × Set ℕ}
    (h : pred ∈ (labels.foldl (branch block available) info number).preds) :
    pred ∈ (info number).preds ∨ pred = (block, available) := by
  induction labels generalizing info with
  | nil => exact .inl h
  | cons label rest ih =>
    rcases ih h with hpred | hpred
    · cases label with
      | entry => exact .inl hpred
      | numbered stage n =>
        by_cases heq : number = n
        · subst heq
          rw [branch, Function.update_self] at hpred
          rcases List.mem_append.mp hpred with hpred | hpred
          · exact .inl hpred
          · exact .inr (List.mem_singleton.mp hpred)
        · rw [branch, Function.update_of_ne heq] at hpred
          exact .inl hpred
    · exact .inr hpred

namespace Defined

variable {c c' : Config}

/-- The noted blocks are still there. -/
theorem preds_grow (h : Defined c) (hgrows : Grows c c') {number : ℕ}
    (hlt : number < c.state.nextLabel) {pred : Label × Set ℕ} (hpred : pred ∈ (c.info number).preds) :
    ∃ block ∈ c'.blocks.toList, block.label = pred.1 ∧ pred.2 ⊆ c'.before block.label block.body := by
  obtain ⟨block, hblock, hlabel, havailable⟩ := h.preds number hlt pred hpred
  obtain ⟨block', hblock', hlabel', hresults⟩ := hgrows.blocks block hblock
  refine ⟨block', hblock', hlabel'.trans hlabel, havailable.trans ?_⟩
  rw [hlabel']
  exact hgrows.before_subset (h.blocks block hblock).known hresults

/-- Where no branch is written, nothing is noted. -/
theorem preds_same (h : Defined c) (hgrows : Grows c c')
    (hpreds : ∀ number < c'.state.nextLabel, ∀ pred ∈ (c'.info number).preds,
      number < c.state.nextLabel ∧ pred ∈ (c.info number).preds) :
    ∀ number < c'.state.nextLabel, ∀ pred ∈ (c'.info number).preds,
      ∃ block ∈ c'.blocks.toList, block.label = pred.1 ∧
        pred.2 ⊆ c'.before block.label block.body := by
  intro number hlt pred hpred
  obtain ⟨hlt, hpred⟩ := hpreds number hlt pred hpred
  exact h.preds_grow hgrows hlt hpred

/-- An instruction more. -/
theorem append (hlaid : Laid c) (h : Defined c) {i : Instruction} (hgrows : Grows c c')
    (hrunning : c.state.terminated = false) (hblocks : c'.blocks = c.blocks.append i)
    (hnext : c'.state.nextLabel = c.state.nextLabel) (hinfo : c'.info = c.info)
    (havailable : c'.available ⊆ c.available ∪ {t | t ∈ i.result})
    (hopcode : opcode i.parts = .other ∨
      opcode i.parts = .storage ∧ c.state.currentBlock = .entry) (huses : c.Uses i.parts) :
    Defined c' := by
  have hcurrent := h.blocks c.blocks.current (List.mem_append_right _ (List.mem_singleton_self _))
  refine ⟨?_, ?_, h.preds_same hgrows fun number hlt pred hpred => ?_⟩
  · rw [hblocks, Blocks.append_current, Block.append_label, Block.append_body]
    intro t ht
    rcases havailable ht with ht | ht
    · exact hgrows.before_subset hcurrent.known (by simp) (h.available ht)
    · refine .inr ?_
      change t ∈ resultsOf (c.blocks.current.body ++ [i])
      rw [resultsOf_append, resultsOf_cons]
      exact List.mem_append_right _ (List.mem_append_left _ (Option.mem_toList.mpr ht))
  · rw [hblocks, Blocks.toList, List.forall_mem_append]
    refine ⟨fun block hblock => (h.blocks block (List.mem_append_left _ hblock)).mono hgrows, ?_⟩
    rw [List.forall_mem_singleton]
    refine (hcurrent.append (hlaid.terminator_eq hrunning) ?_ fun part hpart =>
      (huses part hpart).mono h.available).mono hgrows
    rw [hlaid.label]
    exact hopcode
  · rw [hnext] at hlt
    rw [hinfo] at hpred
    exact ⟨hlt, hpred⟩

/-- New storage is defined in the current block or in front of it. -/
theorem storage_before (hlaid : Laid c) (ty : Text) : c.state.nextTemp ∈
    (c.entryAlloca ty).before (c.entryAlloca ty).blocks.current.label
      (c.entryAlloca ty).blocks.current.body := by
  set i : Instruction := ⟨some c.state.nextTemp, ["alloca ", ty]⟩ with hi
  cases hlabel : c.blocks.current.label with
  | entry =>
    have hdone : c.blocks.done = [] := by
      have hentry := hlaid.entry
      have hnodup := hlaid.nodup
      cases hdone : c.blocks.done with
      | nil => rfl
      | cons first rest =>
        rw [Blocks.labels, Blocks.toList, hdone] at hentry hnodup
        simp only [List.cons_append, List.map_cons, List.head?_cons, Option.some.injEq] at hentry
        simp [hentry, hlabel] at hnodup
    refine .inr ?_
    change c.state.nextTemp ∈ resultsOf (c.blocks.prepend i).current.body
    rw [Blocks.prepend, hdone]
    exact List.mem_cons_self
  | numbered stage number =>
    rw [Config.entryAlloca_blocks, Blocks.current_prepend_label, hlabel]
    refine .inl (.inr ?_)
    change c.state.nextTemp ∈ (c.blocks.prepend i).storage
    rw [Blocks.storage_prepend]
    exact List.mem_append_left _ List.mem_cons_self

/-- A block more, behind the others. -/
theorem place (h : Defined c) {block : Block} {label : Label} (hgrows : Grows c c')
    (hblocks : c'.blocks.toList = c.blocks.toList ++ [block]) (hcurrent : c'.blocks.current = block)
    (hlabel : block.label = label) (hadmits : c'.Admits block)
    (havailable : c'.available ⊆ c'.before label block.body)
    (hpreds : ∀ number < c'.state.nextLabel, ∀ pred ∈ (c'.info number).preds,
      number < c.state.nextLabel ∧ pred ∈ (c.info number).preds) : Defined c' := by
  refine ⟨?_, ?_, h.preds_same hgrows hpreds⟩
  · rw [hcurrent, hlabel]
    exact havailable
  · rw [hblocks, List.forall_mem_append, List.forall_mem_singleton]
    exact ⟨fun old hold => (h.blocks old hold).mono hgrows, hadmits⟩

theorem step (hlaid : Laid c) (h : Defined c) (hstep : Step c c') : Defined c' := by
  have hgrows := hstep.grows
  have hcurrent := h.blocks c.blocks.current (List.mem_append_right _ (List.mem_singleton_self _))
  -- where the blocks stay as they are
  have hsame {c' : Config} (hgrows : Grows c c') (hblocks : c'.blocks = c.blocks)
      (havailable : c'.available = c.available) (hpreds : ∀ number < c'.state.nextLabel,
        ∀ pred ∈ (c'.info number).preds, number < c.state.nextLabel ∧ pred ∈ (c.info number).preds) :
      Defined c' := by
    refine ⟨?_, ?_, h.preds_same hgrows hpreds⟩
    · rw [havailable, hblocks]
      exact h.available.trans (hgrows.before_subset hcurrent.known (List.Subset.refl _))
    · rw [hblocks]
      exact fun block hblock => (h.blocks block hblock).mono hgrows
  have hplaced (stage : String) (number : ℕ) (status : Status) (n : ℕ) :
      ((c.placeLabel stage number status).info n).preds = (c.info n).preds ∧
        ((c.placeLabel stage number status).info n).reserved = (c.info n).reserved := by
    rw [Config.placeLabel_info]
    by_cases heq : n = number
    · subst heq
      rw [Function.update_self]
      exact ⟨rfl, rfl⟩
    · rw [Function.update_of_ne heq]
      exact ⟨rfl, rfl⟩
  cases hstep with
  | instruction hrunning huses hordinary =>
    exact append hlaid h hgrows hrunning rfl rfl rfl Set.subset_union_left (.inl hordinary.opcode) huses
  | define hrunning huses hordinary =>
    refine append hlaid h hgrows hrunning rfl rfl rfl ?_ (.inl hordinary.opcode) huses
    rintro t (rfl | ht)
    · exact .inr rfl
    · exact .inl ht
  | paramAlloca ty hrunning hentry =>
    refine append hlaid h hgrows hrunning rfl rfl rfl ?_ (.inr ⟨rfl, hentry⟩) (by simp)
    rintro t (rfl | ht)
    · exact .inr rfl
    · exact .inl ht
  | entryAlloca ty hrunning =>
    have hentry : ∀ first ∈ c.blocks.toList.head?, first.label = .entry := fun first hfirst => by
      have hlabel := hlaid.entry
      rw [Blocks.labels, List.head?_map, hfirst, Option.map_some] at hlabel
      exact Option.some.inj hlabel
    refine ⟨?_, fun block hblock => ?_, h.preds_same hgrows fun number hlt pred hpred => ⟨hlt, hpred⟩⟩
    · rintro t (rfl | ht)
      · exact storage_before hlaid ty
      · have hbefore := hgrows.before_subset hcurrent.known
          (Blocks.results_prepend ⟨some c.state.nextTemp, ["alloca ", ty]⟩) (h.available ht)
        rwa [← Blocks.current_prepend_label] at hbefore
    · rcases Blocks.mem_prepend hblock with hblock | ⟨first, hfirst, rfl⟩
      · exact (h.blocks block hblock).mono hgrows
      · exact ((h.blocks first (List.mem_of_mem_head? hfirst)).prepend (hentry first hfirst) _ ty).mono
          hgrows
  | newLabel stage =>
    refine hsame hgrows rfl rfl fun number hlt pred hpred => ?_
    rw [Config.newLabel_info] at hpred
    by_cases heq : number = c.state.nextLabel
    · subst heq
      rw [Function.update_self] at hpred
      cases hpred
    · rw [Function.update_of_ne heq] at hpred
      have : number < c.state.nextLabel + 1 := hlt
      exact ⟨by omega, hpred⟩
  | scopes scopes => exact hsame hgrows rfl rfl fun number hlt pred hpred => ⟨hlt, hpred⟩
  | @terminate parts hrunning huses hopcode hnodup hlabels =>
    have hclosed : c.Admits (c.blocks.current.close ⟨none, parts⟩) := by
      refine hcurrent.close hopcode (fun part hpart => (huses part hpart).mono h.available) ?_
      intro stage number htarget
      obtain ⟨stage', number', heq, hbranch⟩ := hlabels _ htarget
      obtain ⟨-, rfl⟩ := Label.numbered.inj heq
      exact ⟨hbranch.lt, hbranch.reserved.trans h.available⟩
    have havailable : c.available ⊆ (c.terminate parts).before c.blocks.current.label
        c.blocks.current.body :=
      h.available.trans (hgrows.before_subset hcurrent.known (List.Subset.refl _))
    refine ⟨havailable, ?_, fun number hlt pred hpred => ?_⟩
    · rw [Config.terminate_blocks, Blocks.toList, List.forall_mem_append, List.forall_mem_singleton]
      exact ⟨fun block hblock => (h.blocks block (List.mem_append_left _ hblock)).mono hgrows,
        hclosed.mono hgrows⟩
    · rcases mem_foldl_branch hpred with hpred | rfl
      · exact h.preds_grow hgrows hlt hpred
      · exact ⟨_, List.mem_append_right _ (List.mem_singleton_self _), hlaid.label, havailable⟩
  | @placeLabel stage number status hterminated hpending =>
    refine h.place hgrows rfl rfl rfl (.of_empty hpending.lt) ?_ fun n hlt pred hpred => ?_
    · exact fun t ht => .inl (.inl ((hplaced stage number status number).2 ▸ ht))
    · exact ⟨hlt, (hplaced stage number status n).1 ▸ hpred⟩
  | @merge stage number ty incoming hterminated hpending hincoming =>
    obtain ⟨hpreds, hreserved⟩ := hplaced stage number .closed number
    have hchooses : ((c.placeLabel stage number .closed).define (phiParts ty incoming)).Chooses
        (.numbered stage number) (phiParts ty incoming) := by
      refine ⟨stage, number, ty, incoming, rfl, hpending.lt, ?_, rfl, ?_⟩
      · rw [Config.define_info, Config.placeLabel_info, Function.update_self]
      · rw [Config.define_info, hpreds]
        exact hincoming
    refine h.place hgrows rfl rfl rfl (.of_choice hpending.lt rfl hchooses) ?_ fun n hlt pred hpred => ?_
    · rintro t (rfl | ht)
      · exact .inr List.mem_cons_self
      · exact .inl (.inl (hreserved ▸ ht))
    · exact ⟨hlt, (hplaced stage number .closed n).1 ▸ hpred⟩

end Defined

end Emitter

end Speck
