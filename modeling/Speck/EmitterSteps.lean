import Mathlib.Data.Set.Insert
import Mathlib.Logic.Relation
import Mathlib.Logic.Function.Basic
import Mathlib.Tactic.Simps.Basic
import Speck.Emitter

/-!
# Steps of the emitter

What the emitter appends, step by step. A `Config` keeps beside the state what the code does not :
the temporaries that are defined on every way to the current position, and of each label where it
stands in its life, which temporaries are defined wherever a branch to it is written, and the blocks
that branch to it. A `Step` has the conditions under which the text stays well formed : an
instruction is appended to a block without a terminator and works on defined temporaries, a branch
goes to a label whose block is still to come or is the start of a loop, and a label gets its block
once.

`Runs` is what is proved of a part of the emitter : where it does not fail, it takes steps and ends as
stated. `Keeps` is what each part keeps of the labels that it did not create.
-/

namespace Speck

namespace Emitter

/-! ## Parts -/

/-- A temporary is available. -/
def Operand.Holds (available : Set ℕ) : Operand → Prop
  | temp number => number ∈ available
  | text _ => True

def Part.Holds (available : Set ℕ) : Part → Prop
  | operand value => value.Holds available
  | _ => True

def Part.label? : Part → Option Label
  | label block => some block
  | _ => none

/-- The labels that an instruction names. -/
def labelsOf (parts : List Part) : List Label := parts.filterMap Part.label?

section

variable (available : Set ℕ)

@[simp]
theorem Operand.holds_temp (number : ℕ) : (temp number).Holds available ↔ number ∈ available :=
  Iff.rfl

@[simp]
theorem Operand.holds_text (written : Text) : (text written).Holds available := trivial

@[simp]
theorem Part.holds_operand (value : Operand) :
    (operand value).Holds available ↔ value.Holds available := Iff.rfl

@[simp]
theorem Part.holds_text (written : Text) : (text written).Holds available := trivial

@[simp]
theorem Part.holds_label (block : Label) : (label block).Holds available := trivial

end

@[simp]
theorem labelsOf_nil : labelsOf [] = [] := rfl

@[simp]
theorem labelsOf_text (written : Text) (parts : List Part) :
    labelsOf (.text written :: parts) = labelsOf parts := rfl

@[simp]
theorem labelsOf_operand (value : Operand) (parts : List Part) :
    labelsOf (.operand value :: parts) = labelsOf parts := rfl

@[simp]
theorem labelsOf_label (block : Label) (parts : List Part) :
    labelsOf (.label block :: parts) = block :: labelsOf parts := rfl

theorem Operand.Holds.mono {available available' : Set ℕ} {operand : Operand}
    (h : operand.Holds available) (hle : available ⊆ available') : operand.Holds available' := by
  cases operand with
  | temp number => exact hle h
  | text _ => trivial

theorem Part.Holds.mono {available available' : Set ℕ} {part : Part}
    (h : part.Holds available) (hle : available ⊆ available') : part.Holds available' := by
  cases part with
  | operand value => exact Operand.Holds.mono h hle
  | _ => trivial

@[simp]
theorem Operand.holds_insert {available : Set ℕ} {operand : Operand} {number : ℕ}
    (h : operand.Holds available) : operand.Holds (insert number available) :=
  h.mono (Set.subset_insert _ _)

theorem labelsOf_append (parts parts' : List Part) :
    labelsOf (parts ++ parts') = labelsOf parts ++ labelsOf parts' := List.filterMap_append

/-- What an instruction is. -/
inductive Opcode where
  | storage
  | phi
  | terminator
  | other
  deriving DecidableEq

/-- The first words of the instructions that end a block. -/
def terminatorWords : List Text :=
  ["ret".toList, "br".toList, "switch".toList, "indirectbr".toList, "invoke".toList,
    "callbr".toList, "resume".toList, "catchswitch".toList, "catchret".toList, "cleanupret".toList,
    "unreachable".toList]

local instance lawfulWords : LawfulBEq (List Char) := inferInstance

/-- What an instruction is, by its first word. -/
def opcode (parts : List Part) : Opcode :=
  let word := (parts.flatMap Part.write).takeWhile (· ≠ ' ')
  if word = "alloca".toList then .storage
  else if word = "phi".toList then .phi
  else if word ∈ terminatorWords then .terminator
  else .other

/-- An instruction that chooses nothing : it names no labels, and allocates no storage. -/
structure Ordinary (parts : List Part) : Prop where
  labels : labelsOf parts = []
  opcode : opcode parts = .other

/-- The call that ends the game where a check fails. -/
inductive FailureCall : List Part → Prop
  | bounds (index : Operand) (length : ℕ) :
    FailureCall ["call void @crumb_bounds_fail(i32 ", index, ", i32 ", decimalText length, ")"]
  | division {hook : String} (left right : Operand)
    (h : hook = "crumb_division_fail" ∨ hook = "crumb_remainder_fail") :
    FailureCall ["call void @", hook, "(i32 ", left, ", i32 ", right, ")"]

/-! ## Configurations -/

/-- A label is to be placed, or its block is the start of a loop, or no branch to it is to come. -/
inductive Status where
  | pending
  | loop
  | closed
  deriving DecidableEq

/-- What is known of a label : how it is written, the temporaries that are defined at its block, and
the blocks that branch to it with the temporaries that are defined there. -/
structure LabelInfo where
  stage : String
  reserved : Set ℕ
  status : Status
  preds : List (Label × Set ℕ)

/-- A basic block, with its terminator once it is written. -/
structure Block where
  label : Label
  body : List Instruction
  terminator : Option Instruction

namespace Block

variable (b : Block)

def lines : List Line :=
  .label b.label :: (b.body.map Line.instruction ++ b.terminator.toList.map Line.terminator)

/-- The blocks that a block branches to. -/
def targets : List Label := b.terminator.elim [] fun i => labelsOf i.parts

@[simps]
def append (i : Instruction) : Block := { b with body := b.body ++ [i] }

@[simps]
def prepend (i : Instruction) : Block := { b with body := i :: b.body }

@[simps]
def close (i : Instruction) : Block := { b with terminator := some i }

end Block

/-- The blocks before the current one, and the current one. -/
structure Blocks where
  done : List Block
  current : Block

namespace Blocks

variable (b : Blocks)

def toList : List Block := b.done ++ [b.current]

@[simps]
def append (i : Instruction) : Blocks := { b with current := b.current.append i }

/-- In the first block. -/
def prepend (i : Instruction) : Blocks :=
  match b.done with
  | [] => ⟨[], b.current.prepend i⟩
  | first :: rest => ⟨first.prepend i :: rest, b.current⟩

@[simps]
def close (i : Instruction) : Blocks := { b with current := b.current.close i }

/-- A new block. -/
@[simps]
def place (label : Label) : Blocks := ⟨b.toList, label, [], none⟩

end Blocks

structure Config where
  state : State
  available : Set ℕ
  info : ℕ → LabelInfo
  blocks : Blocks

/-- A branch from a block to a label. -/
def branch (block : Label) (available : Set ℕ) (info : ℕ → LabelInfo) : Label → ℕ → LabelInfo
  | .entry => info
  | .numbered _ number =>
    Function.update info number
      { info number with preds := (info number).preds ++ [(block, available)] }

namespace Config

variable (c : Config)

@[simps]
def instruction (parts : List Part) : Config where
  state := { c.state with lines := c.state.lines ++ [.instruction ⟨none, parts⟩] }
  available := c.available
  info := c.info
  blocks := c.blocks.append ⟨none, parts⟩

/-- With a new temporary. -/
@[simps]
def define (parts : List Part) : Config where
  state := { c.state with
    nextTemp := c.state.nextTemp + 1
    lines := c.state.lines ++ [.instruction ⟨some c.state.nextTemp, parts⟩] }
  available := insert c.state.nextTemp c.available
  info := c.info
  blocks := c.blocks.append ⟨some c.state.nextTemp, parts⟩

@[simps]
def entryAlloca (ty : Text) : Config where
  state := { c.state with
    nextTemp := c.state.nextTemp + 1
    lines := c.state.lines.take 2 ++
      .instruction ⟨some c.state.nextTemp, ["alloca ", ty]⟩ :: c.state.lines.drop 2 }
  available := insert c.state.nextTemp c.available
  info := c.info
  blocks := c.blocks.prepend ⟨some c.state.nextTemp, ["alloca ", ty]⟩

@[simps]
def newLabel (stage : String) : Config where
  state := { c.state with nextLabel := c.state.nextLabel + 1 }
  available := c.available
  info := Function.update c.info c.state.nextLabel ⟨stage, c.available, .pending, []⟩
  blocks := c.blocks

/-- With labels for the stages. -/
def newLabels (c : Config) : List String → Config
  | [] => c
  | stage :: rest => (c.newLabel stage).newLabels rest

@[simps state_scopes state_lines state_nextTemp state_nextLabel state_currentBlock state_terminated
  available blocks]
def terminate (parts : List Part) : Config where
  state := { c.state with
    lines := c.state.lines ++ [.terminator ⟨none, parts⟩]
    terminated := true }
  available := c.available
  info := (labelsOf parts).foldl (branch c.state.currentBlock c.available) c.info
  blocks := c.blocks.close ⟨none, parts⟩

@[simps]
def placeLabel (stage : String) (number : ℕ) (status : Status) : Config where
  state := { c.state with
    lines := c.state.lines ++ [.label (.numbered stage number)]
    currentBlock := .numbered stage number
    terminated := false }
  available := (c.info number).reserved
  info := Function.update c.info number { c.info number with status := status }
  blocks := c.blocks.place (.numbered stage number)

@[simps]
def withScopes (scopes : List (HashMap Variable)) : Config where
  state := { c.state with scopes := scopes }
  available := c.available
  info := c.info
  blocks := c.blocks

/-- Without a terminator of its own, the block goes on. -/
def close (stage : String) (number : ℕ) : Config :=
  if c.state.terminated then c else c.terminate ["br label ", Label.numbered stage number]

/-- The operands of an instruction are defined. -/
def Uses (parts : List Part) : Prop := ∀ part ∈ parts, part.Holds c.available

@[simp]
theorem uses_nil : c.Uses [] := nofun

@[simp]
theorem uses_cons (part : Part) (parts : List Part) :
    c.Uses (part :: parts) ↔ part.Holds c.available ∧ c.Uses parts := List.forall_mem_cons

/-- A label waits for its block. -/
structure Pending (stage : String) (number : ℕ) : Prop where
  lt : number < c.state.nextLabel
  stage_eq : (c.info number).stage = stage
  status_eq : (c.info number).status = .pending

/-- A branch to the label can be written here. -/
structure CanBranch (stage : String) (number : ℕ) : Prop where
  lt : number < c.state.nextLabel
  stage_eq : (c.info number).stage = stage
  status_ne : (c.info number).status ≠ .closed
  reserved : (c.info number).reserved ⊆ c.available

/-- The block of a label without a branch to it. -/
structure Unreached (stage : String) (number : ℕ) : Prop where
  lt : number < c.state.nextLabel
  stage_eq : (c.info number).stage = stage
  status_eq : (c.info number).status = .closed
  preds_eq : (c.info number).preds = []

/-- Control cannot get past the last line. -/
def Stopped : Line → Prop
  | .label (.numbered stage number) => c.Unreached stage number
  | .instruction ⟨none, parts⟩ => FailureCall parts
  | _ => False

end Config

/-! ## Steps -/

/-- The terminator of a block whose end cannot be reached. -/
def unreachableParts : List Part := ["unreachable"]

/-- One step of the emitter, where it keeps the text well formed. -/
inductive Step : Config → Config → Prop
  | instruction {c : Config} {parts : List Part} (hrunning : c.state.terminated = false)
      (huses : c.Uses parts) (hordinary : Ordinary parts) : Step c (c.instruction parts)
  | define {c : Config} {parts : List Part} (hrunning : c.state.terminated = false)
      (huses : c.Uses parts) (hordinary : Ordinary parts) : Step c (c.define parts)
  | paramAlloca {c : Config} (ty : Text) (hrunning : c.state.terminated = false)
      (hentry : c.state.currentBlock = .entry) : Step c (c.define ["alloca ", ty])
  | entryAlloca {c : Config} (ty : Text) (hrunning : c.state.terminated = false) :
      Step c (c.entryAlloca ty)
  | newLabel (c : Config) (stage : String) : Step c (c.newLabel stage)
  | terminate {c : Config} {parts : List Part} (hrunning : c.state.terminated = false)
      (huses : c.Uses parts) (hopcode : opcode parts = .terminator)
      (hnodup : (labelsOf parts).Nodup)
      (hlabels : ∀ block ∈ labelsOf parts, ∃ stage number, block = .numbered stage number ∧
        c.CanBranch stage number)
      (hstopped : parts = unreachableParts → ∃ line ∈ c.state.lines.getLast?, c.Stopped line) :
      Step c (c.terminate parts)
  | placeLabel {c : Config} {stage : String} {number : ℕ} (status : Status)
      (hterminated : c.state.terminated = true) (hpending : c.Pending stage number)
      (hstatus : status ≠ .pending) : Step c (c.placeLabel stage number status)
  -- The block of a merge begins with the choice between the blocks before it.
  | merge {c : Config} {stage : String} {number : ℕ} {ty : String} {incoming : List (Part × Label)}
      (hterminated : c.state.terminated = true) (hpending : c.Pending stage number)
      (hincoming : List.Forall₂ (fun value pred => value.2 = pred.1 ∧ value.1.Holds pred.2 ∧
        value.1.label? = none) incoming (c.info number).preds) :
      Step c ((c.placeLabel stage number .closed).define (phiParts ty incoming))
  | scopes (c : Config) (scopes : List (HashMap Variable)) : Step c (c.withScopes scopes)

abbrev Steps := Relation.ReflTransGen Step

/-! ## Runs -/

/-- Where a part of the emitter does not fail, it takes steps and ends as stated. -/
def Runs {α : Type} (m : EmitM α) (c : Config) (Q : α → Config → Prop) : Prop :=
  ∀ a s, m c.state = some (a, s) → ∃ c', c'.state = s ∧ Steps c c' ∧ Q a c'

namespace Runs

variable {α β : Type} {m : EmitM α} {c c' : Config} {Q Q' : α → Config → Prop} {a : α}

theorem pure (h : Q a c) : Runs (Pure.pure a) c Q := by
  rintro _ _ ⟨⟩
  exact ⟨c, rfl, .refl, h⟩

theorem mono (h : Runs m c Q) (himp : ∀ a c', Q a c' → Q' a c') : Runs m c Q' := by
  intro a s hm
  obtain ⟨c', hs, hsteps, hQ⟩ := h a s hm
  exact ⟨c', hs, hsteps, himp a c' hQ⟩

/-- The rest behind a part that ran. -/
theorem rest {f : α → EmitM β} {b : β} {s : State} (h : Runs m c Q)
    (hrun : (m >>= f) c.state = some (b, s)) :
    ∃ a c', Steps c c' ∧ Q a c' ∧ f a c'.state = some (b, s) := by
  change (m c.state).bind (fun p => f p.1 p.2) = _ at hrun
  obtain ⟨⟨a, s'⟩, hm, hf⟩ := Option.bind_eq_some_iff.mp hrun
  obtain ⟨c', rfl, hsteps, hQ⟩ := h a s' hm
  exact ⟨a, c', hsteps, hQ, hf⟩

theorem bind {f : α → EmitM β} {R : β → Config → Prop}
    (h : Runs m c fun a c' => Runs (f a) c' R) : Runs (m >>= f) c R := by
  intro b s hb
  obtain ⟨a, c', hsteps, hrest, hf⟩ := h.rest hb
  obtain ⟨c'', hs, hsteps', hR⟩ := hrest b s hf
  exact ⟨c'', hs, hsteps.trans hsteps', hR⟩

/-- One part after another. -/
theorem seq {f : α → EmitM β} {R : β → Config → Prop} (hm : Runs m c Q)
    (hf : ∀ a c', Q a c' → Runs (f a) c' R) : Runs (m >>= f) c R := bind (hm.mono hf)

/-- A part whose run is one step. -/
theorem step (hm : m c.state = some (a, c'.state)) (hstep : Step c c') (h : Q a c') :
    Runs m c Q := by
  intro b s hb
  obtain ⟨rfl, rfl⟩ := Prod.mk.inj (Option.some.inj (hm.symm.trans hb))
  exact ⟨c', rfl, .single hstep, h⟩

theorem fails (hm : m c.state = none) : Runs m c Q := by
  intro a s h
  rw [hm] at h
  cases h

theorem unreachable : Runs (Emitter.unreachable : EmitM α) c Q := fails rfl

theorem expect {value : Option α} (h : ∀ a, value = some a → Q a c) :
    Runs (Emitter.expect value) c Q := by
  cases hvalue : value with
  | none => exact fails rfl
  | some a => exact pure (h a hvalue)

theorem get {Q : State → Config → Prop} (h : Q c.state c) : Runs MonadState.get c Q := by
  rintro _ _ ⟨⟩
  exact ⟨c, rfl, .refl, h⟩

theorem instruction {parts : List Part} {Q : Unit → Config → Prop}
    (hrunning : c.state.terminated = false) (huses : c.Uses parts) (hordinary : Ordinary parts)
    (h : Q () (c.instruction parts)) : Runs (Emitter.instruction parts) c Q :=
  step rfl (.instruction hrunning huses hordinary) h

theorem define {parts : List Part} {Q : Operand → Config → Prop}
    (hrunning : c.state.terminated = false) (huses : c.Uses parts) (hordinary : Ordinary parts)
    (h : Q (.temp c.state.nextTemp) (c.define parts)) : Runs (Emitter.define parts) c Q :=
  step rfl (.define hrunning huses hordinary) h

theorem paramAlloca {ty : Text} {Q : Operand → Config → Prop}
    (hrunning : c.state.terminated = false) (hentry : c.state.currentBlock = .entry)
    (h : Q (.temp c.state.nextTemp) (c.define ["alloca ", ty])) :
    Runs (Emitter.define ["alloca ", ty]) c Q :=
  step rfl (.paramAlloca ty hrunning hentry) h

theorem entryAlloca {ty : Text} {Q : Operand → Config → Prop}
    (hrunning : c.state.terminated = false)
    (h : Q (.temp c.state.nextTemp) (c.entryAlloca ty)) : Runs (Emitter.entryAlloca ty) c Q := by
  by_cases hlength : 2 ≤ c.state.lines.length
  · refine step ?_ (.entryAlloca ty hrunning) h
    change (insertLine 2 _ _).bind _ = _
    rw [insertLine, if_pos hlength]
    rfl
  · refine fails ?_
    change (insertLine 2 _ _).bind _ = _
    rw [insertLine, if_neg hlength]
    rfl

theorem label {stage : String} {Q : Label → Config → Prop}
    (h : Q (.numbered stage c.state.nextLabel) (c.newLabel stage)) :
    Runs (Emitter.label stage) c Q := step rfl (.newLabel c stage) h

theorem placeLabel {stage : String} {number : ℕ} {Q : Unit → Config → Prop} (status : Status)
    (hterminated : c.state.terminated = true) (hpending : c.Pending stage number)
    (hstatus : status ≠ .pending) (h : Q () (c.placeLabel stage number status)) :
    Runs (Emitter.placeLabel (.numbered stage number)) c Q :=
  step rfl (.placeLabel status hterminated hpending hstatus) h

/-- The block of a merge with its choice. -/
theorem merge {stage ty : String} {number : ℕ} {incoming : List (Part × Label)}
    {f : Operand → EmitM β} {R : β → Config → Prop}
    (hterminated : c.state.terminated = true) (hpending : c.Pending stage number)
    (hincoming : List.Forall₂ (fun value pred => value.2 = pred.1 ∧ value.1.Holds pred.2 ∧
      value.1.label? = none) incoming (c.info number).preds)
    (h : Runs (f (.temp c.state.nextTemp))
      ((c.placeLabel stage number .closed).define (phiParts ty incoming)) R) :
    Runs (do
      Emitter.placeLabel (.numbered stage number)
      let temp ← Emitter.define (phiParts ty incoming)
      f temp) c R := by
  refine seq (m := do
    Emitter.placeLabel (.numbered stage number)
    Emitter.define (phiParts ty incoming)) (Q := fun temp c' => Runs (f temp) c' R) ?_
      fun _ _ h => h
  exact step rfl (.merge hterminated hpending hincoming) h

theorem terminate {parts : List Part} {Q : Unit → Config → Prop}
    (hrunning : c.state.terminated = false) (huses : c.Uses parts) (hopcode : opcode parts = .terminator)
    (hlabels : labelsOf parts = [])
    (hstopped : parts = unreachableParts → ∃ line ∈ c.state.lines.getLast?, c.Stopped line)
    (h : Q () (c.terminate parts)) : Runs (Emitter.terminate parts) c Q :=
  step rfl (.terminate hrunning huses hopcode (by simp [hlabels]) (by simp [hlabels]) hstopped) h

theorem jump {stage : String} {number : ℕ} {Q : Unit → Config → Prop}
    (hrunning : c.state.terminated = false) (hlabel : c.CanBranch stage number)
    (h : Q () (c.terminate ["br label ", Label.numbered stage number])) :
    Runs (Emitter.terminate ["br label ", Label.numbered stage number]) c Q := by
  refine step rfl (.terminate hrunning (by simp) rfl (by simp) ?_ nofun) h
  simp only [labelsOf_text, labelsOf_label, labelsOf_nil, List.mem_singleton]
  rintro _ rfl
  exact ⟨stage, number, rfl, hlabel⟩

theorem branch {operand : Operand} {stage stage' : String} {number number' : ℕ}
    {Q : Unit → Config → Prop} (hrunning : c.state.terminated = false)
    (hoperand : operand.Holds c.available) (hlabel : c.CanBranch stage number)
    (hlabel' : c.CanBranch stage' number') (hne : number ≠ number')
    (h : Q () (c.terminate ["br i1 ", operand, ", label ", Label.numbered stage number, ", label ",
      Label.numbered stage' number'])) :
    Runs (Emitter.terminate ["br i1 ", operand, ", label ", Label.numbered stage number,
      ", label ", Label.numbered stage' number']) c Q := by
  refine step rfl (.terminate hrunning (by simp [hoperand]) rfl (by simp [hne]) ?_ nofun) h
  simp only [labelsOf_text, labelsOf_operand, labelsOf_label, labelsOf_nil, List.mem_cons,
    List.not_mem_nil, or_false]
  rintro _ (rfl | rfl)
  · exact ⟨stage, number, rfl, hlabel⟩
  · exact ⟨stage', number', rfl, hlabel'⟩

theorem scopes {f : List (HashMap Variable) → List (HashMap Variable)} {Q : Unit → Config → Prop}
    (h : Q () (c.withScopes (f c.state.scopes))) :
    Runs (modify fun s => { s with scopes := f s.scopes }) c Q :=
  step rfl (.scopes c (f c.state.scopes)) h

end Runs

/-! ## Labels -/

/-- Nothing happens to a label that is not named. -/
theorem foldl_branch {block : Label} {available : Set ℕ} {labels : List Label}
    {info : ℕ → LabelInfo} {number : ℕ} (h : ∀ stage, .numbered stage number ∉ labels) :
    labels.foldl (branch block available) info number = info number := by
  induction labels generalizing info with
  | nil => rfl
  | cons label rest ih =>
    simp only [List.mem_cons, not_or] at h
    rw [List.foldl_cons, ih fun stage => (h stage).2]
    cases label with
    | entry => rfl
    | numbered stage n =>
      refine Function.update_of_ne (fun heq => ?_) _ _
      exact (h stage).1 (by rw [heq])

/-- A branch changes neither the stage nor the status of a label, and not what is reserved. -/
theorem foldl_branch_preds (block : Label) (available : Set ℕ) (labels : List Label)
    (info : ℕ → LabelInfo) (number : ℕ) : ∃ preds,
    labels.foldl (branch block available) info number = { info number with preds := preds } := by
  induction labels generalizing info with
  | nil => exact ⟨_, rfl⟩
  | cons label rest ih =>
    obtain ⟨preds, hpreds⟩ := ih (branch block available info label)
    rw [List.foldl_cons, hpreds]
    cases label with
    | entry => exact ⟨_, rfl⟩
    | numbered stage n =>
      by_cases heq : number = n
      · subst heq
        rw [branch, Function.update_self]
        exact ⟨_, rfl⟩
      · rw [branch, Function.update_of_ne heq]
        exact ⟨_, rfl⟩

namespace Config

variable (c : Config) (parts : List Part) (number : ℕ)

theorem terminate_info : ∃ preds,
    (c.terminate parts).info number = { c.info number with preds := preds } :=
  foldl_branch_preds ..

@[simp]
theorem terminate_stage : ((c.terminate parts).info number).stage = (c.info number).stage := by
  obtain ⟨preds, hpreds⟩ := c.terminate_info parts number
  rw [hpreds]

@[simp]
theorem terminate_reserved :
    ((c.terminate parts).info number).reserved = (c.info number).reserved := by
  obtain ⟨preds, hpreds⟩ := c.terminate_info parts number
  rw [hpreds]

@[simp]
theorem terminate_status : ((c.terminate parts).info number).status = (c.info number).status := by
  obtain ⟨preds, hpreds⟩ := c.terminate_info parts number
  rw [hpreds]

theorem terminate_info_of_notMem {c : Config} {parts : List Part} {number : ℕ}
    (h : ∀ stage, .numbered stage number ∉ labelsOf parts) :
    (c.terminate parts).info number = c.info number := foldl_branch h

theorem jump_info (c : Config) (stage : String) (number : ℕ) :
    (c.terminate ["br label ", Label.numbered stage number]).info =
      Function.update c.info number { c.info number with
        preds := (c.info number).preds ++ [(c.state.currentBlock, c.available)] } := rfl

theorem newLabels_state (stages : List String) : (c.newLabels stages).state =
    { c.state with nextLabel := c.state.nextLabel + stages.length } := by
  induction stages generalizing c with
  | nil => rfl
  | cons stage rest ih =>
    rw [newLabels, ih, newLabel_state_nextLabel, List.length_cons, Nat.add_right_comm, Nat.add_assoc]
    rfl

@[simp]
theorem newLabels_available (stages : List String) :
    (c.newLabels stages).available = c.available := by
  induction stages generalizing c with
  | nil => rfl
  | cons stage rest ih => exact ih _

theorem newLabels_info_of_lt {c : Config} {stages : List String} {number : ℕ}
    (h : number < c.state.nextLabel) : (c.newLabels stages).info number = c.info number := by
  induction stages generalizing c with
  | nil => rfl
  | cons stage rest ih =>
    rw [newLabels, ih (h.trans (Nat.lt_succ_self _)), newLabel_info, Function.update_of_ne h.ne]

theorem newLabels_info {c : Config} {stages : List String} {stage : String} (index : ℕ)
    (h : stages[index]? = some stage) : (c.newLabels stages).info (c.state.nextLabel + index) =
      ⟨stage, c.available, .pending, []⟩ := by
  induction stages generalizing c index with
  | nil => simp at h
  | cons first rest ih =>
    cases index with
    | zero =>
      obtain rfl : first = stage := by simpa using h
      rw [newLabels, newLabels_info_of_lt (Nat.lt_succ_self _), newLabel_info]
      exact Function.update_self ..
    | succ index =>
      rw [newLabels, ← Nat.add_assoc, Nat.add_right_comm]
      exact @ih (c.newLabel first) index (by simpa using h)

theorem close_of_terminated {c : Config} (h : c.state.terminated = true) (stage : String)
    (number : ℕ) : c.close stage number = c := if_pos h

theorem close_info (stage : String) {number n : ℕ} (h : n ≠ number) :
    (c.close stage number).info n = c.info n := by
  unfold close
  split
  · rfl
  · rw [jump_info, Function.update_of_ne h]

section

variable (stage : String) (number : ℕ)

@[simp]
theorem close_terminated : (c.close stage number).state.terminated = true := by
  unfold close
  split
  · assumption
  · rfl

@[simp]
theorem close_scopes : (c.close stage number).state.scopes = c.state.scopes := by
  unfold close
  split <;> rfl

@[simp]
theorem close_nextLabel : (c.close stage number).state.nextLabel = c.state.nextLabel := by
  unfold close
  split <;> rfl

@[simp]
theorem close_stage (n : ℕ) : ((c.close stage number).info n).stage = (c.info n).stage := by
  unfold close
  split
  · rfl
  · rw [terminate_stage]

@[simp]
theorem close_reserved (n : ℕ) :
    ((c.close stage number).info n).reserved = (c.info n).reserved := by
  unfold close
  split
  · rfl
  · rw [terminate_reserved]

@[simp]
theorem close_status (n : ℕ) : ((c.close stage number).info n).status = (c.info n).status := by
  unfold close
  split
  · rfl
  · rw [terminate_status]

end

end Config

/-- The labels before a part of the emitter are as they were, and of the new ones only the owed ones
have no block. -/
structure Keeps (c : Config) (owed : List ℕ) (c' : Config) : Prop where
  nextLabel : c.state.nextLabel ≤ c'.state.nextLabel
  info : ∀ number < c.state.nextLabel, c'.info number = c.info number
  owed : ∀ number, c.state.nextLabel ≤ number → number < c'.state.nextLabel →
    (c'.info number).status = .pending → number ∈ owed

namespace Keeps

variable {c c' c'' : Config} {owed owed' : List ℕ}

theorem refl (c : Config) : Keeps c [] c := ⟨le_rfl, fun _ _ => rfl, by omega⟩

theorem trans (h : Keeps c owed c') (h' : Keeps c' [] c'') : Keeps c owed c'' where
  nextLabel := h.nextLabel.trans h'.nextLabel
  info number hlt := (h'.info number (hlt.trans_le h.nextLabel)).trans (h.info number hlt)
  owed number hle hlt hpending := by
    by_cases hnew : c'.state.nextLabel ≤ number
    · exact absurd (h'.owed number hnew hlt hpending) List.not_mem_nil
    · have hold := h'.info number (not_le.mp hnew)
      exact h.owed number hle (not_le.mp hnew) (hold ▸ hpending)

/-- Nothing happens to labels. -/
theorem same (h : Keeps c owed c') (hnext : c''.state.nextLabel = c'.state.nextLabel)
    (hinfo : c''.info = c'.info) : Keeps c owed c'' := by
  obtain ⟨h₁, h₂, h₃⟩ := h
  refine ⟨?_, ?_, ?_⟩
  · rw [hnext]
    exact h₁
  · rw [hinfo]
    exact h₂
  · rw [hnext, hinfo]
    exact h₃

theorem instruction (h : Keeps c owed c') (parts : List Part) :
    Keeps c owed (c'.instruction parts) := h.same rfl rfl

theorem define (h : Keeps c owed c') (parts : List Part) : Keeps c owed (c'.define parts) :=
  h.same rfl rfl

theorem entryAlloca (h : Keeps c owed c') (ty : Text) : Keeps c owed (c'.entryAlloca ty) :=
  h.same rfl rfl

theorem withScopes (h : Keeps c owed c') (scopes : List (HashMap Variable)) :
    Keeps c owed (c'.withScopes scopes) := h.same rfl rfl

theorem newLabel (h : Keeps c owed c') (stage : String) :
    Keeps c (c'.state.nextLabel :: owed) (c'.newLabel stage) where
  nextLabel := h.nextLabel.trans (Nat.le_succ _)
  info number hlt := by
    have hne : number ≠ c'.state.nextLabel := by have := h.nextLabel; omega
    rw [Config.newLabel_info, Function.update_of_ne hne]
    exact h.info number hlt
  owed number hle hlt hpending := by
    by_cases heq : number = c'.state.nextLabel
    · exact heq ▸ List.mem_cons_self
    · rw [Config.newLabel_info, Function.update_of_ne heq] at hpending
      rw [Config.newLabel_state_nextLabel] at hlt
      exact List.mem_cons_of_mem _ (h.owed number hle (by omega) hpending)

theorem terminate (h : Keeps c owed c') {parts : List Part}
    (hlabels : ∀ stage number, .numbered stage number ∈ labelsOf parts →
      c.state.nextLabel ≤ number) : Keeps c owed (c'.terminate parts) where
  nextLabel := h.nextLabel
  info number hlt := by
    refine Eq.trans (foldl_branch fun stage hmem => ?_) (h.info number hlt)
    exact absurd (hlabels stage number hmem) (not_le.mpr hlt)
  owed number hle hlt hpending := by
    rw [Config.terminate_status] at hpending
    exact h.owed number hle hlt hpending

theorem jump (h : Keeps c owed c') {stage : String} {number : ℕ}
    (hnew : c.state.nextLabel ≤ number) :
    Keeps c owed (c'.terminate ["br label ", Label.numbered stage number]) := by
  refine h.terminate fun stage' number' hmem => ?_
  simp only [labelsOf_text, labelsOf_label, labelsOf_nil, List.mem_singleton] at hmem
  obtain ⟨-, rfl⟩ := Label.numbered.inj hmem
  exact hnew

theorem branch (h : Keeps c owed c') {operand : Operand} {stage stage' : String}
    {number number' : ℕ} (hnew : c.state.nextLabel ≤ number)
    (hnew' : c.state.nextLabel ≤ number') :
    Keeps c owed (c'.terminate ["br i1 ", operand, ", label ", Label.numbered stage number,
      ", label ", Label.numbered stage' number']) := by
  refine h.terminate fun stage₁ number₁ hmem => ?_
  simp only [labelsOf_text, labelsOf_operand, labelsOf_label, labelsOf_nil, List.mem_cons,
    List.not_mem_nil, or_false] at hmem
  rcases hmem with hmem | hmem
  · obtain ⟨-, rfl⟩ := Label.numbered.inj hmem
    exact hnew
  · obtain ⟨-, rfl⟩ := Label.numbered.inj hmem
    exact hnew'

theorem newLabels (h : Keeps c owed c') (stages : List String)
    (howed : ∀ n ∈ owed, n ∈ owed')
    (hnew : ∀ index < stages.length, c'.state.nextLabel + index ∈ owed') :
    Keeps c owed' (c'.newLabels stages) where
  nextLabel := by
    rw [Config.newLabels_state]
    exact h.nextLabel.trans (Nat.le_add_right _ _)
  info number hlt := by
    rw [Config.newLabels_info_of_lt (hlt.trans_le h.nextLabel), h.info number hlt]
  owed number hle hlt hpending := by
    rw [Config.newLabels_state] at hlt
    by_cases hold : number < c'.state.nextLabel
    · rw [Config.newLabels_info_of_lt hold] at hpending
      exact howed number (h.owed number hle hold hpending)
    · obtain ⟨index, rfl⟩ := Nat.exists_eq_add_of_le (not_lt.mp hold)
      exact hnew index (Nat.lt_of_add_lt_add_left hlt)

theorem close (h : Keeps c owed c') (stage : String) {number : ℕ}
    (hnew : c.state.nextLabel ≤ number) : Keeps c owed (c'.close stage number) := by
  unfold Config.close
  split
  · exact h
  · exact h.jump hnew

/-- A label gets its block. -/
theorem place (h : Keeps c owed c') {number : ℕ} {status : Status}
    (hnext : c''.state.nextLabel = c'.state.nextLabel)
    (hinfo : c''.info = Function.update c'.info number { c'.info number with status := status })
    (hnew : c.state.nextLabel ≤ number) (hstatus : status ≠ .pending)
    (howed : ∀ n ∈ owed, n = number ∨ n ∈ owed') : Keeps c owed' c'' where
  nextLabel := hnext ▸ h.nextLabel
  info n hlt := by
    rw [hinfo, Function.update_of_ne (by omega)]
    exact h.info n hlt
  owed n hle hlt hpending := by
    rw [hnext] at hlt
    by_cases heq : n = number
    · subst heq
      rw [hinfo, Function.update_self] at hpending
      exact absurd hpending hstatus
    · rw [hinfo, Function.update_of_ne heq] at hpending
      exact (howed n (h.owed n hle hlt hpending)).resolve_left heq

theorem placeLabel (h : Keeps c owed c') (stage : String) {number : ℕ} {status : Status}
    (hnew : c.state.nextLabel ≤ number) (hstatus : status ≠ .pending)
    (howed : ∀ n ∈ owed, n = number ∨ n ∈ owed') :
    Keeps c owed' (c'.placeLabel stage number status) :=
  h.place rfl (funext (Config.placeLabel_info c' stage number status)) hnew hstatus howed

end Keeps

/-! ## Blocks -/

/-- What an expression keeps : it goes on in a block without a terminator. -/
structure Extends (c c' : Config) : Prop where
  keeps : Keeps c [] c'
  running : c'.state.terminated = false
  scopes : c'.state.scopes = c.state.scopes
  available : c.available ⊆ c'.available

namespace Extends

variable {c c' c'' : Config}

theorem refl (h : c.state.terminated = false) : Extends c c := ⟨.refl c, h, rfl, subset_rfl⟩

theorem trans (h : Extends c c') (h' : Extends c' c'') : Extends c c'' :=
  ⟨h.keeps.trans h'.keeps, h'.running, h'.scopes.trans h.scopes, h.available.trans h'.available⟩

theorem instruction (h : Extends c c') (parts : List Part) : Extends c (c'.instruction parts) :=
  ⟨h.keeps.instruction parts, h.running, h.scopes, h.available⟩

theorem define (h : Extends c c') (parts : List Part) : Extends c (c'.define parts) :=
  ⟨h.keeps.define parts, h.running, h.scopes, h.available.trans (Set.subset_insert _ _)⟩

theorem entryAlloca (h : Extends c c') (ty : Text) : Extends c (c'.entryAlloca ty) :=
  ⟨h.keeps.entryAlloca ty, h.running, h.scopes, h.available.trans (Set.subset_insert _ _)⟩

end Extends

end Emitter

end Speck
