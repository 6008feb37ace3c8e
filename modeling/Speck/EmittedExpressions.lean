import Speck.EmitterSteps

/-!
# Emitted expressions

What an expression appends (`expressionAs_runs`) : it takes steps, ends in a block without a
terminator, and its value is defined there, also where the expression made blocks of its own for
checks, conversions and short circuits. Nothing is assumed of the types : an expression for which the
emitter fails appends nothing.
-/

set_option linter.unusedSectionVars false

namespace Speck

namespace Emitter

open EmbeddedData (intText i32Text RuntimeDiagnostics)

/-! ## Values -/

/-- The block goes on, and the operand is defined. -/
structure Evaluates (c : Config) (operand : Operand) (c' : Config) : Prop where
  ends : Extends c c'
  holds : operand.Holds c'.available

theorem Evaluates.trans {c c' c'' : Config} {operand : Operand} (h' : Evaluates c' operand c'')
    (h : Extends c c') : Evaluates c operand c'' := ⟨h.trans h'.ends, h'.holds⟩

/-- The storage of every local is defined. -/
def Scoped (scopes : List (HashMap Variable)) (available : Set ℕ) : Prop :=
  ∀ scope ∈ scopes, ∀ {name place}, scope.lookup name = some place →
    place.pointer.Holds available

/-- An expression can be emitted here. -/
structure Ready (c : Config) : Prop where
  running : c.state.terminated = false
  locals : Scoped c.state.scopes c.available

theorem Scoped.mono {scopes : List (HashMap Variable)} {available available' : Set ℕ}
    (h : Scoped scopes available) (hle : available ⊆ available') : Scoped scopes available' :=
  fun scope hscope _ _ hlookup => (h scope hscope hlookup).mono hle

theorem Scoped.cons {scopes : List (HashMap Variable)} {scope : HashMap Variable}
    {available : Set ℕ} (hscope : ∀ {name place}, scope.lookup name = some place →
      place.pointer.Holds available) (h : Scoped scopes available) :
    Scoped (scope :: scopes) available := by
  intro scope' hmem
  rcases List.mem_cons.mp hmem with rfl | hmem
  · exact hscope
  · exact h scope' hmem

theorem Scoped.push {scopes : List (HashMap Variable)} {available : Set ℕ}
    (h : Scoped scopes available) : Scoped (∅ :: scopes) available :=
  h.cons fun hlookup => by simp at hlookup

theorem Ready.after {c c' : Config} (h : Ready c) (h' : Extends c c') : Ready c' where
  running := h'.running
  locals := by
    rw [h'.scopes]
    exact h.locals.mono h'.available

/-- The globals are named by their symbols. -/
def FunctionEmitter.Fixed (f : FunctionEmitter) : Prop :=
  ∀ name place, f.globals.lookup name = some place → ∃ text, place.pointer = .text text

/-- The result of a part that gives a value. -/
abbrev Gives (c : Config) (value : Value) (c' : Config) : Prop := Evaluates c value.repr c'

/-- The result of a part that gives a place. -/
abbrev Places (c : Config) (place : Variable) (c' : Config) : Prop := Evaluates c place.pointer c'

/-- The result of a part that may give a place. -/
def MayPlace (c : Config) (place : Option Variable) (c' : Config) : Prop :=
  Extends c c' ∧ ∀ p ∈ place, p.pointer.Holds c'.available

/-! ## Instructions -/

theorem define_runs {c : Config} {parts : List Part} (hrunning : c.state.terminated = false)
    (huses : c.Uses parts) (hordinary : Ordinary parts) :
    Runs (define parts) c (Evaluates c) :=
  .define hrunning huses hordinary ⟨(Extends.refl hrunning).define parts, Set.mem_insert _ _⟩

theorem valueType_runs {c : Config} {value : Value} {Q : ValueType → Config → Prop}
    (h : ∀ ty, Q ty c) : Runs (FunctionEmitter.valueType value) c Q :=
  .expect fun ty _ => h ty

/-! ## Branches to a merge -/

/-- One way of a branch goes to a merge, and the other goes on. -/
structure Arm (c : Config) (stage : String) (short : ℕ) (next : Label) (number merge : ℕ)
    (c' : Config) : Prop where
  running : c'.state.terminated = false
  scopes : c'.state.scopes = c.state.scopes
  nextLabel : c'.state.nextLabel = c.state.nextLabel
  block : c'.state.currentBlock = next
  available : c'.available = (c.info number).reserved
  info_merge : c'.info merge = { c.info merge with
    preds := (c.info merge).preds ++ [(.numbered stage short, (c.info short).reserved)] }
  closed : ∀ n, n = short ∨ n = number → (c'.info n).status = .closed
  others : ∀ n, n ≠ short → n ≠ number → n ≠ merge → c'.info n = c.info n

/-- The branch of an arm. -/
def armParts (operand : Operand) (short next : Label) : Bool → List Part
  | true => ["br i1 ", operand, ", label ", short, ", label ", next]
  | false => ["br i1 ", operand, ", label ", next, ", label ", short]

theorem Keeps.arm {c₀ c c' : Config} {owed owed' : List ℕ} {stage : String}
    {next : Label} {short number merge : ℕ} (h : Keeps c₀ owed c)
    (harm : Arm c stage short next number merge c') (hshort : c₀.state.nextLabel ≤ short)
    (hnumber : c₀.state.nextLabel ≤ number) (hmerge : c₀.state.nextLabel ≤ merge)
    (howed : ∀ n ∈ owed, n = short ∨ n = number ∨ n ∈ owed') : Keeps c₀ owed' c' where
  nextLabel := harm.nextLabel ▸ h.nextLabel
  info n hlt := by
    rw [harm.others n (by omega) (by omega) (by omega), h.info n hlt]
  owed n hle hlt hpending := by
    rw [harm.nextLabel] at hlt
    have hclosed : ∀ m, m = short ∨ m = number → n ≠ m := fun m hm heq => by
      rw [heq, harm.closed m hm] at hpending
      cases hpending
    have hsame : (c.info n).status = .pending := by
      by_cases heq : n = merge
      · rwa [heq, harm.info_merge, ← heq] at hpending
      · rwa [harm.others n (hclosed _ (.inl rfl)) (hclosed _ (.inr rfl)) heq] at hpending
    exact ((howed n (h.owed n hle hlt hsame)).resolve_left (hclosed _ (.inl rfl))).resolve_left
      (hclosed _ (.inr rfl))

theorem arm_runs {β : Type} {c : Config} {m : EmitM β} {R : β → Config → Prop} (first : Bool)
    {operand : Operand} {stage stage' stage'' : String} {short number merge : ℕ}
    (hrunning : c.state.terminated = false) (hoperand : operand.Holds c.available)
    (hshort : c.Pending stage short) (hnumber : c.Pending stage' number)
    (hmerge : c.Pending stage'' merge) (hne : short ≠ number) (hne' : short ≠ merge)
    (hne'' : number ≠ merge) {available : Set ℕ} (hle : available ⊆ c.available)
    (hreserved : ∀ n, n = short ∨ n = number ∨ n = merge → (c.info n).reserved = available)
    (h : ∀ c', Arm c stage short (.numbered stage' number) number merge c' → Runs m c' R) :
    Runs (do
      terminate (armParts operand (.numbered stage short) (.numbered stage' number) first)
      placeLabel (.numbered stage short)
      terminate ["br label ", Label.numbered stage'' merge]
      placeLabel (.numbered stage' number)
      m) c R := by
  have hs := hreserved short (.inl rfl)
  have hn := hreserved number (.inr (.inl rfl))
  have hm := hreserved merge (.inr (.inr rfl))
  have hshortBranch : c.CanBranch stage short :=
    ⟨hshort.lt, hshort.stage_eq, by simp [hshort.status_eq], hs ▸ hle⟩
  have hnumberBranch : c.CanBranch stage' number :=
    ⟨hnumber.lt, hnumber.stage_eq, by simp [hnumber.status_eq], hn ▸ hle⟩
  set parts := armParts operand (.numbered stage short) (.numbered stage' number) first with hparts
  have hinfo : ∀ n, n ≠ short → n ≠ number → (c.terminate parts).info n = c.info n := by
    intro n h₁ h₂
    refine Config.terminate_info_of_notMem fun stage₁ => ?_
    cases first <;> simp [hparts, armParts, h₁, h₂]
  have hbranch : Runs (terminate parts) c fun _ c' => c' = c.terminate parts := by
    cases first with
    | true => exact .branch hrunning hoperand hshortBranch hnumberBranch hne rfl
    | false => exact .branch hrunning hoperand hnumberBranch hshortBranch hne.symm rfl
  refine .seq hbranch ?_
  rintro _ _ rfl
  refine .bind (.placeLabel .closed rfl ⟨hshort.lt, by simp [hshort.stage_eq],
    by simp [hshort.status_eq]⟩ nofun ?_)
  set c₂ := (c.terminate parts).placeLabel stage short .closed with hc₂
  have hmerge₂ : c₂.info merge = c.info merge := by
    rw [hc₂, Config.placeLabel_info, Function.update_of_ne hne'.symm, hinfo _ hne'.symm hne''.symm]
  refine .bind (.jump rfl ⟨hmerge.lt, by rw [hmerge₂, hmerge.stage_eq],
    by simp [hmerge₂, hmerge.status_eq], ?_⟩ ?_)
  · rw [hmerge₂, hm]
    simp [hc₂, hs]
  refine .bind (.placeLabel .closed rfl ⟨hnumber.lt, ?_, ?_⟩ nofun (h _ ?_))
  · simp [hc₂, hne.symm, hnumber.stage_eq]
  · simp [hc₂, hne.symm, hnumber.status_eq]
  refine ⟨rfl, rfl, rfl, rfl, ?_, ?_, ?_, ?_⟩
  · simp [hc₂, hne.symm]
  · rw [Config.placeLabel_info, Function.update_of_ne hne''.symm, Config.jump_info,
      Function.update_self, hmerge₂]
    simp [hc₂]
  · rintro n (rfl | rfl)
    · simp [hc₂, hne]
    · simp
  · intro n h₁ h₂ h₃
    rw [Config.placeLabel_info, Function.update_of_ne h₂, Config.jump_info,
      Function.update_of_ne h₃, hc₂, Config.placeLabel_info, Function.update_of_ne h₁, hinfo n h₁ h₂]

namespace FunctionEmitter

variable {f : FunctionEmitter} {c : Config}

theorem load_runs {place : Variable} (hrunning : c.state.terminated = false)
    (hplace : place.pointer.Holds c.available) : Runs (load place) c (Gives c) := by
  unfold load
  refine .bind (.expect fun ty _ => ?_)
  refine .seq (define_runs hrunning (by simp [hplace]) ⟨rfl, rfl⟩) fun temp c' h => ?_
  exact .pure h

theorem store_runs {ty : ValueType} {value pointer : Operand}
    (hrunning : c.state.terminated = false) (hvalue : value.Holds c.available)
    (hpointer : pointer.Holds c.available) :
    Runs (store ty value pointer) c (fun _ c' => Extends c c') := by
  unfold store
  refine .bind (.expect fun ty _ => ?_)
  exact .instruction hrunning (by simp [hvalue, hpointer]) ⟨rfl, rfl⟩ ((Extends.refl hrunning).instruction _)

theorem findVariable_runs (hf : f.Fixed) (hc : Ready c) (name : String) :
    Runs (f.findVariable name) c (MayPlace c) := by
  rintro _ _ ⟨⟩
  refine ⟨c, rfl, .refl, .refl hc.running, fun place hplace => ?_⟩
  rcases Option.or_eq_some_iff.mp hplace with hlocal | ⟨-, hglobal⟩
  · obtain ⟨scope, hscope, hlookup⟩ := exists_of_lookupScopes hlocal
    exact hc.locals scope hscope hlookup
  · obtain ⟨text, htext⟩ := hf name place hglobal
    rw [htext]
    trivial

/-! ## Checks -/

theorem location_runs (d : RuntimeDiagnostics) (span : Span) :
    Runs (location d span) c fun parts c' => c' = c ∧ ∀ p ∈ parts, c.Uses p ∧ Ordinary p := by
  unfold location
  cases d with
  | plain => exact .pure ⟨rfl, by simp⟩
  | located sources =>
    refine .bind (.expect fun source _ => .bind (.expect fun place _ => .pure ⟨rfl, ?_⟩))
    rintro _ ⟨⟩
    exact ⟨by simp, rfl, rfl⟩

/-- The block of a failure is there, and ends. -/
structure Failed (c : Config) (number : ℕ) (c' : Config) : Prop where
  terminated : c'.state.terminated = true
  scopes : c'.state.scopes = c.state.scopes
  nextLabel : c'.state.nextLabel = c.state.nextLabel
  info : c'.info = Function.update c.info number { c.info number with status := .closed }

theorem failureCall_ordinary {call : List Part} (h : FailureCall call) : Ordinary call := by
  cases h <;> exact ⟨rfl, rfl⟩

theorem failureBlock_runs {stage : String} {number : ℕ} {span : Span} {call : List Part}
    (hterminated : c.state.terminated = true) (hpending : c.Pending stage number)
    (hcall : FailureCall call) (huses : ∀ part ∈ call, part.Holds (c.info number).reserved) :
    Runs (f.failureBlock (.numbered stage number) span call) c fun _ => Failed c number := by
  unfold failureBlock reportLocation
  refine .bind (.placeLabel .closed hterminated hpending nofun ?_)
  set c₁ := c.placeLabel stage number .closed
  have hinfo : c₁.info = Function.update c.info number { c.info number with status := .closed } :=
    rfl
  have hreport : Runs (f.reportLocation span) c₁ fun _ c' => c'.state.terminated = false ∧
      c'.state.scopes = c.state.scopes ∧ c'.state.nextLabel = c.state.nextLabel ∧
      c'.info = c₁.info ∧ c'.available = c₁.available := by
    unfold reportLocation
    refine .seq (location_runs _ _) ?_
    rintro (_ | parts) _ ⟨rfl, hparts⟩
    · exact .pure ⟨rfl, rfl, rfl, rfl, rfl⟩
    · exact .instruction rfl (hparts parts rfl).1 (hparts parts rfl).2 ⟨rfl, rfl, rfl, rfl, rfl⟩
  refine .seq hreport fun _ c₂ ⟨hrunning, hscopes, hnext, hinfo₂, havailable⟩ => ?_
  refine .bind (.instruction hrunning ?_ (failureCall_ordinary hcall) ?_)
  · intro part hpart
    rw [havailable]
    exact huses part hpart
  · refine .terminate hrunning (by simp) rfl rfl (fun _ => ?_) ⟨rfl, hscopes, hnext, ?_⟩
    · exact ⟨_, List.getLast?_concat, hcall⟩
    · exact hinfo₂.trans hinfo

theorem boundsCheck_runs {index : Operand} {length : ℕ} {span : Span}
    (hrunning : c.state.terminated = false) (hindex : index.Holds c.available) :
    Runs (f.boundsCheck index length span) c fun _ => Extends c := by
  unfold boundsCheck
  refine .seq (define_runs hrunning (by simp [hindex]) ⟨rfl, rfl⟩) fun nonnegative c₁ h₁ => ?_
  have hindex₁ := hindex.mono h₁.ends.available
  refine .seq (define_runs h₁.ends.running (by simp [hindex₁]) ⟨rfl, rfl⟩) fun belowLength c₂ h₂ => ?_
  have hnonnegative := h₁.holds.mono h₂.ends.available
  refine .seq (define_runs h₂.ends.running (by simp [hnonnegative, h₂.holds]) ⟨rfl, rfl⟩)
    fun valid c₃ h₃ => ?_
  have hext : Extends c c₃ := (h₁.ends.trans h₂.ends).trans h₃.ends
  have hindex₃ := hindex.mono hext.available
  have hnew : c.state.nextLabel ≤ c₃.state.nextLabel := hext.keeps.nextLabel
  refine .bind (.label (.bind (.label ?_)))
  refine .bind (.branch h₃.ends.running h₃.holds ?_ ?_ (by simp) ?_)
  · constructor <;> simp <;> omega
  · constructor <;> simp
  refine .seq (failureBlock_runs rfl ?_ (.bounds index length) ?_) fun _ c₄ h₄ => ?_
  · constructor <;> simp
  · simp [hindex₃]
  have hkeeps : Keeps c [c₃.state.nextLabel] c₄ :=
    (((hext.keeps.newLabel _).newLabel _).branch hnew (by simp <;> omega)).place h₄.nextLabel h₄.info
      (by simp <;> omega) (by rintro ⟨⟩) (by simp)
  refine .placeLabel .closed h₄.terminated ?_ (by rintro ⟨⟩)
    ⟨hkeeps.placeLabel _ hnew (by rintro ⟨⟩) (by simp), rfl, h₄.scopes.trans hext.scopes, ?_⟩
  · constructor <;> simp [h₄.nextLabel, h₄.info] <;> omega
  · simp [h₄.info, hext.available]

theorem checkedI32Division_runs {left right : Operand} {op : BinaryOp} {span : Span}
    (hrunning : c.state.terminated = false) (hleft : left.Holds c.available)
    (hright : right.Holds c.available) :
    Runs (f.checkedI32Division left op right span) c (Gives c) := by
  -- the instructions are those of the division or of the remainder
  have hrun : ∀ mnemonic hook stage : String, (mnemonic = "sdiv" ∨ mnemonic = "srem") →
      (hook = "crumb_division_fail" ∨ hook = "crumb_remainder_fail") →
      Runs (do
        let failureLabel ← label (stage ++ "_failure")
        let validLabel ← label (stage ++ "_valid")
        let isZero ← define ["icmp eq i32 ", right, ", 0"]
        let isMinimum ← define ["icmp eq i32 ", left, ", ", i32Text (BitVec.intMin 32)]
        let isNegativeOne ← define ["icmp eq i32 ", right, ", -1"]
        let overflows ← define ["and i1 ", isMinimum, ", ", isNegativeOne]
        let invalid ← define ["or i1 ", isZero, ", ", overflows]
        terminate ["br i1 ", invalid, ", label ", failureLabel, ", label ", validLabel]
        f.failureBlock failureLabel span ["call void @", hook, "(i32 ", left, ", i32 ", right, ")"]
        placeLabel validLabel
        let result ← define [mnemonic, " i32 ", left, ", ", right]
        pure (⟨.value .i32, result⟩ : Value)) c (Gives c) := by
    intro mnemonic hook stage hmnemonic hhook
    refine .bind (.label (.bind (.label ?_)))
    set c₀ := (c.newLabel (stage ++ "_failure")).newLabel (stage ++ "_valid") with hc₀
    have hrunning₀ : c₀.state.terminated = false := hrunning
    have hleft₀ : left.Holds c₀.available := hleft
    have hright₀ : right.Holds c₀.available := hright
    refine .seq (define_runs hrunning₀ (by simp [hright₀]) ⟨rfl, rfl⟩) fun isZero c₁ h₁ => ?_
    have hleft₁ := hleft₀.mono h₁.ends.available
    refine .seq (define_runs h₁.ends.running (by simp [hleft₁]) ⟨rfl, rfl⟩) fun isMinimum c₂ h₂ => ?_
    have hright₂ := hright₀.mono (h₁.ends.trans h₂.ends).available
    refine .seq (define_runs h₂.ends.running (by simp [hright₂]) ⟨rfl, rfl⟩) fun isNegativeOne c₃ h₃ => ?_
    have hminimum := h₂.holds.mono h₃.ends.available
    refine .seq (define_runs h₃.ends.running (by simp [hminimum, h₃.holds]) ⟨rfl, rfl⟩)
      fun overflows c₄ h₄ => ?_
    have hzero := h₁.holds.mono ((h₂.ends.trans h₃.ends).trans h₄.ends).available
    refine .seq (define_runs h₄.ends.running (by simp [hzero, h₄.holds]) ⟨rfl, rfl⟩)
      fun invalid c₅ h₅ => ?_
    have hext : Extends c₀ c₅ :=
      (((h₁.ends.trans h₂.ends).trans h₃.ends).trans h₄.ends).trans h₅.ends
    have hfailure : c₅.info c.state.nextLabel = c₀.info c.state.nextLabel :=
      hext.keeps.info _ (by simp [hc₀] <;> omega)
    have hvalid : c₅.info (c.state.nextLabel + 1) = c₀.info (c.state.nextLabel + 1) :=
      hext.keeps.info _ (by simp [hc₀])
    have hnext : c.state.nextLabel + 2 ≤ c₅.state.nextLabel := hext.keeps.nextLabel
    have havailable : c.available ⊆ c₅.available := hext.available
    refine .bind (.branch h₅.ends.running h₅.holds ⟨by omega, by simp [hfailure, hc₀],
      by simp [hfailure, hc₀], by simp [hfailure, hc₀, havailable]⟩ ⟨hnext, by simp [hvalid, hc₀],
      by simp [hvalid, hc₀], by simp [hvalid, hc₀, havailable]⟩ (by simp) ?_)
    refine .seq (failureBlock_runs rfl ⟨Nat.lt_of_succ_lt hnext, by simp [hfailure, hc₀],
      by simp [hfailure, hc₀]⟩ (.division left right hhook) (by simp [hfailure, hc₀, hleft, hright]))
      fun _ c₆ h₆ => ?_
    have hkeeps : Keeps c [c.state.nextLabel + 1] c₆ :=
      (((((Keeps.refl c).newLabel _).newLabel _).trans hext.keeps).branch le_rfl
        (by simp)).place h₆.nextLabel h₆.info le_rfl (by rintro ⟨⟩) (by simp)
    have hplaced : Extends c (c₆.placeLabel (stage ++ "_valid") (c.state.nextLabel + 1) .closed) :=
      ⟨hkeeps.placeLabel _ (Nat.le_succ _) (by rintro ⟨⟩) (by simp), rfl, h₆.scopes.trans hext.scopes,
        by simp [h₆.info, hvalid, hc₀]⟩
    refine .bind (.placeLabel .closed h₆.terminated ⟨h₆.nextLabel ▸ hnext,
      by simp [h₆.info, hvalid, hc₀], by simp [h₆.info, hvalid, hc₀]⟩ (by rintro ⟨⟩) ?_)
    have hresult : Ordinary [mnemonic, " i32 ", left, ", ", right] := by
      rcases hmnemonic with rfl | rfl <;> exact ⟨rfl, rfl⟩
    refine .seq (define_runs rfl (by simp [h₆.info, hvalid, hc₀, hleft, hright]) hresult) ?_
    exact fun result c₇ h₇ => .pure (h₇.trans hplaced)
  unfold checkedI32Division
  cases op with
  | divide => exact hrun "sdiv" "crumb_division_fail" "division" (.inl rfl) (.inl rfl)
  | remainder => exact hrun "srem" "crumb_remainder_fail" "remainder" (.inr rfl) (.inr rfl)
  | _ => exact .bind .unreachable

/-! ## Short circuits and conversions -/

/-- The labels of a conversion. -/
def floatStages : List String :=
  ["fptosi_nan", "fptosi_high_check", "fptosi_high", "fptosi_low_check", "fptosi_low",
    "fptosi_convert", "fptosi_merge"]

/-- Between the checks of a conversion : the first labels have their blocks, and `preds` branch to the
last one. -/
structure FloatChecks (c₀ : Config) (placed : ℕ) (preds : List (Label × Set ℕ)) (c : Config) :
    Prop where
  keeps : Keeps c₀ ((List.range' placed (7 - placed)).map (c₀.state.nextLabel + ·)) c
  running : c.state.terminated = false
  scopes : c.state.scopes = c₀.state.scopes
  available : c₀.available ⊆ c.available
  nextLabel : c₀.state.nextLabel + 7 ≤ c.state.nextLabel
  waiting : ∀ {index stage}, placed ≤ index → index < 6 → floatStages[index]? = some stage →
    c.info (c₀.state.nextLabel + index) = ⟨stage, c₀.available, .pending, []⟩
  merge : c.info (c₀.state.nextLabel + 6) = ⟨"fptosi_merge", c₀.available, .pending, preds⟩

theorem FloatChecks.define {c₀ c c' : Config} {placed : ℕ} {preds : List (Label × Set ℕ)}
    (h : FloatChecks c₀ placed preds c) (hext : Extends c c') : FloatChecks c₀ placed preds c' where
  keeps := h.keeps.trans hext.keeps
  running := hext.running
  scopes := hext.scopes.trans h.scopes
  available := h.available.trans hext.available
  nextLabel := h.nextLabel.trans hext.keeps.nextLabel
  waiting := fun {index} _ hle hlt hstage => by
    rw [hext.keeps.info _ (by have := h.nextLabel; omega), h.waiting hle hlt hstage]
  merge := by rw [hext.keeps.info _ h.nextLabel, h.merge]

/-- One check. -/
theorem FloatChecks.arm {β : Type} {c₀ c : Config} {m : EmitM β} {R : β → Config → Prop}
    {operand : Operand} {stage stage' : String} {placed : ℕ} {preds : List (Label × Set ℕ)}
    (h : FloatChecks c₀ placed preds c) (hoperand : operand.Holds c.available)
    (hplaced : placed + 1 < 6) (hstage : floatStages[placed]? = some stage)
    (hstage' : floatStages[placed + 1]? = some stage')
    (hm : ∀ c', FloatChecks c₀ (placed + 2)
      (preds ++ [(.numbered stage (c₀.state.nextLabel + placed), c₀.available)]) c' →
      c'.state.currentBlock = .numbered stage' (c₀.state.nextLabel + (placed + 1)) →
      Runs m c' R) :
    Runs (do
      terminate ["br i1 ", operand,
        ", label ", Label.numbered stage (c₀.state.nextLabel + placed),
        ", label ", Label.numbered stage' (c₀.state.nextLabel + (placed + 1))]
      placeLabel (.numbered stage (c₀.state.nextLabel + placed))
      terminate ["br label ", Label.numbered "fptosi_merge" (c₀.state.nextLabel + 6)]
      placeLabel (.numbered stage' (c₀.state.nextLabel + (placed + 1)))
      m) c R := by
  have hshort := h.waiting le_rfl (by omega) hstage
  have hnumber := h.waiting (Nat.le_succ _) hplaced hstage'
  have hnext := h.nextLabel
  refine arm_runs true h.running hoperand ⟨by omega, by rw [hshort], by rw [hshort]⟩
    ⟨by omega, by rw [hnumber], by rw [hnumber]⟩ ⟨h.nextLabel, by rw [h.merge], by rw [h.merge]⟩
    (by omega) (by omega) (by omega) h.available ?_ fun c' harm => hm c' ?_ harm.block
  · rintro n (rfl | rfl | rfl)
    · rw [hshort]
    · rw [hnumber]
    · rw [h.merge]
  · refine ⟨h.keeps.arm harm ?_ ?_ ?_ ?_, harm.running, harm.scopes.trans h.scopes, ?_, ?_, ?_, ?_⟩
    · omega
    · omega
    · omega
    · intro n hn
      simp only [List.mem_map, List.mem_range'_1] at hn ⊢
      obtain ⟨index, hindex, rfl⟩ := hn
      by_cases hlt : index < placed + 2
      · omega
      · exact .inr (.inr ⟨index, by omega, rfl⟩)
    · rw [harm.available, hnumber]
    · rw [harm.nextLabel]
      exact hnext
    · intro index stage hle hlt hindex
      rw [harm.others _ (by omega) (by omega) (by omega), h.waiting (by omega) hlt hindex]
    · rw [harm.info_merge, h.merge, hshort]

theorem logicalExpression_runs {left right : EmitM Value} {op : BinaryOp} (hleft : Runs left c (Gives c))
    (hright : ∀ c', c.available ⊆ c'.available → c'.state.scopes = c.state.scopes →
      c'.state.terminated = false → Runs right c' (Gives c')) :
    Runs (logicalExpression left op right) c (Gives c) := by
  unfold logicalExpression
  refine .seq hleft fun left c₁ h₁ => ?_
  refine .bind (.label (.bind (.label (.bind (.label ?_)))))
  simp only [Config.newLabel_state_nextLabel, Nat.add_assoc, Nat.reduceAdd]
  set n := c₁.state.nextLabel with hn
  set stages := ["logical_rhs", "logical_short", "logical_merge"]
  set c₂ := c₁.newLabels stages with hc₂
  have hstate : c₂.state = { c₁.state with nextLabel := n + 3 } := Config.newLabels_state c₁ _
  have hnext : c₂.state.nextLabel = n + 3 := by rw [hstate]
  have hrhs : c₂.info n = ⟨"logical_rhs", c₁.available, .pending, []⟩ :=
    Config.newLabels_info 0 rfl
  have hshort : c₂.info (n + 1) = ⟨"logical_short", c₁.available, .pending, []⟩ :=
    Config.newLabels_info _ rfl
  have hmerge : c₂.info (n + 2) = ⟨"logical_merge", c₁.available, .pending, []⟩ :=
    Config.newLabels_info _ rfl
  have harm (first : Bool) : Runs (do
      terminate (armParts left.repr (.numbered "logical_short" (n + 1)) (.numbered "logical_rhs" n)
        first)
      placeLabel (.numbered "logical_short" (n + 1))
      terminate ["br label ", Label.numbered "logical_merge" (n + 2)]
      placeLabel (.numbered "logical_rhs" n)
      let right ← right
      let rhsPredecessor := (← get).currentBlock
      terminate ["br label ", Label.numbered "logical_merge" (n + 2)]
      placeLabel (.numbered "logical_merge" (n + 2))
      let temp ← define (phiParts "i1" [
        ((if op = .logicalAnd then "false" else "true" : String), .numbered "logical_short" (n + 1)),
        (right.repr, rhsPredecessor)])
      pure (⟨.value .bool, temp⟩ : Value)) c₂ (Gives c) := by
    refine arm_runs first (hstate ▸ h₁.ends.running) h₁.holds ⟨by omega, by rw [hshort], by rw [hshort]⟩
      ⟨by omega, by rw [hrhs], by rw [hrhs]⟩ ⟨by omega, by rw [hmerge], by rw [hmerge]⟩
      (by omega) (by omega) (by omega) subset_rfl ?_ fun c₃ h₃ => ?_
    · rintro m (rfl | rfl | rfl)
      · rw [hshort]; rfl
      · rw [hrhs]; rfl
      · rw [hmerge]; rfl
    have havailable₃ : c₃.available = c₁.available := by rw [h₃.available, hrhs]
    have hscopes₃ : c₃.state.scopes = c.state.scopes := by
      rw [h₃.scopes, hstate]
      exact h₁.ends.scopes
    have hnext₃ : c₃.state.nextLabel = n + 3 := h₃.nextLabel.trans hnext
    refine .seq (hright c₃ (havailable₃ ▸ h₁.ends.available) hscopes₃ h₃.running)
      fun right c₄ h₄ => .bind (.get ?_)
    have hinfo₄ : c₄.info (n + 2) = ⟨"logical_merge", c₁.available, .pending,
        [(.numbered "logical_short" (n + 1), c₁.available)]⟩ := by
      rw [h₄.ends.keeps.info _ (by omega), h₃.info_merge, hmerge, hshort]
      rfl
    have hnext₄ : n + 3 ≤ c₄.state.nextLabel := hnext₃ ▸ h₄.ends.keeps.nextLabel
    have havailable₄ : c₁.available ⊆ c₄.available := havailable₃ ▸ h₄.ends.available
    refine .bind (.jump h₄.ends.running ⟨by omega, by rw [hinfo₄], by rw [hinfo₄]; nofun,
      by rw [hinfo₄]; exact havailable₄⟩ ?_)
    set c₅ := c₄.terminate ["br label ", Label.numbered "logical_merge" (n + 2)] with hc₅
    have hinfo₅ : c₅.info (n + 2) = ⟨"logical_merge", c₁.available, .pending,
        [(.numbered "logical_short" (n + 1), c₁.available),
          (c₄.state.currentBlock, c₄.available)]⟩ := by
      rw [hc₅, Config.jump_info, Function.update_self, hinfo₄]
      rfl
    have hnew : c.state.nextLabel ≤ n := h₁.ends.keeps.nextLabel
    have hkeeps : Keeps c [n + 2] c₅ := by
      have hlabels : Keeps c [n, n + 1, n + 2] c₂ := by
        refine h₁.ends.keeps.newLabels _ (by simp) fun index hindex => ?_
        have : index < 3 := hindex
        simp only [List.mem_cons, List.not_mem_nil]
        omega
      have harm : Keeps c [n + 2] c₃ := hlabels.arm h₃ (by omega) hnew (by omega) (by simp)
      exact (harm.trans h₄.ends.keeps).jump (by omega)
    have hplaced : Keeps c [] (c₅.placeLabel "logical_merge" (n + 2) .closed) :=
      hkeeps.placeLabel _ (by omega) nofun (by simp)
    refine .merge rfl ⟨Nat.lt_of_succ_le hnext₄, by rw [hinfo₅], by rw [hinfo₅]⟩ ?_
      (.pure ⟨⟨hplaced.define _, rfl, h₄.ends.scopes.trans hscopes₃, ?_⟩, ?_⟩)
    · rw [hinfo₅]
      exact .cons ⟨rfl, trivial, rfl⟩ (.cons ⟨rfl, h₄.holds, rfl⟩ .nil)
    · simp only [Config.define_available, Config.placeLabel_available, hinfo₅]
      exact h₁.ends.available.trans (Set.subset_insert _ _)
    · exact Set.mem_insert _ _
  change Runs _ c₂ _
  by_cases hop : op = .logicalAnd
  · simp only [hop, if_true]
    simpa only [hop, if_true, armParts] using harm false
  · simp only [hop, if_false]
    simpa only [hop, if_false, armParts] using harm true

theorem safeFloatToInt_runs {source : Operand} (hrunning : c.state.terminated = false)
    (hsource : source.Holds c.available) : Runs (safeFloatToInt source) c (Gives c) := by
  unfold safeFloatToInt
  refine .bind (.label (.bind (.label (.bind (.label (.bind (.label (.bind (.label (.bind (.label
    (.bind (.label ?_)))))))))))))
  have hlabels : FloatChecks c 0 [] (c.newLabels floatStages) := by
    refine ⟨(Keeps.refl c).newLabels _ (by simp) ?_, ?_, ?_, ?_, ?_, ?_, ?_⟩
    · intro index hindex
      refine List.mem_map.mpr ⟨index, ?_, rfl⟩
      simpa [List.mem_range'_1, floatStages] using hindex
    · rw [Config.newLabels_state]
      exact hrunning
    · rw [Config.newLabels_state]
    · rw [Config.newLabels_available]
    · rw [Config.newLabels_state]
      rfl
    · exact fun _ _ hstage => Config.newLabels_info _ hstage
    · exact Config.newLabels_info _ rfl
  simp only [Config.newLabel_state_nextLabel, Nat.add_assoc, Nat.reduceAdd]
  change Runs _ (c.newLabels floatStages) _
  refine .seq (define_runs hlabels.running (by simp [hsource]) ⟨rfl, rfl⟩) fun isNan c₂ h₂ => ?_
  refine (hlabels.define h₂.ends).arm h₂.holds (by omega) rfl rfl fun c₃ h₃ _ => ?_
  have hsource₃ := hsource.mono h₃.available
  refine .seq (define_runs h₃.running (by simp [hsource₃]) ⟨rfl, rfl⟩) fun isHigh c₄ h₄ => ?_
  refine (h₃.define h₄.ends).arm h₄.holds (by omega) rfl rfl fun c₅ h₅ _ => ?_
  have hsource₅ := hsource.mono h₅.available
  refine .seq (define_runs h₅.running (by simp [hsource₅]) ⟨rfl, rfl⟩) fun isLow c₆ h₆ => ?_
  refine (h₅.define h₆.ends).arm h₆.holds (by omega) rfl rfl fun c₇ h₇ hblock => ?_
  have hsource₇ := hsource.mono h₇.available
  refine .bind (.define h₇.running (by simp [hsource₇]) ⟨rfl, rfl⟩ ?_)
  set converted := c₇.define ["fptosi float ", source, " to i32"] with hconverted
  have h₈ : FloatChecks c 6 _ converted := h₇.define ((Extends.refl h₇.running).define _)
  have hmerge : converted.CanBranch "fptosi_merge" (c.state.nextLabel + 6) :=
    ⟨h₈.nextLabel, by rw [h₈.merge], by rw [h₈.merge]; nofun, by rw [h₈.merge]; exact h₈.available⟩
  refine .bind (.jump h₈.running hmerge ?_)
  set c₉ := converted.terminate
    ["br label ", Label.numbered "fptosi_merge" (c.state.nextLabel + 6)] with hc₉
  have hinfo : c₉.info (c.state.nextLabel + 6) = ⟨"fptosi_merge", c.available, .pending,
      [(.numbered "fptosi_nan" c.state.nextLabel, c.available),
        (.numbered "fptosi_high" (c.state.nextLabel + 2), c.available),
        (.numbered "fptosi_low" (c.state.nextLabel + 4), c.available),
        (.numbered "fptosi_convert" (c.state.nextLabel + 5), converted.available)]⟩ := by
    rw [hc₉, Config.jump_info, Function.update_self, h₈.merge]
    simp [hconverted, hblock]
  refine .merge rfl ⟨h₈.nextLabel, by rw [hinfo], by rw [hinfo]⟩ ?_ (.pure ⟨⟨?_, rfl, ?_, ?_⟩, ?_⟩)
  · rw [hinfo]
    refine .cons ⟨rfl, trivial, rfl⟩ (.cons ⟨rfl, trivial, rfl⟩ (.cons ⟨rfl, trivial, rfl⟩
      (.cons ⟨rfl, ?_, rfl⟩ .nil)))
    simp [hconverted]
  · have hjump : Keeps c ((List.range' 6 (7 - 6)).map (c.state.nextLabel + ·)) c₉ :=
      h₈.keeps.jump (Nat.le_add_right _ 6)
    have hplaced : Keeps c [] (c₉.placeLabel "fptosi_merge" (c.state.nextLabel + 6) .closed) :=
      hjump.placeLabel _ (Nat.le_add_right _ 6) nofun (by simp)
    exact hplaced.define _
  · exact h₈.scopes
  · simp [hinfo]
  · exact Set.mem_insert _ _

theorem conversion_runs {target : ValueType} {source : EmitM Value}
    (hsource : Runs source c (Gives c)) : Runs (conversion target source) c (Gives c) := by
  unfold conversion
  refine .seq hsource fun source c₁ h₁ => .bind (valueType_runs fun ty => ?_)
  split
  · exact .pure h₁
  · exact .pure h₁
  · refine .seq (define_runs h₁.ends.running (by simp [h₁.holds]) ⟨rfl, rfl⟩) fun temp c₂ h₂ => ?_
    exact .pure (h₂.trans h₁.ends)
  · exact (safeFloatToInt_runs h₁.ends.running h₁.holds).mono fun _ _ h₂ => h₂.trans h₁.ends
  · exact .unreachable

/-! ## Operators -/

theorem unary_runs {op : UnaryOp} {operand : EmitM Value} (hoperand : Runs operand c (Gives c)) :
    Runs (unary op operand) c (Gives c) := by
  unfold unary
  refine .seq hoperand fun operand c₁ h₁ => .bind (valueType_runs fun ty => ?_)
  dsimp only
  split
  · refine .seq (define_runs h₁.ends.running (by simp [h₁.holds]) ⟨rfl, rfl⟩) fun temp c₂ h₂ => ?_
    exact .pure (h₂.trans h₁.ends)
  · refine .seq (define_runs h₁.ends.running (by simp [h₁.holds]) ⟨rfl, rfl⟩) fun temp c₂ h₂ => ?_
    exact .pure (h₂.trans h₁.ends)
  · refine .seq (define_runs h₁.ends.running (by simp [h₁.holds]) ⟨rfl, rfl⟩) fun temp c₂ h₂ => ?_
    exact .pure (h₂.trans h₁.ends)
  · exact .bind .unreachable

theorem binaryInstruction_ordinary {op : BinaryOp} {ty : ValueType} {instruction : String × ValueType}
    (h : binaryInstruction op ty = some instruction) (text : Text) (left right : Operand) :
    Ordinary [instruction.1, " ", text, " ", left, ", ", right] := by
  unfold binaryInstruction at h
  split at h
  all_goals
    first
    | obtain rfl := Option.some.inj h
      dsimp only
      split <;> exact ⟨rfl, rfl⟩
    | cases h

theorem binary_runs {left right : Value} {op : BinaryOp} {span : Span}
    (hrunning : c.state.terminated = false) (hleft : left.repr.Holds c.available)
    (hright : right.repr.Holds c.available) : Runs (f.binary left op right span) c (Gives c) := by
  unfold binary
  refine .bind (valueType_runs fun ty => ?_)
  split
  · exact checkedI32Division_runs hrunning hleft hright
  · refine .bind (.expect fun instruction hinstruction => .bind (.expect fun ty _ => ?_))
    refine .seq (define_runs hrunning (by simp [hleft, hright])
      (binaryInstruction_ordinary hinstruction _ _ _)) fun temp c₁ h₁ => ?_
    exact .pure h₁

/-! ## Places -/

theorem elementPointer_runs {base : Operand} {arrayType : Text} {element : ValueType} {length : ℕ}
    {index : EmitM Value} {span : Span} (hbase : base.Holds c.available)
    (hindex : Runs index c (Gives c)) :
    Runs (f.elementPointer base arrayType element length index span) c (Places c) := by
  unfold elementPointer
  refine .seq hindex fun index c₁ h₁ => ?_
  refine .seq (boundsCheck_runs h₁.ends.running h₁.holds) fun _ c₂ h₂ => ?_
  have hbase₂ := hbase.mono (h₁.ends.trans h₂).available
  have hindex₂ := h₁.holds.mono h₂.available
  refine .seq (define_runs h₂.running (by simp [hbase₂, hindex₂]) ⟨rfl, rfl⟩) fun pointer c₃ h₃ => ?_
  exact .pure (h₃.trans (h₁.ends.trans h₂))

theorem indexLvalue_runs {base : EmitM (Option Variable)} {index : EmitM Value} {span : Span}
    (hbase : Runs base c (MayPlace c)) (hindex : ∀ c', Extends c c' → Runs index c' (Gives c')) :
    Runs (f.indexLvalue base index span) c (MayPlace c) := by
  unfold indexLvalue
  refine .seq hbase ?_
  rintro (_ | base) c₁ ⟨h₁, hplace⟩
  · exact .pure ⟨h₁, nofun⟩
  have hpointer := hplace base rfl
  dsimp only
  split
  · exact .pure ⟨h₁, nofun⟩
  · refine .bind (.expect fun arrayType _ => ?_)
    refine .seq (elementPointer_runs hpointer (hindex c₁ h₁)) fun pointer c₂ h₂ => ?_
    refine .pure ⟨h₁.trans h₂.ends, ?_⟩
    rintro _ ⟨⟩
    exact h₂.holds

theorem fieldLvalue_runs {base : EmitM (Option Variable)} {name : String}
    (hbase : Runs base c (MayPlace c)) : Runs (f.fieldLvalue base name) c (MayPlace c) := by
  unfold fieldLvalue
  refine .seq hbase ?_
  rintro (_ | base) c₁ ⟨h₁, hplace⟩
  · exact .pure ⟨h₁, nofun⟩
  have hpointer := hplace base rfl
  dsimp only
  split
  · split
    · exact .pure ⟨h₁, nofun⟩
    · refine .bind (.expect fun aggregateType _ => ?_)
      refine .seq (define_runs h₁.running (by simp [hpointer]) ⟨rfl, rfl⟩) fun pointer c₂ h₂ => ?_
      refine .pure ⟨h₁.trans h₂.ends, ?_⟩
      rintro _ ⟨⟩
      exact h₂.holds
  · exact .pure ⟨h₁, nofun⟩

theorem indexExpression_runs {place : EmitM (Option Variable)} {base index : EmitM Value}
    {span : Span} (hplace : Runs place c (MayPlace c))
    (hbase : ∀ c', Extends c c' → Runs base c' (Gives c'))
    (hindex : ∀ c', Extends c c' → Runs index c' (Gives c')) :
    Runs (f.indexExpression place base index span) c (Gives c) := by
  unfold indexExpression
  refine .seq hplace ?_
  rintro (_ | place) c₁ ⟨h₁, hpointer⟩
  · refine .seq (hbase c₁ h₁) fun base c₂ h₂ => .bind (valueType_runs fun baseType => ?_)
    refine .bind (.expect fun element _ => .bind (.expect fun arrayType _ => ?_))
    have hext₂ := h₁.trans h₂.ends
    refine .bind (.entryAlloca h₂.ends.running ?_)
    set c₃ := c₂.entryAlloca arrayType
    have h₃ : Extends c₂ c₃ := (Extends.refl h₂.ends.running).entryAlloca arrayType
    have hbase₃ := h₂.holds.mono h₃.available
    have hstorage : (Operand.temp c₂.state.nextTemp).Holds c₃.available := Set.mem_insert _ _
    refine .bind (.instruction h₃.running (by simp [hbase₃, hstorage]) ⟨rfl, rfl⟩ ?_)
    set c₄ := c₃.instruction _
    have h₄ : Extends c c₄ := (hext₂.trans h₃).instruction _
    refine .seq (elementPointer_runs hstorage (hindex c₄ h₄)) fun place c₅ h₅ => ?_
    exact (load_runs h₅.ends.running h₅.holds).mono fun _ _ h₆ => h₆.trans (h₄.trans h₅.ends)
  · exact (load_runs h₁.running (hpointer place rfl)).mono fun _ _ h₂ => h₂.trans h₁

theorem fieldExpression_runs {place : EmitM (Option Variable)} {base : EmitM Value}
    {name : String} (hplace : Runs place c (MayPlace c))
    (hbase : ∀ c', Extends c c' → Runs base c' (Gives c')) :
    Runs (f.fieldExpression place base name) c (Gives c) := by
  unfold fieldExpression
  refine .seq hplace ?_
  rintro (_ | place) c₁ ⟨h₁, hpointer⟩
  · refine .seq (hbase c₁ h₁) fun base c₂ h₂ => .bind (valueType_runs fun baseType => ?_)
    split
    · refine .bind (.expect fun declaration _ => .bind (.expect fun field _ => ?_))
      refine .seq (define_runs h₂.ends.running (by simp [h₂.holds]) ⟨rfl, rfl⟩) fun temp c₃ h₃ => ?_
      exact .pure (h₃.trans (h₁.trans h₂.ends))
    · exact .unreachable
  · exact (load_runs h₁.running (hpointer place rfl)).mono fun _ _ h₂ => h₂.trans h₁

theorem variableExpression_runs (hf : f.Fixed) (hc : Ready c) (name : String) :
    Runs (f.variableExpression name) c (Gives c) := by
  unfold variableExpression
  refine .seq (findVariable_runs hf hc name) ?_
  rintro (_ | place) c₁ ⟨h₁, hpointer⟩
  · refine .bind (.expect fun value _ => .bind (.expect fun constant _ => ?_))
    exact .pure ⟨h₁, trivial⟩
  · exact (load_runs h₁.running (hpointer place rfl)).mono fun _ _ h₂ => h₂.trans h₁

/-! ## Aggregates and calls -/

theorem insertValue_runs {aggregateType ty : Text} {aggregate value : Operand} {index : ℕ}
    (hrunning : c.state.terminated = false) (haggregate : aggregate.Holds c.available)
    (hvalue : value.Holds c.available) :
    Runs (insertValue aggregateType aggregate ty value index) c (Evaluates c) :=
  define_runs hrunning (by simp [haggregate, hvalue]) ⟨rfl, rfl⟩

/-- Parts that name defined temporaries and no labels. -/
def Plain (available : Set ℕ) (parts : List Part) : Prop :=
  (∀ part ∈ parts, part.Holds available) ∧ labelsOf parts = []

theorem Plain.append {available : Set ℕ} {parts parts' : List Part} (h : Plain available parts)
    (h' : Plain available parts') : Plain available (parts ++ parts') :=
  ⟨List.forall_mem_append.mpr ⟨h.1, h'.1⟩, by rw [labelsOf_append, h.2, h'.2]; rfl⟩

theorem Plain.intercalate {available : Set ℕ} {separator : List Part} {arguments : List (List Part)}
    (hseparator : Plain available separator) (h : ∀ parts ∈ arguments, Plain available parts) :
    Plain available (List.intercalate separator arguments) := by
  induction arguments with
  | nil => exact ⟨nofun, rfl⟩
  | cons first rest ih =>
    obtain ⟨hfirst, hrest⟩ := List.forall_mem_cons.mp h
    cases rest with
    | nil => simpa [List.intercalate] using hfirst
    | cons second rest =>
      have hmore := (hfirst.append hseparator).append (ih hrest)
      simpa [List.intercalate] using hmore

theorem callParts_plain {available : Set ℕ} (front : List Part) {arguments : List (List Part)}
    (hfront : Plain available front) (h : ∀ parts ∈ arguments, Plain available parts) :
    Plain available (callParts front arguments) :=
  hfront.append ((Plain.intercalate ⟨by simp, rfl⟩ h).append ⟨by simp, rfl⟩)

theorem callSignature_runs {signature : Signature} {arguments : List (List Part)}
    (hrunning : c.state.terminated = false) (h : ∀ parts ∈ arguments, Plain c.available parts) :
    Runs (callSignature signature arguments) c (Gives c) := by
  unfold callSignature
  split
  · obtain ⟨huses, hlabels⟩ := callParts_plain ["call void ", signature.symbol, "("]
      ⟨by simp, rfl⟩ h
    exact .bind (.instruction hrunning huses ⟨hlabels, rfl⟩
      (.pure ⟨(Extends.refl hrunning).instruction _, trivial⟩))
  · refine .bind (.expect fun returnType _ => ?_)
    obtain ⟨huses, hlabels⟩ := callParts_plain
      ["call ", returnType, " ", signature.symbol, "("] ⟨by simp, rfl⟩ h
    exact .seq (define_runs hrunning huses ⟨hlabels, rfl⟩) fun temp c₁ h₁ => .pure h₁

/-! ## Expressions -/

section

variable (hf : f.Fixed)
include hf

mutual

theorem lvalue_runs : (e : Expr) → ∀ {c}, Ready c → Runs (f.lvalue e) c (MayPlace c)
  | .var name _, _, hc => findVariable_runs hf hc name
  | .index base index _, _, hc =>
    indexLvalue_runs (lvalue_runs base hc) fun _ h => expressionAs_runs none index (hc.after h)
  | .field base _ _ _, _, hc => fieldLvalue_runs (lvalue_runs base hc)
  | .i32 .., _, hc | .f32 .., _, hc | .bool .., _, hc | .unary .., _, hc | .binary .., _, hc
  | .call .., _, hc | .conversion .., _, hc | .arrayLiteral .., _, hc | .structLiteral .., _, hc =>
    .pure ⟨.refl hc.running, nofun⟩

theorem expressionAs_runs : (expected : Option ValueType) → (e : Expr) →
    ∀ {c}, Ready c → Runs (f.expressionAs expected e) c (Gives c)
  | _, .i32 .., _, hc | _, .f32 .., _, hc | _, .bool .., _, hc => by
    rw [expressionAs]
    exact .pure ⟨.refl hc.running, trivial⟩
  | none, .arrayLiteral _ _, _, hc => by
    rw [expressionAs]
    exact .unreachable
  | some expected, .arrayLiteral elements _, _, hc => by
    rw [expressionAs]
    refine .bind (.expect fun element _ => .bind (.expect fun aggregateType _ => ?_))
    refine .bind (.expect fun elementType _ => ?_)
    exact .seq (arrayElements_runs _ _ _ _ _ elements hc trivial) fun aggregate c₁ h₁ => .pure h₁
  | _, .structLiteral name fields _, _, hc => by
    rw [expressionAs]
    refine .bind (.expect fun declaration _ => .bind (.expect fun aggregateType _ => ?_))
    exact .seq (structFields_runs _ _ _ fields hc trivial) fun aggregate c₁ h₁ => .pure h₁
  | _, .var name _, _, hc => by
    rw [expressionAs]
    exact variableExpression_runs hf hc name
  | _, .index base index span, _, hc => by
    rw [expressionAs]
    exact indexExpression_runs
      (indexLvalue_runs (lvalue_runs base hc) fun _ h => expressionAs_runs none index (hc.after h))
      (fun _ h => expressionAs_runs none base (hc.after h))
      fun _ h => expressionAs_runs none index (hc.after h)
  | _, .field base name _ _, _, hc => by
    rw [expressionAs]
    exact fieldExpression_runs (fieldLvalue_runs (lvalue_runs base hc))
      fun _ h => expressionAs_runs none base (hc.after h)
  | _, .unary op operand _, _, hc => by
    rw [expressionAs]
    split
    · exact .pure ⟨.refl hc.running, trivial⟩
    · exact unary_runs (expressionAs_runs none operand hc)
  | _, .binary left op right span, _, hc => by
    rw [expressionAs]
    split
    · refine logicalExpression_runs (expressionAs_runs none left hc) fun _ hle hscopes hrunning => ?_
      exact expressionAs_runs none right ⟨hrunning, by rw [hscopes]; exact hc.locals.mono hle⟩
    · refine .seq (expressionAs_runs none left hc) fun left c₁ h₁ => ?_
      refine .seq (expressionAs_runs none right (hc.after h₁.ends)) fun right c₂ h₂ => ?_
      exact (binary_runs h₂.ends.running (h₁.holds.mono h₂.ends.available) h₂.holds).mono
        fun _ _ h₃ => h₃.trans (h₁.ends.trans h₂.ends)
  | _, .call name args _, _, hc => by
    rw [expressionAs]
    refine .bind (.expect fun signature _ => ?_)
    refine .seq (callArguments_runs args signature.params hc) fun arguments c₁ ⟨h₁, hplain⟩ => ?_
    exact (callSignature_runs h₁.running hplain).mono fun _ _ h₂ => h₂.trans h₁
  | _, .conversion target (source :: _) _, _, hc => by
    rw [expressionAs]
    exact conversion_runs (expressionAs_runs none source hc)
  | _, .conversion _ [] _, _, hc => by
    rw [expressionAs]
    exact .unreachable

theorem arrayElements_runs (elementType : ValueType) (aggregateType elementLlvmType : Text)
    (index : ℕ) (aggregate : Operand) : (elements : List Expr) → ∀ {c}, Ready c →
    aggregate.Holds c.available → Runs (f.arrayElements elementType aggregateType elementLlvmType
      index aggregate elements) c (Evaluates c)
  | [], _, hc, haggregate => by
    rw [arrayElements]
    exact .pure ⟨.refl hc.running, haggregate⟩
  | element :: rest, _, hc, haggregate => by
    rw [arrayElements]
    refine .seq (expressionAs_runs _ element hc) fun value c₁ h₁ => ?_
    refine .seq (insertValue_runs h₁.ends.running (haggregate.mono h₁.ends.available) h₁.holds)
      fun temp c₂ h₂ => ?_
    have h₂' := h₁.ends.trans h₂.ends
    exact (arrayElements_runs _ _ _ _ _ rest (hc.after h₂') h₂.holds).mono fun _ _ h₃ => h₃.trans h₂'

theorem structFields_runs (declaration : StructDecl) (aggregateType : Text) (aggregate : Operand) :
    (fields : List (FieldInitializer Expr)) → ∀ {c}, Ready c → aggregate.Holds c.available →
    Runs (f.structFields declaration aggregateType aggregate fields) c (Evaluates c)
  | [], _, hc, haggregate => by
    rw [structFields]
    exact .pure ⟨.refl hc.running, haggregate⟩
  | ⟨name, init, _⟩ :: rest, _, hc, haggregate => by
    rw [structFields]
    refine .bind (.expect fun field _ => ?_)
    refine .seq (expressionAs_runs _ init hc) fun value c₁ h₁ => .bind (.expect fun ty _ => ?_)
    refine .seq (insertValue_runs h₁.ends.running (haggregate.mono h₁.ends.available) h₁.holds)
      fun temp c₂ h₂ => ?_
    have h₂' := h₁.ends.trans h₂.ends
    exact (structFields_runs _ _ _ rest (hc.after h₂') h₂.holds).mono fun _ _ h₃ => h₃.trans h₂'

theorem callArguments_runs : (args : List Expr) → (params : List ValueType) → ∀ {c}, Ready c →
    Runs (f.callArguments args params) c fun arguments c' =>
      Extends c c' ∧ ∀ parts ∈ arguments, Plain c'.available parts
  | argument :: args, expected :: params, _, hc => by
    rw [callArguments]
    refine .seq (expressionAs_runs _ argument hc) fun value c₁ h₁ => ?_
    refine .bind (valueType_runs fun valueType => .bind (.expect fun ty _ => ?_))
    refine .seq (callArguments_runs args params (hc.after h₁.ends)) fun rest c₂ ⟨h₂, hrest⟩ => ?_
    have hvalue := h₁.holds.mono h₂.available
    exact .pure ⟨h₁.ends.trans h₂, List.forall_mem_cons.mpr ⟨⟨by simp [hvalue], rfl⟩, hrest⟩⟩
  | [], params, _, hc => by
    rw [callArguments]
    · exact .pure ⟨.refl hc.running, nofun⟩
    · simp
  | _ :: _, [], _, hc => by
    rw [callArguments]
    · exact .pure ⟨.refl hc.running, nofun⟩
    · simp

end

end

end FunctionEmitter

end Emitter

end Speck
