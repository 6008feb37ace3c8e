import Speck.Checker
import Speck.EmittedExpressions

/-!
# Emitted statements

What a block of statements appends (`statements_runs`). It ends with a terminator exactly if the
checker's `blockReturns` says that it returns, for any nesting of branches and loops and also with
statements after a return. An `unreachable` ends a block only behind a call that does not come back,
or where both branches of an `if` return, and then no branch goes to that block.
-/

set_option linter.unusedSectionVars false

namespace Speck

namespace Emitter

/-- A statement was emitted : the block has its terminator if the statement returns, and otherwise the
next statement can be emitted. -/
structure Ends (c : Config) (returns : Bool) (c' : Config) : Prop where
  keeps : Keeps c [] c'
  terminated : c'.state.terminated = returns
  scopes : c'.state.scopes.tail = c.state.scopes.tail
  available : returns = false → c.available ⊆ c'.available
  locals : returns = false → Scoped c'.state.scopes c'.available

theorem Ends.ready {c c' : Config} (h : Ends c false c') : Ready c' :=
  ⟨h.terminated, h.locals rfl⟩

theorem Ends.trans {c c' c'' : Config} {returns : Bool} (h : Ends c false c')
    (h' : Ends c' returns c'') : Ends c returns c'' where
  keeps := h.keeps.trans h'.keeps
  terminated := h'.terminated
  scopes := h'.scopes.trans h.scopes
  available hreturns := (h.available rfl).trans (h'.available hreturns)
  locals := h'.locals

theorem Extends.ends {c c' : Config} (h : Extends c c') (hc : Ready c) : Ends c false c' where
  keeps := h.keeps
  terminated := h.running
  scopes := by rw [h.scopes]
  available _ := h.available
  locals _ := (hc.after h).locals

/-- A block with a scope of its own was emitted. -/
structure Nested (c : Config) (returns : Bool) (c' : Config) : Prop where
  keeps : Keeps c [] c'
  terminated : c'.state.terminated = returns
  scopes : c'.state.scopes = c.state.scopes
  available : returns = false → c.available ⊆ c'.available

namespace FunctionEmitter

variable {f : FunctionEmitter} {c : Config}

/-! ## Blocks -/

theorem nestedBlock_runs {scope : HashMap Variable} {block : EmitM Unit} {returns : Bool}
    (hc : Ready c) (hscope : Scoped [scope] c.available)
    (hblock : ∀ c', Ready c' → Runs block c' fun _ => Ends c' returns) :
    Runs (nestedBlock scope block) c fun _ => Nested c returns := by
  unfold nestedBlock pushScope popScope
  refine .bind (.scopes ?_)
  have hready : Ready (c.withScopes (scope :: c.state.scopes)) :=
    ⟨hc.running, List.forall_mem_cons.mpr ⟨hscope scope List.mem_cons_self, hc.locals⟩⟩
  refine .seq (hblock _ hready) fun _ c₁ h₁ => .scopes ?_
  exact ⟨(((Keeps.refl c).withScopes _).trans h₁.keeps).withScopes _, h₁.terminated, h₁.scopes,
    h₁.available⟩

theorem closeBlock_runs (stage : String) (number : ℕ)
    (h : c.state.terminated = false → c.CanBranch stage number) :
    Runs (closeBlock (.numbered stage number)) c fun _ c' => c' = c.close stage number := by
  unfold closeBlock
  refine .bind (.get ?_)
  split_ifs with hterminated
  · exact .pure (Config.close_of_terminated hterminated _ _).symm
  · have hrunning : c.state.terminated = false := by simpa using hterminated
    refine .jump hrunning (h hrunning) ?_
    rw [Config.close, if_neg hterminated]

/-- A label got its block, with a nested block of statements. -/
structure Body (c : Config) (number : ℕ) (returns : Bool) (c' : Config) : Prop where
  terminated : c'.state.terminated = returns
  scopes : c'.state.scopes = c.state.scopes
  nextLabel : c.state.nextLabel ≤ c'.state.nextLabel
  available : returns = false → (c.info number).reserved ⊆ c'.available
  info : ∀ n < c.state.nextLabel, n ≠ number → c'.info n = c.info n
  keeps : ∀ {c₀ owed owed'}, Keeps c₀ owed c → c₀.state.nextLabel ≤ number →
    (∀ n ∈ owed, n = number ∨ n ∈ owed') → Keeps c₀ owed' c'

theorem body_runs {β : Type} {m : EmitM β} {R : β → Config → Prop} {stage : String} {number : ℕ}
    {scope : HashMap Variable} {block : EmitM Unit} {returns : Bool}
    (hterminated : c.state.terminated = true) (hpending : c.Pending stage number)
    (hlocals : Scoped (scope :: c.state.scopes) (c.info number).reserved)
    (hblock : ∀ c', Ready c' → Runs block c' fun _ => Ends c' returns)
    (hm : ∀ c', Body c number returns c' → Runs m c' R) :
    Runs (do
      placeLabel (.numbered stage number)
      nestedBlock scope block
      m) c R := by
  refine .bind (.placeLabel .closed hterminated hpending nofun ?_)
  set c₁ := c.placeLabel stage number .closed with hc₁
  obtain ⟨hscope, hlocals⟩ := List.forall_mem_cons.mp hlocals
  refine .seq (nestedBlock_runs ⟨rfl, hlocals⟩ (List.forall_mem_singleton.mpr hscope) hblock)
    fun _ c₂ h₂ => hm c₂ ?_
  refine ⟨h₂.terminated, h₂.scopes, h₂.keeps.nextLabel, h₂.available, fun n hlt hne => ?_,
    fun hkeeps hnew howed => ?_⟩
  · rw [h₂.keeps.info n hlt, hc₁, Config.placeLabel_info, Function.update_of_ne hne]
  · have hplaced : Keeps _ _ c₁ := hkeeps.placeLabel stage hnew nofun howed
    exact hplaced.trans h₂.keeps

/-! ## Branches -/

theorem ifStatement_runs {condition : EmitM Value} {thenBlock : EmitM Unit} {returns : Bool}
    (hc : Ready c) (hcondition : Runs condition c (Gives c))
    (hthen : ∀ c', Ready c' → Runs thenBlock c' fun _ => Ends c' returns) :
    Runs (ifStatement condition thenBlock) c fun _ => Ends c false := by
  unfold ifStatement
  refine .seq hcondition fun condition c₁ h₁ => .bind (.label (.bind (.label ?_)))
  simp only [Config.newLabel_state_nextLabel]
  set n := c₁.state.nextLabel with hn
  set c₂ := c₁.newLabels ["if_then", "if_end"] with hc₂
  have hstate : c₂.state = { c₁.state with nextLabel := n + 2 } := Config.newLabels_state c₁ _
  have hnext : c₂.state.nextLabel = n + 2 := by rw [hstate]
  have hthenInfo : c₂.info n = ⟨"if_then", c₁.available, .pending, []⟩ :=
    Config.newLabels_info 0 rfl
  have hendInfo : c₂.info (n + 1) = ⟨"if_end", c₁.available, .pending, []⟩ :=
    Config.newLabels_info _ rfl
  have hlocals : Scoped c.state.scopes c₁.available := hc.locals.mono h₁.ends.available
  have hscopes : c₂.state.scopes = c.state.scopes := by rw [hstate]; exact h₁.ends.scopes
  have hnew : c.state.nextLabel ≤ n := h₁.ends.keeps.nextLabel
  have hlabels : Keeps c [n, n + 1] c₂ := by
    refine h₁.ends.keeps.newLabels _ (by simp) fun index hindex => ?_
    have : index < 2 := hindex
    simp only [List.mem_cons, List.not_mem_nil]
    omega
  change Runs _ c₂ _
  refine .bind (.branch (hstate ▸ h₁.ends.running) h₁.holds ⟨by omega, by rw [hthenInfo],
    by rw [hthenInfo]; nofun, by rw [hthenInfo]; rfl⟩ ⟨by omega, by rw [hendInfo],
    by rw [hendInfo]; nofun, by rw [hendInfo]; rfl⟩ (by omega) ?_)
  set c₃ := c₂.terminate _ with hc₃
  have hnext₃ : c₃.state.nextLabel = n + 2 := hnext
  have hkeeps₃ : Keeps c [n, n + 1] c₃ := hlabels.branch hnew (by omega)
  refine body_runs rfl ⟨hnext ▸ (by omega), by simp [hc₃, hthenInfo], by simp [hc₃, hthenInfo]⟩
    ?_ hthen fun c₄ h₄ => ?_
  · simpa [hc₃, hthenInfo, hscopes] using hlocals.push
  have hkeeps₄ : Keeps c [n + 1] c₄ := h₄.keeps hkeeps₃ hnew (by simp)
  have hend₄ : c₄.info (n + 1) = c₃.info (n + 1) := h₄.info _ (by simp [hc₃, hnext]) (by omega)
  have hlt₃ : n + 1 < c₃.state.nextLabel := by omega
  have hnext₄ : n + 1 < c₄.state.nextLabel := hlt₃.trans_le h₄.nextLabel
  refine .seq (closeBlock_runs "if_end" (n + 1) fun hrunning => ?_) ?_
  · have havailable := h₄.available (h₄.terminated.symm.trans hrunning)
    refine ⟨hnext₄, ?_, ?_, ?_⟩
    · simp [hend₄, hc₃, hendInfo]
    · simp [hend₄, hc₃, hendInfo]
    · simpa [hend₄, hc₃, hendInfo, hthenInfo] using havailable
  rintro _ _ rfl
  have hplaced : Keeps c [] ((c₄.close "if_end" (n + 1)).placeLabel "if_end" (n + 1) .closed) :=
    (hkeeps₄.close _ (by omega)).placeLabel _ (by omega) nofun (by simp)
  refine .placeLabel .closed (by simp) ⟨by simpa using hnext₄, ?_, ?_⟩ nofun
    ⟨hplaced, rfl, ?_, fun _ => ?_, fun _ => ?_⟩
  · simp [hend₄, hc₃, hendInfo]
  · simp [hend₄, hc₃, hendInfo]
  · simp [h₄.scopes, hc₃, hscopes]
  · simpa [hend₄, hc₃, hendInfo] using h₁.ends.available
  · simpa [h₄.scopes, hend₄, hc₃, hendInfo, hscopes] using hlocals

theorem ifElseStatement_runs {condition : EmitM Value} {thenBlock elseBlock : EmitM Unit}
    {thenReturns elseReturns : Bool} (hc : Ready c) (hcondition : Runs condition c (Gives c))
    (hthen : ∀ c', Ready c' → Runs thenBlock c' fun _ => Ends c' thenReturns)
    (helse : ∀ c', Ready c' → Runs elseBlock c' fun _ => Ends c' elseReturns) :
    Runs (ifElseStatement condition thenBlock elseBlock) c
      fun _ => Ends c (thenReturns && elseReturns) := by
  unfold ifElseStatement
  refine .seq hcondition fun condition c₁ h₁ => .bind (.label (.bind (.label (.bind (.label ?_)))))
  simp only [Config.newLabel_state_nextLabel, Nat.add_assoc, Nat.reduceAdd]
  set n := c₁.state.nextLabel with hn
  set c₂ := c₁.newLabels ["if_then", "if_end", "if_else"] with hc₂
  have hstate : c₂.state = { c₁.state with nextLabel := n + 3 } := Config.newLabels_state c₁ _
  have hnext : c₂.state.nextLabel = n + 3 := by rw [hstate]
  have hthenInfo : c₂.info n = ⟨"if_then", c₁.available, .pending, []⟩ :=
    Config.newLabels_info 0 rfl
  have hendInfo : c₂.info (n + 1) = ⟨"if_end", c₁.available, .pending, []⟩ :=
    Config.newLabels_info _ rfl
  have helseInfo : c₂.info (n + 2) = ⟨"if_else", c₁.available, .pending, []⟩ :=
    Config.newLabels_info _ rfl
  have hlocals : Scoped c.state.scopes c₁.available := hc.locals.mono h₁.ends.available
  have hscopes : c₂.state.scopes = c.state.scopes := by rw [hstate]; exact h₁.ends.scopes
  have hnew : c.state.nextLabel ≤ n := h₁.ends.keeps.nextLabel
  have hlabels : Keeps c [n, n + 1, n + 2] c₂ := by
    refine h₁.ends.keeps.newLabels _ (by simp) fun index hindex => ?_
    have : index < 3 := hindex
    simp only [List.mem_cons, List.not_mem_nil]
    omega
  change Runs _ c₂ _
  refine .bind (.branch (hstate ▸ h₁.ends.running) h₁.holds ⟨by omega, by rw [hthenInfo],
    by rw [hthenInfo]; nofun, by rw [hthenInfo]; rfl⟩ ⟨by omega, by rw [helseInfo],
    by rw [helseInfo]; nofun, by rw [helseInfo]; rfl⟩ (by omega) ?_)
  set c₃ := c₂.terminate _ with hc₃
  have hend₃ : c₃.info (n + 1) = c₂.info (n + 1) :=
    Config.terminate_info_of_notMem fun stage => by simp
  have hkeeps₃ : Keeps c [n, n + 1, n + 2] c₃ := hlabels.branch hnew (by omega)
  have hnext₃ : c₃.state.nextLabel = n + 3 := hnext
  refine body_runs rfl ⟨hnext ▸ (by omega), by simp [hc₃, hthenInfo], by simp [hc₃, hthenInfo]⟩
    ?_ hthen fun c₄ h₄ => .bind (.get ?_)
  · simpa [hc₃, hthenInfo, hscopes] using hlocals.push
  have hkeeps₄ : Keeps c [n + 1, n + 2] c₄ := h₄.keeps hkeeps₃ hnew (by simp)
  have hend₄ : c₄.info (n + 1) = c₃.info (n + 1) := h₄.info _ (by omega) (by omega)
  have helse₄ : c₄.info (n + 2) = c₃.info (n + 2) := h₄.info _ (by omega) (by omega)
  have hnext₄ : n + 2 < c₄.state.nextLabel :=
    (by omega : n + 2 < c₃.state.nextLabel).trans_le h₄.nextLabel
  refine .seq (closeBlock_runs "if_end" (n + 1) fun hrunning => ?_) ?_
  · have havailable := h₄.available (h₄.terminated.symm.trans hrunning)
    refine ⟨by omega, ?_, ?_, ?_⟩
    · simp [hend₄, hend₃, hendInfo]
    · simp [hend₄, hend₃, hendInfo]
    · simpa [hend₄, hend₃, hendInfo, hc₃, hthenInfo] using havailable
  rintro _ _ rfl
  set c₅ := c₄.close "if_end" (n + 1) with hc₅
  have hkeeps₅ : Keeps c [n + 1, n + 2] c₅ := hkeeps₄.close _ (by omega)
  have hscopes₅ : c₅.state.scopes = c.state.scopes := by simp [hc₅, h₄.scopes, hc₃, hscopes]
  have hnext₅ : n + 2 < c₅.state.nextLabel := by simpa [hc₅] using hnext₄
  refine body_runs (by simp [hc₅]) ⟨hnext₅, by simp [hc₅, helse₄, hc₃, helseInfo],
    by simp [hc₅, helse₄, hc₃, helseInfo]⟩ ?_ helse fun c₆ h₆ => .bind (.get ?_)
  · simpa [hc₅, helse₄, hc₃, helseInfo, h₄.scopes, hscopes] using hlocals.push
  have hkeeps₆ : Keeps c [n + 1] c₆ := h₆.keeps hkeeps₅ (by omega) (by simp)
  have hend₆ : c₆.info (n + 1) = c₅.info (n + 1) := h₆.info _ (by omega) (by omega)
  have hnext₆ : n + 2 < c₆.state.nextLabel := hnext₅.trans_le h₆.nextLabel
  refine .seq (closeBlock_runs "if_end" (n + 1) fun hrunning => ?_) ?_
  · have havailable := h₆.available (h₆.terminated.symm.trans hrunning)
    refine ⟨by omega, ?_, ?_, ?_⟩
    · simp [hend₆, hc₅, hend₄, hend₃, hendInfo]
    · simp [hend₆, hc₅, hend₄, hend₃, hendInfo]
    · simpa [hend₆, hc₅, hend₄, hend₃, hendInfo, helse₄, hc₃, helseInfo] using havailable
  rintro _ _ rfl
  set c₇ := c₆.close "if_end" (n + 1) with hc₇
  have hplaced : Keeps c [] (c₇.placeLabel "if_end" (n + 1) .closed) :=
    (hkeeps₆.close _ (by omega)).placeLabel _ (by omega) nofun (by simp)
  have hreserved : (c₇.info (n + 1)).reserved = c₁.available := by
    simp [hc₇, hend₆, hc₅, hend₄, hend₃, hendInfo]
  have hscopes₇ : c₇.state.scopes = c.state.scopes := by simp [hc₇, h₆.scopes, hscopes₅]
  refine .bind (.placeLabel .closed (by simp [hc₇]) ⟨by simp [hc₇] <;> omega, ?_, ?_⟩ nofun ?_)
  · simp [hc₇, hend₆, hc₅, hend₄, hend₃, hendInfo]
  · simp [hc₇, hend₆, hc₅, hend₄, hend₃, hendInfo]
  rw [h₄.terminated, h₆.terminated]
  split_ifs with hboth
  · -- no branch was written to the end of the statement
    obtain ⟨rfl, rfl⟩ := Bool.and_eq_true_iff.mp hboth
    have hpreds : (c₇.info (n + 1)).preds = [] := by
      rw [hc₇, Config.close_of_terminated h₆.terminated, hend₆, hc₅,
        Config.close_of_terminated h₄.terminated, hend₄, hend₃, hendInfo]
    refine .terminate rfl (by simp) rfl rfl (fun _ => ⟨_, List.getLast?_concat, ?_⟩) ?_
    · refine ⟨by simp [hc₇] <;> omega, ?_, ?_, ?_⟩
      · simp [hc₇, hend₆, hc₅, hend₄, hend₃, hendInfo]
      · simp
      · simpa using hpreds
    · exact ⟨hplaced.terminate (by simp), rfl, by simp [hscopes₇], nofun, nofun⟩
  · have hfalse : (thenReturns && elseReturns) = false := by simpa using hboth
    rw [hfalse]
    refine .pure ⟨hplaced, rfl, by simp [hscopes₇], fun _ => ?_, fun _ => ?_⟩
    · simpa [hreserved] using h₁.ends.available
    · simpa [hreserved, hscopes₇] using hlocals

/-! ## Loops -/

/-- The end of a turn : the block ends, if it did not, with a branch to the start of the loop. -/
structure Turned (c : Config) (number : ℕ) (c' : Config) : Prop where
  terminated : c'.state.terminated = true
  scopes : c'.state.scopes = c.state.scopes
  nextLabel : c'.state.nextLabel = c.state.nextLabel
  info : ∀ n ≠ number, c'.info n = c.info n
  status : (c'.info number).status = (c.info number).status

theorem Turned.keeps {c₀ c' : Config} {owed : List ℕ} {number : ℕ} (h : Turned c number c')
    (hkeeps : Keeps c₀ owed c) (hnew : c₀.state.nextLabel ≤ number) : Keeps c₀ owed c' where
  nextLabel := h.nextLabel ▸ hkeeps.nextLabel
  info n hlt := by rw [h.info n (by omega), hkeeps.info n hlt]
  owed n hle hlt hpending := by
    refine hkeeps.owed n hle (h.nextLabel ▸ hlt) ?_
    by_cases heq : n = number
    · rw [heq, ← h.status, ← heq, hpending]
    · rw [← h.info n heq, hpending]

theorem closeBlock_turned {stage : String} {number : ℕ}
    (h : c.state.terminated = false → c.CanBranch stage number) :
    Runs (closeBlock (.numbered stage number)) c fun _ => Turned c number := by
  refine (closeBlock_runs stage number h).mono ?_
  rintro _ _ rfl
  exact ⟨by simp, by simp, by simp, fun n hne => Config.close_info c stage hne, by simp⟩

/-- A loop behind its labels : `condition` is evaluated before every turn, and `turn` ends it. -/
theorem loop_runs {condition : EmitM Value} {body : EmitM Unit} {returns : Bool}
    (start middle stop : String) (scope : HashMap Variable) (turn : EmitM Unit) (hc : Ready c)
    (hscope : ∀ {name place}, scope.lookup name = some place → place.pointer.Holds c.available)
    (hcondition : ∀ c', Ready c' → c.available ⊆ c'.available → Runs condition c' (Gives c'))
    (hbody : ∀ c', Ready c' → Runs body c' fun _ => Ends c' returns)
    (hturn : ∀ c', (c'.state.terminated = false →
        c.available ⊆ c'.available ∧ c'.CanBranch start c.state.nextLabel) →
      Runs turn c' fun _ => Turned c' c.state.nextLabel) :
    Runs (do
      terminate ["br label ", Label.numbered start c.state.nextLabel]
      placeLabel (.numbered start c.state.nextLabel)
      let condition ← condition
      terminate ["br i1 ", condition.repr,
        ", label ", Label.numbered middle (c.state.nextLabel + 1),
        ", label ", Label.numbered stop (c.state.nextLabel + 2)]
      placeLabel (.numbered middle (c.state.nextLabel + 1))
      nestedBlock scope body
      turn
      placeLabel (.numbered stop (c.state.nextLabel + 2)))
      (c.newLabels [start, middle, stop]) fun _ => Ends c false := by
  set n := c.state.nextLabel with hn
  set c₁ := c.newLabels [start, middle, stop] with hc₁
  have hstate : c₁.state = { c.state with nextLabel := n + 3 } := Config.newLabels_state c _
  have hnext : c₁.state.nextLabel = n + 3 := by rw [hstate]
  have hscopes : c₁.state.scopes = c.state.scopes := by rw [hstate]
  have hstartInfo : c₁.info n = ⟨start, c.available, .pending, []⟩ :=
    Config.newLabels_info 0 rfl
  have hmiddleInfo : c₁.info (n + 1) = ⟨middle, c.available, .pending, []⟩ :=
    Config.newLabels_info _ rfl
  have hstopInfo : c₁.info (n + 2) = ⟨stop, c.available, .pending, []⟩ :=
    Config.newLabels_info _ rfl
  have hlabels : Keeps c [n, n + 1, n + 2] c₁ := by
    refine (Keeps.refl c).newLabels _ (by simp) fun index hindex => ?_
    have : index < 3 := hindex
    simp only [List.mem_cons, List.not_mem_nil]
    omega
  refine .bind (.jump (hstate ▸ hc.running) ⟨by omega, by rw [hstartInfo],
    by rw [hstartInfo]; nofun, by rw [hstartInfo]; rfl⟩ ?_)
  refine .bind (.placeLabel .loop rfl ⟨hnext ▸ (by omega), by simp [hstartInfo],
    by simp [hstartInfo]⟩ nofun ?_)
  set c₂ := (c₁.terminate _).placeLabel start n .loop with hc₂
  have hkeeps₂ : Keeps c [n + 1, n + 2] c₂ :=
    (hlabels.jump le_rfl).placeLabel _ le_rfl nofun (by simp)
  have hnext₂ : c₂.state.nextLabel = n + 3 := hnext
  have havailable₂ : c₂.available = c.available := by simp [hc₂, hstartInfo]
  have hscopes₂ : c₂.state.scopes = c.state.scopes := hscopes
  have hready₂ : Ready c₂ := ⟨rfl, by rw [hscopes₂, havailable₂]; exact hc.locals⟩
  have hinfo₂ : ∀ m ≠ n, c₂.info m = c₁.info m := fun m hm => by
    rw [hc₂, Config.placeLabel_info, Function.update_of_ne hm, Config.jump_info,
      Function.update_of_ne hm]
  refine .seq (hcondition c₂ hready₂ havailable₂.ge) fun condition c₃ h₃ => ?_
  have hnext₃ : n + 2 < c₃.state.nextLabel :=
    (by omega : n + 2 < c₂.state.nextLabel).trans_le h₃.ends.keeps.nextLabel
  have hinfo₃ : ∀ m ≤ n + 2, c₃.info m = c₂.info m := fun m hm =>
    h₃.ends.keeps.info m (by omega)
  have hmiddle₃ : c₃.info (n + 1) = c₁.info (n + 1) := by
    rw [hinfo₃ _ (by omega), hinfo₂ _ (by omega)]
  have hstop₃ : c₃.info (n + 2) = c₁.info (n + 2) := by
    rw [hinfo₃ _ le_rfl, hinfo₂ _ (by omega)]
  have havailable₃ : c.available ⊆ c₃.available := havailable₂ ▸ h₃.ends.available
  have hscopes₃ : c₃.state.scopes = c.state.scopes := h₃.ends.scopes.trans hscopes₂
  refine .bind (.branch h₃.ends.running h₃.holds ⟨by omega, by rw [hmiddle₃, hmiddleInfo],
    by rw [hmiddle₃, hmiddleInfo]; nofun, by rw [hmiddle₃, hmiddleInfo]; exact havailable₃⟩
    ⟨by omega, by rw [hstop₃, hstopInfo], by rw [hstop₃, hstopInfo]; nofun,
    by rw [hstop₃, hstopInfo]; exact havailable₃⟩ (by omega) ?_)
  set c₄ := c₃.terminate _ with hc₄
  have hkeeps₄ : Keeps c [n + 1, n + 2] c₄ :=
    (hkeeps₂.trans h₃.ends.keeps).branch (by omega) (by omega)
  have hnext₄ : n + 2 < c₄.state.nextLabel := hnext₃
  refine body_runs rfl ⟨Nat.lt_of_succ_lt hnext₃, by simp [hc₄, hmiddle₃, hmiddleInfo],
    by simp [hc₄, hmiddle₃, hmiddleInfo]⟩ ?_ hbody fun c₅ h₅ => ?_
  · simpa [hc₄, hmiddle₃, hmiddleInfo, hscopes₃] using hc.locals.cons hscope
  have hkeeps₅ : Keeps c [n + 2] c₅ := h₅.keeps hkeeps₄ (by omega) (by simp)
  have hnext₅ : n + 2 < c₅.state.nextLabel := hnext₄.trans_le h₅.nextLabel
  have hstart₅ : c₅.info n = c₄.info n := h₅.info n (by omega) (by omega)
  have hstop₅ : c₅.info (n + 2) = c₄.info (n + 2) := h₅.info _ (by omega) (by omega)
  refine .seq (hturn c₅ fun hrunning => ?_) fun _ c₆ h₆ => ?_
  · have havailable := h₅.available (h₅.terminated.symm.trans hrunning)
    have havailable₅ : c.available ⊆ c₅.available := by
      simpa [hc₄, hmiddle₃, hmiddleInfo] using havailable
    refine ⟨havailable₅, by omega, ?_, ?_, ?_⟩
    · simp [hstart₅, hc₄, hinfo₃, hc₂, hstartInfo]
    · simp [hstart₅, hc₄, hinfo₃, hc₂]
    · simpa [hstart₅, hc₄, hinfo₃, hc₂, hstartInfo] using havailable₅
  have hplaced : Keeps c [] (c₆.placeLabel stop (n + 2) .closed) :=
    (h₆.keeps hkeeps₅ le_rfl).placeLabel _ (by omega) nofun (by simp)
  have hstop₆ : c₆.info (n + 2) = c₅.info (n + 2) := h₆.info _ (by omega)
  refine .placeLabel .closed h₆.terminated ⟨h₆.nextLabel ▸ hnext₅, ?_, ?_⟩ nofun
    ⟨hplaced, rfl, ?_, fun _ => ?_, fun _ => ?_⟩
  · simp [hstop₆, hstop₅, hc₄, hstop₃, hstopInfo]
  · simp [hstop₆, hstop₅, hc₄, hstop₃, hstopInfo]
  · simp [h₆.scopes, h₅.scopes, hc₄, hscopes₃]
  · simp [hstop₆, hstop₅, hc₄, hstop₃, hstopInfo]
  · simpa [h₆.scopes, h₅.scopes, hstop₆, hstop₅, hc₄, hstop₃, hstopInfo, hscopes₃] using hc.locals

theorem whileStatement_runs {condition : EmitM Value} {body : EmitM Unit} {returns : Bool}
    (hc : Ready c) (hcondition : ∀ c', Ready c' → Runs condition c' (Gives c'))
    (hbody : ∀ c', Ready c' → Runs body c' fun _ => Ends c' returns) :
    Runs (whileStatement condition body) c fun _ => Ends c false := by
  unfold whileStatement
  refine .bind (.label (.bind (.label (.bind (.label ?_)))))
  simp only [Config.newLabel_state_nextLabel, Nat.add_assoc, Nat.reduceAdd]
  exact loop_runs _ _ _ _ _ hc (fun hlookup => by simp at hlookup)
    (fun c' hc' _ => hcondition c' hc') hbody
    fun c' h => closeBlock_turned fun hrunning => (h hrunning).2

theorem forStep_turned {pointer : Operand} {stage : String} {number : ℕ}
    (h : c.state.terminated = false → pointer.Holds c.available ∧ c.CanBranch stage number) :
    Runs (forStep pointer (.numbered stage number)) c fun _ => Turned c number := by
  unfold forStep
  refine .bind (.get ?_)
  split_ifs with hterminated
  · exact .pure ⟨hterminated, rfl, rfl, fun _ _ => rfl, rfl⟩
  have hrunning : c.state.terminated = false := by simpa using hterminated
  obtain ⟨hpointer, hbranch⟩ := h hrunning
  refine .bind (.define hrunning (by simp [hpointer]) ⟨rfl, rfl⟩ ?_)
  refine .bind (.define hrunning (by simp) ⟨rfl, rfl⟩ (.bind (.instruction hrunning ?_ ⟨rfl, rfl⟩ ?_)))
  · simp [hpointer]
  · refine .jump hrunning ⟨hbranch.lt, hbranch.stage_eq, hbranch.status_ne, ?_⟩ ?_
    · exact (hbranch.reserved.trans (Set.subset_insert _ _)).trans (Set.subset_insert _ _)
    · exact ⟨rfl, rfl, rfl, fun n hne => Function.update_of_ne hne _ _, by simp⟩

theorem forStatement_runs {name : String} {lower upper : EmitM Value} {body : EmitM Unit}
    {returns : Bool} (hc : Ready c) (hlower : Runs lower c (Gives c))
    (hupper : ∀ c', Ready c' → Runs upper c' (Gives c'))
    (hbody : ∀ c', Ready c' → Runs body c' fun _ => Ends c' returns) :
    Runs (forStatement name lower upper body) c fun _ => Ends c false := by
  unfold forStatement
  refine .seq hlower fun lower c₁ h₁ => ?_
  refine .seq (hupper c₁ (hc.after h₁.ends)) fun upper c₂ h₂ => ?_
  have hext₂ : Extends c c₂ := h₁.ends.trans h₂.ends
  refine .bind (.entryAlloca h₂.ends.running ?_)
  set c₃ := c₂.entryAlloca "i32".toList
  have h₃ : Extends c₂ c₃ := (Extends.refl h₂.ends.running).entryAlloca _
  set pointer := Operand.temp c₂.state.nextTemp
  have hpointer : pointer.Holds c₃.available := Set.mem_insert _ _
  have hlower := h₁.holds.mono (h₂.ends.trans h₃).available
  refine .bind (.instruction h₃.running (by simp [hlower, hpointer]) ⟨rfl, rfl⟩ ?_)
  set c₄ := c₃.instruction _
  have h₄ : Extends c c₄ := (hext₂.trans h₃).instruction _
  have hupper : upper.repr.Holds c₄.available := h₂.holds.mono h₃.available
  have hpointer₄ : pointer.Holds c₄.available := hpointer
  refine .bind (.label (.bind (.label (.bind (.label ?_)))))
  simp only [Config.newLabel_state_nextLabel, Nat.add_assoc, Nat.reduceAdd]
  -- the test before a turn, as one part
  let inRange : EmitM Value := do
    let current ← define ["load i32, ptr ", pointer]
    let inRange ← define ["icmp slt i32 ", current, ", ", upper.repr]
    pure ⟨.value .bool, inRange⟩
  have hinRange : ∀ c', Ready c' → c₄.available ⊆ c'.available → Runs inRange c' (Gives c') := by
    intro c' hc' hle
    refine .seq (define_runs hc'.running (by simp [hpointer₄.mono hle]) ⟨rfl, rfl⟩) fun current c₅ h₅ => ?_
    have hupper₅ := hupper.mono (hle.trans h₅.ends.available)
    refine .seq (define_runs h₅.ends.running (by simp [h₅.holds, hupper₅]) ⟨rfl, rfl⟩) fun _ c₆ h₆ => ?_
    exact .pure (h₆.trans h₅.ends)
  have hloop := loop_runs "for_condition" "for_body" "for_end"
    (AList.singleton name ⟨.i32, pointer⟩)
    (forStep pointer (.numbered "for_condition" c₄.state.nextLabel)) (hc.after h₄)
    (fun hlookup => ?_) hinRange hbody
    fun c' h => forStep_turned fun hrunning => (h hrunning).imp_left hpointer₄.mono
  · simp only [inRange, bind_assoc, pure_bind] at hloop
    refine hloop.mono fun _ c₅ h₅ => ?_
    exact (h₄.ends hc).trans h₅
  · obtain ⟨-, rfl⟩ := HashMap.lookup_singleton.mp hlookup
    exact hpointer₄

/-! ## Statements -/

theorem declare_runs (hc : Ready c) (name : String) {place : Variable}
    (hplace : place.pointer.Holds c.available) : Runs (declare name place) c fun _ c' =>
      Ends c false c' ∧ c'.state.currentBlock = c.state.currentBlock := by
  cases hscopes : c.state.scopes with
  | nil => exact .fails (by rw [declare, hscopes])
  | cons scope rest =>
    have hdeclared : declare name place c.state =
        some ((), (c.withScopes (scope.insert name place :: rest)).state) := by
      rw [declare, hscopes]
      rfl
    have hlocals := hc.locals
    rw [hscopes] at hlocals
    refine .step hdeclared (.scopes _ _) ⟨⟨(Keeps.refl c).withScopes _, hc.running, ?_,
      fun _ => subset_rfl, fun _ => ?_⟩, rfl⟩
    · rw [hscopes]
      rfl
    · refine Scoped.cons (fun {n place'} hlookup => ?_)
        fun s hs => hlocals s (List.mem_cons_of_mem _ hs)
      by_cases hn : n = name
      · subst hn
        rw [AList.lookup_insert] at hlookup
        obtain rfl := Option.some.inj hlookup
        exact hplace
      · rw [AList.lookup_insert_ne hn] at hlookup
        exact hlocals scope List.mem_cons_self hlookup

theorem letStatement_runs {name : String} {ty : ValueType} {init : EmitM Value} (hc : Ready c)
    (hinit : Runs init c (Gives c)) :
    Runs (letStatement name ty init) c fun _ => Ends c false := by
  unfold letStatement
  refine .seq hinit fun value c₁ h₁ => .bind (.expect fun llvmType _ => ?_)
  refine .bind (.entryAlloca h₁.ends.running ?_)
  set c₂ := c₁.entryAlloca llvmType
  set pointer := Operand.temp c₁.state.nextTemp
  have h₂ : Extends c₁ c₂ := (Extends.refl h₁.ends.running).entryAlloca _
  have hpointer : pointer.Holds c₂.available := Set.mem_insert _ _
  refine .seq (store_runs h₂.running (h₁.holds.mono h₂.available) hpointer) fun _ c₃ h₃ => ?_
  have hext : Extends c c₃ := (h₁.ends.trans h₂).trans h₃
  exact (declare_runs (hc.after hext) name (hpointer.mono h₃.available)).mono
    fun _ _ h₄ => (hext.ends hc).trans h₄.1

theorem assignedValue_runs (hf : f.Fixed) (hc : Ready c) {place : Variable} {op : AssignOp}
    {value : Expr} {span : Span} (hplace : place.pointer.Holds c.available) :
    Runs (f.assignedValue place op value span) c (Gives c) := by
  unfold assignedValue
  cases Source.binaryOp op with
  | none => exact expressionAs_runs hf _ value hc
  | some op =>
    refine .seq (load_runs hc.running hplace) fun left c₁ h₁ => ?_
    refine .seq (expressionAs_runs hf none value (hc.after h₁.ends)) fun right c₂ h₂ => ?_
    exact (binary_runs h₂.ends.running (h₁.holds.mono h₂.ends.available) h₂.holds).mono
      fun _ _ h₃ => h₃.trans (h₁.ends.trans h₂.ends)

theorem assignStatement_runs (hf : f.Fixed) (hc : Ready c) {target value : Expr} {op : AssignOp} :
    Runs (f.assignStatement target op value) c fun _ => Ends c false := by
  unfold assignStatement
  refine .seq (lvalue_runs hf target hc) fun place c₁ ⟨h₁, hplace⟩ => .bind (.expect ?_)
  rintro place rfl
  have hpointer := hplace place rfl
  refine .seq (assignedValue_runs hf (hc.after h₁) hpointer) fun value c₂ h₂ => ?_
  refine (store_runs h₂.ends.running h₂.holds (hpointer.mono h₂.ends.available)).mono
    fun _ c₃ h₃ => ?_
  exact ((h₁.trans h₂.ends).trans h₃).ends hc

theorem returnStatement_runs (hf : f.Fixed) (hc : Ready c) (value : Option Expr) :
    Runs (f.returnStatement value) c fun _ => Ends c true := by
  cases value with
  | none =>
    refine .terminate hc.running (by simp) rfl rfl (fun h => ?_) ?_
    · simp [unreachableParts] at h
    · exact ⟨(Keeps.refl c).terminate (by simp), rfl, rfl, nofun, nofun⟩
  | some value =>
    unfold returnStatement
    refine .bind (.expect fun expected _ => ?_)
    refine .seq (expressionAs_runs hf _ value hc) fun value c₁ h₁ => ?_
    refine .bind (valueType_runs fun valueType => .bind (.expect fun ty _ => ?_))
    refine .terminate h₁.ends.running (by simp [h₁.holds]) rfl rfl nofun ?_
    exact ⟨h₁.ends.keeps.terminate (by simp), rfl, by simp [h₁.ends.scopes], nofun, nofun⟩

/-- Behind a terminator, nothing is emitted. -/
theorem statements_of_terminated {block : List Stmt} {s : State} (h : s.terminated = true) :
    f.statements block s = some ((), s) := by
  cases block with
  | nil => rfl
  | cons first rest =>
    rw [statements]
    change (if s.terminated = true then _ else _ : EmitM Unit) s = _
    rw [if_pos h]
    rfl

mutual

theorem statement_runs (hf : f.Fixed) : (statement : Stmt) → ∀ {c}, Ready c →
    Runs (f.statement statement) c fun _ => Ends c statement.returns
  | .letVar name ty init _, c, hc => by
    rw [FunctionEmitter.statement]
    exact letStatement_runs hc (expressionAs_runs hf _ init hc)
  | .assign target op value _, c, hc => by
    rw [FunctionEmitter.statement]
    exact assignStatement_runs hf hc
  | .expr e _, c, hc => by
    rw [FunctionEmitter.statement]
    exact .seq (expressionAs_runs hf none e hc) fun _ c₁ h₁ => .pure (h₁.ends.ends hc)
  | .ifElse condition thenBlock none _, c, hc => by
    rw [FunctionEmitter.statement]
    exact ifStatement_runs hc (expressionAs_runs hf none condition hc)
      fun _ h => statements_runs hf thenBlock h
  | .ifElse condition thenBlock (some elseBlock) _, c, hc => by
    rw [FunctionEmitter.statement]
    exact ifElseStatement_runs hc (expressionAs_runs hf none condition hc)
      (fun _ h => statements_runs hf thenBlock h) fun _ h => statements_runs hf elseBlock h
  | .whileLoop condition body _, c, hc => by
    rw [FunctionEmitter.statement]
    exact whileStatement_runs hc (fun _ h => expressionAs_runs hf none condition h)
      fun _ h => statements_runs hf body h
  | .forLoop name _ lower upper body _, c, hc => by
    rw [FunctionEmitter.statement]
    exact forStatement_runs hc (expressionAs_runs hf none lower hc)
      (fun _ h => expressionAs_runs hf none upper h) fun _ h => statements_runs hf body h
  | .ret value _, c, hc => by
    rw [FunctionEmitter.statement]
    exact returnStatement_runs hf hc value

theorem statements_runs (hf : f.Fixed) : (block : List Stmt) → ∀ {c}, Ready c →
    Runs (f.statements block) c fun _ => Ends c (blockReturns block)
  | [], c, hc => by
    rw [statements, blockReturns]
    exact .pure ((Extends.refl hc.running).ends hc)
  | first :: rest, c, hc => by
    rw [statements, blockReturns]
    refine .bind (.get ?_)
    rw [if_neg (by simp [hc.running])]
    refine .seq (statement_runs hf first hc) fun _ c₁ h₁ => ?_
    cases hreturns : first.returns with
    | true =>
      rw [hreturns] at h₁
      rintro _ _ hrun
      rw [statements_of_terminated h₁.terminated] at hrun
      obtain ⟨-, rfl⟩ := Prod.mk.inj (Option.some.inj hrun)
      exact ⟨c₁, rfl, .refl, h₁⟩
    | false =>
      rw [hreturns] at h₁
      exact (statements_runs hf rest h₁.ready).mono fun _ _ h₂ => h₁.trans h₂

end

/-! ## Functions -/

theorem params_runs (index : ℕ) (params : List Param) (hc : Ready c)
    (hentry : c.state.currentBlock = .entry) :
    Runs (FunctionEmitter.params index params) c fun _ => Ends c false := by
  induction params generalizing index c with
  | nil => exact .pure ((Extends.refl hc.running).ends hc)
  | cons param rest ih =>
    rw [FunctionEmitter.params]
    refine .bind (.expect fun ty _ => ?_)
    refine .bind (.paramAlloca hc.running hentry ?_)
    set c₁ := c.define ["alloca ", ty]
    have h₁ : Extends c c₁ := (Extends.refl hc.running).define _
    have hpointer : (Operand.temp c.state.nextTemp).Holds c₁.available := Set.mem_insert _ _
    refine .bind (.instruction h₁.running (by simp [hpointer]) ⟨rfl, rfl⟩ ?_)
    set c₂ := c₁.instruction _
    have h₂ : Extends c c₂ := h₁.instruction _
    refine .seq (declare_runs (hc.after h₂) param.name hpointer) fun _ c₃ ⟨h₃, hblock⟩ => ?_
    have h₃' := (h₂.ends hc).trans h₃
    exact (ih (index + 1) h₃.ready (hblock.trans hentry)).mono fun _ _ h₄ => h₃'.trans h₄

end FunctionEmitter

end Emitter

end Speck
