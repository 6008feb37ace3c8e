import Mathlib.Data.Int.Basic
import Mathlib.Data.List.Induction
import Mathlib.Tactic.Common

/-!
# The key state

`crumb/input.c` : three flags for each key. The host sets and releases keys between the frames, and
a game asks whether a key is down, and whether it went down or up in the frame. The flags are the
exact summary of the calls since the reset (`key_state_exact`) : the changes of a key (`Changes`)
are defined on the calls alone.
-/

namespace Speck

namespace KeyState

/-! ## The code -/

/-- The state of `input.c`, over the number of keys. -/
structure Input (keyCount : ℕ) where
  keyDownState : Vector UInt8 keyCount
  keyPressedState : Vector UInt8 keyCount
  keyReleasedState : Vector UInt8 keyCount
  quitRequested : Bool

variable {keyCount : ℕ}

/-- `valid_key`. -/
def validKey (keyCount : ℕ) (key : ℤ) : Bool := 0 ≤ key && key < keyCount

namespace Input

/-- `crumb_input_reset`. -/
def reset : Input keyCount :=
  ⟨Vector.replicate keyCount 0, Vector.replicate keyCount 0, Vector.replicate keyCount 0, false⟩

/-- `crumb_input_begin_frame`. -/
def beginFrame (input : Input keyCount) : Input keyCount :=
  { input with
    keyPressedState := Vector.replicate keyCount 0
    keyReleasedState := Vector.replicate keyCount 0 }

/-- `crumb_input_set_key`. -/
def setKey (key isDown : ℤ) (input : Input keyCount) : Input keyCount :=
  if h : validKey keyCount key then
    have hkey : key.toNat < keyCount := by
      simp only [validKey, Bool.and_eq_true, decide_eq_true_eq] at h
      omega
    if isDown ≠ 0 ∧ input.keyDownState[key.toNat] = 0 then
      { input with
        keyDownState := input.keyDownState.set key.toNat 1 hkey
        keyPressedState := input.keyPressedState.set key.toNat 1 hkey }
    else if isDown = 0 ∧ input.keyDownState[key.toNat] ≠ 0 then
      { input with
        keyDownState := input.keyDownState.set key.toNat 0 hkey
        keyReleasedState := input.keyReleasedState.set key.toNat 1 hkey }
    else input
  else input

/-- The first keys of `crumb_input_release_all`. -/
def releaseFirst : ℕ → Input keyCount → Input keyCount
  | 0, input => input
  | count + 1, input => setKey count 0 (releaseFirst count input)

/-- `crumb_input_release_all`. -/
def releaseAll (input : Input keyCount) : Input keyCount := input.releaseFirst keyCount

/-- `crumb_request_quit`. -/
def requestQuit (input : Input keyCount) : Input keyCount := { input with quitRequested := true }

/-- A flag of a key. Keys outside of the catalog have none. -/
def flag (flags : Vector UInt8 keyCount) (key : ℤ) : Bool :=
  validKey keyCount key && flags[key.toNat]?.any (· ≠ 0)

/-- `crumb_key_down`. -/
def keyDown (input : Input keyCount) (key : ℤ) : Bool := flag input.keyDownState key

/-- `crumb_key_pressed`. -/
def keyPressed (input : Input keyCount) (key : ℤ) : Bool := flag input.keyPressedState key

/-- `crumb_key_released`. -/
def keyReleased (input : Input keyCount) (key : ℤ) : Bool := flag input.keyReleasedState key

end Input

/-- A call after the reset. -/
inductive Event where
  | beginFrame
  | setKey (key isDown : ℤ)
  | releaseAll
  | requestQuit
  deriving DecidableEq

def Input.step (input : Input keyCount) : Event → Input keyCount
  | .beginFrame => input.beginFrame
  | .setKey key isDown => input.setKey key isDown
  | .releaseAll => input.releaseAll
  | .requestQuit => input.requestQuit

def run (keyCount : ℕ) (history : List Event) : Input keyCount := history.foldl .step .reset

/-! ## Histories -/

/-- What a call asks of a key : to be down or up. -/
def Event.asks (keyCount : ℕ) (key : ℤ) : Event → Option Bool
  | .setKey key' isDown => if validKey keyCount key ∧ key' = key then some (isDown ≠ 0) else none
  | .releaseAll => if validKey keyCount key then some false else none
  | .beginFrame | .requestQuit => none

/-- Whether a key is down after the calls : it is up at first, and as it was last asked to be. -/
def level (keyCount : ℕ) (key : ℤ) (history : List Event) : Bool :=
  (history.filterMap (·.asks keyCount key)).getLastD false

/-- After the calls, this call is a transition of the key. -/
def Changes (keyCount : ℕ) (key : ℤ) (before : List Event) (event : Event) (down : Bool) : Prop :=
  event.asks keyCount key = some down ∧ level keyCount key before ≠ down

/-- The last transition of the key. -/
def LastChange (keyCount : ℕ) (key : ℤ) (history : List Event) (down : Bool) : Prop :=
  ∃ before event after, history = before ++ event :: after ∧
    Changes keyCount key before event down ∧
    ∀ middle event' after' down', after = middle ++ event' :: after' →
      ¬Changes keyCount key (before ++ event :: middle) event' down'

/-- A transition of the key since the last `beginFrame`. -/
def ChangedSince (keyCount : ℕ) (key : ℤ) (history : List Event) (down : Bool) : Prop :=
  ∃ before event after, history = before ++ event :: after ∧
    Changes keyCount key before event down ∧ .beginFrame ∉ after

/-! ## Flags -/

namespace Input

theorem flag_eq {key : ℕ} (h : key < keyCount) (flags : Vector UInt8 keyCount) :
    flag flags key = decide (flags[key] ≠ 0) := by
  have hvalid : validKey keyCount key = true := by simp [validKey, h]
  rw [flag, hvalid, Int.toNat_natCast, Vector.getElem?_eq_getElem h]
  rfl

theorem flag_of_not_valid {key : ℤ} (h : validKey keyCount key = false)
    (flags : Vector UInt8 keyCount) : flag flags key = false := by
  rw [flag, h, Bool.false_and]

theorem flag_set {key : ℕ} (h : key < keyCount) (flags : Vector UInt8 keyCount) (value : UInt8)
    (other : ℤ) : flag (flags.set key value h) other =
      if other = key then decide (value ≠ 0) else flag flags other := by
  split
  · next heq =>
    rw [heq, flag_eq h, Vector.getElem_set_self]
  · next hne =>
    cases hvalid : validKey keyCount other with
    | false => rw [flag_of_not_valid hvalid, flag_of_not_valid hvalid]
    | true =>
      have hother : key ≠ other.toNat := by
        simp only [validKey, Bool.and_eq_true, decide_eq_true_eq] at hvalid
        omega
      rw [flag, flag, Vector.getElem?_set_ne h hother]

theorem flag_replicate (key : ℤ) : flag (Vector.replicate keyCount 0) key = false := by
  rw [flag]
  cases hvalid : validKey keyCount key with
  | false => rfl
  | true =>
    simp only [validKey, Bool.and_eq_true, decide_eq_true_eq] at hvalid
    have hkey : key.toNat < keyCount := by omega
    rw [Vector.getElem?_eq_getElem hkey, Vector.getElem_replicate]
    rfl

/-- What is reported of a key. -/
structure Reports (input : Input keyCount) (key : ℤ) (down pressed released : Bool) : Prop where
  down : input.keyDown key = down
  pressed : input.keyPressed key = pressed
  released : input.keyReleased key = released

theorem setKey_of_not_valid {key : ℤ} (h : validKey keyCount key = false) (isDown : ℤ)
    (input : Input keyCount) : input.setKey key isDown = input := by
  rw [setKey, dif_neg (by simp [h])]

/-- A key that is as it is asked to be. -/
theorem setKey_of_eq {key isDown : ℤ} {input : Input keyCount}
    (h : input.keyDown key = decide (isDown ≠ 0)) : input.setKey key isDown = input := by
  cases hvalid : validKey keyCount key with
  | false => exact setKey_of_not_valid hvalid isDown input
  | true =>
    have hbounds := hvalid
    simp only [validKey, Bool.and_eq_true, decide_eq_true_eq] at hbounds
    obtain ⟨k, rfl⟩ := Int.eq_ofNat_of_zero_le hbounds.1
    have hk : k < keyCount := by omega
    rw [keyDown, flag_eq hk, decide_eq_decide] at h
    rw [setKey, dif_pos hvalid]
    dsimp only
    simp only [Int.toNat_natCast]
    rw [if_neg (by tauto), if_neg (by tauto)]

/-- A key that is up goes down. -/
theorem setKey_down {key : ℕ} (hkey : key < keyCount) {isDown : ℤ} (hdown : isDown ≠ 0)
    {input : Input keyCount} (h : input.keyDown key = false) :
    input.setKey key isDown =
      { input with
        keyDownState := input.keyDownState.set key 1 hkey
        keyPressedState := input.keyPressedState.set key 1 hkey } := by
  have hvalid : validKey keyCount key = true := by simp [validKey, hkey]
  rw [keyDown, flag_eq hkey, decide_eq_false_iff_not, not_not] at h
  rw [setKey, dif_pos hvalid]
  simp only [Int.toNat_natCast]
  rw [if_pos ⟨hdown, h⟩]

/-- A key that is down goes up. -/
theorem setKey_up {key : ℕ} (hkey : key < keyCount) {input : Input keyCount}
    (h : input.keyDown key = true) :
    input.setKey key 0 =
      { input with
        keyDownState := input.keyDownState.set key 0 hkey
        keyReleasedState := input.keyReleasedState.set key 1 hkey } := by
  have hvalid : validKey keyCount key = true := by simp [validKey, hkey]
  rw [keyDown, flag_eq hkey, decide_eq_true_eq] at h
  rw [setKey, dif_pos hvalid]
  simp only [Int.toNat_natCast]
  rw [if_neg (fun hdown => hdown.1 rfl), if_pos ⟨trivial, h⟩]

/-- A key is asked to be what it is not. -/
def turns (asked : Option Bool) (down goal : Bool) : Bool :=
  decide (asked = some goal ∧ down ≠ goal)

/-- The reports after a call that is no `beginFrame`. -/
def After (input : Input keyCount) (key : ℤ) (asked : Option Bool)
    (down pressed released : Bool) : Prop :=
  input.Reports key (asked.getD down) (pressed || turns asked down true)
    (released || turns asked down false)

variable {input : Input keyCount} {key : ℤ} {down pressed released : Bool}

theorem Reports.unasked (h : input.Reports key down pressed released) :
    After input key none down pressed released :=
  ⟨h.down, by simpa [turns] using h.pressed, by simpa [turns] using h.released⟩

/-- A key that is asked to be what it is. -/
theorem Reports.same (h : input.Reports key down pressed released) :
    After input key (some down) down pressed released :=
  ⟨h.down, by simpa [turns] using h.pressed, by simpa [turns] using h.released⟩

theorem Reports.setKey (h : input.Reports key down pressed released) (key' isDown : ℤ) :
    After (input.setKey key' isDown) key ((Event.setKey key' isDown).asks keyCount key) down
      pressed released := by
  cases hvalid : validKey keyCount key' with
  | false =>
    have hnone : (Event.setKey key' isDown).asks keyCount key = none := by
      refine if_neg fun hasked => ?_
      rw [← hasked.2, hvalid] at hasked
      exact absurd hasked.1 Bool.false_ne_true
    rw [setKey_of_not_valid hvalid, hnone]
    exact h.unasked
  | true =>
    have hbounds := hvalid
    simp only [validKey, Bool.and_eq_true, decide_eq_true_eq] at hbounds
    obtain ⟨k, rfl⟩ := Int.eq_ofNat_of_zero_le hbounds.1
    have hk : k < keyCount := by omega
    by_cases hkey : (k : ℤ) = key
    · subst hkey
      have hasked : (Event.setKey k isDown).asks keyCount k = some (decide (isDown ≠ 0)) :=
        if_pos ⟨hvalid, rfl⟩
      rw [hasked]
      by_cases hsame : down = decide (isDown ≠ 0)
      · rw [setKey_of_eq (h.down.trans hsame), ← hsame]
        exact h.same
      · by_cases hdown : isDown = 0
        · subst hdown
          obtain rfl : down = true := by simpa using hsame
          rw [setKey_up hk h.down]
          refine ⟨?_, ?_, ?_⟩
          · simp [keyDown, flag_set]
          · simpa [keyPressed, turns] using h.pressed
          · simp [keyReleased, flag_set, turns]
        · obtain rfl : down = false := by simpa [hdown] using hsame
          rw [setKey_down hk hdown h.down]
          refine ⟨?_, ?_, ?_⟩
          · simp [keyDown, flag_set, hdown]
          · simp [keyPressed, flag_set, turns, hdown]
          · simpa [keyReleased, turns, hdown] using h.released
    · have hnone : (Event.setKey k isDown).asks keyCount key = none :=
        if_neg fun hasked => hkey hasked.2
      rw [hnone]
      have hother : ∀ (flags : Vector UInt8 keyCount) (value : UInt8),
          flag (flags.set k value hk) key = flag flags key := fun flags value => by
        rw [flag_set, if_neg (Ne.symm hkey)]
      by_cases hsame : input.keyDown k = decide (isDown ≠ 0)
      · rw [setKey_of_eq hsame]
        exact h.unasked
      · refine Reports.unasked ?_
        by_cases hdown : isDown = 0
        · subst hdown
          rw [setKey_up hk (by simpa using hsame)]
          exact ⟨(hother _ _).trans h.down, h.pressed, (hother _ _).trans h.released⟩
        · rw [setKey_down hk hdown (by simpa [hdown] using hsame)]
          exact ⟨(hother _ _).trans h.down, (hother _ _).trans h.pressed, h.released⟩

/-- The keys below a number are released. -/
theorem Reports.releaseFirst (h : input.Reports key down pressed released) {count : ℕ}
    (hcount : count ≤ keyCount) :
    After (input.releaseFirst count) key
      (if 0 ≤ key ∧ key < count then some false else none) down pressed released := by
  induction count with
  | zero =>
    rw [if_neg (by omega)]
    exact h.unasked
  | succ count ih =>
    have hfirst := ih (by omega)
    have hstep := Reports.setKey hfirst count 0
    rw [Input.releaseFirst]
    by_cases hkey : (count : ℤ) = key
    · subst hkey
      have hvalid : validKey keyCount count = true := by
        simp only [validKey, Bool.and_eq_true, decide_eq_true_eq]
        omega
      have hasked : (Event.setKey count 0).asks keyCount count = some false :=
        if_pos ⟨hvalid, rfl⟩
      rw [if_neg (by omega)] at hstep
      rw [hasked] at hstep
      rw [if_pos (by omega)]
      simpa [After, turns] using hstep
    · have hnone : (Event.setKey count 0).asks keyCount key = none :=
        if_neg fun hasked => hkey hasked.2
      rw [hnone] at hstep
      by_cases hlt : 0 ≤ key ∧ key < count
      · rw [if_pos hlt] at hstep
        rw [if_pos (by omega)]
        simpa [After, turns] using hstep
      · rw [if_neg hlt] at hstep
        rw [if_neg (by omega)]
        simpa [After, turns] using hstep

/-- A call that is no `beginFrame` does what it asks. -/
theorem Reports.step (h : input.Reports key down pressed released) {event : Event}
    (hevent : event ≠ .beginFrame) :
    After (input.step event) key (event.asks keyCount key) down pressed released := by
  cases event with
  | beginFrame => exact absurd rfl hevent
  | setKey key' isDown => exact h.setKey key' isDown
  | releaseAll =>
    have hasked : Event.releaseAll.asks keyCount key =
        if 0 ≤ key ∧ key < keyCount then some false else none := by
      simp [Event.asks, validKey]
    rw [hasked]
    exact h.releaseFirst (le_refl keyCount)
  | requestQuit => exact Reports.unasked ⟨h.down, h.pressed, h.released⟩

theorem Reports.beginFrame (h : input.Reports key down pressed released) :
    input.beginFrame.Reports key down false false :=
  ⟨h.down, flag_replicate key, flag_replicate key⟩

theorem reports_reset : (reset : Input keyCount).Reports key false false false :=
  ⟨flag_replicate key, flag_replicate key, flag_replicate key⟩

end Input

/-! ## Runs -/

variable {key : ℤ} {history : List Event}

theorem level_concat (event : Event) : level keyCount key (history ++ [event]) =
    (event.asks keyCount key).getD (level keyCount key history) := by
  rw [level, List.filterMap_append]
  cases hasked : event.asks keyCount key with
  | none => simp [hasked, level]
  | some down => simp [hasked]

/-- The splits of a history that ends with a call. -/
theorem concat_eq_iff {before after : List Event} {event last : Event} :
    history ++ [last] = before ++ event :: after ↔
      (before = history ∧ event = last ∧ after = []) ∨
      ∃ rest, after = rest ++ [last] ∧ history = before ++ event :: rest := by
  rcases List.eq_nil_or_concat after with rfl | ⟨rest, last', rfl⟩
  · rw [List.append_singleton_inj]
    constructor
    · rintro ⟨rfl, rfl⟩
      exact .inl ⟨rfl, rfl, rfl⟩
    · rintro (⟨rfl, rfl, -⟩ | ⟨rest, hrest, -⟩)
      · exact ⟨rfl, rfl⟩
      · exact absurd hrest (by simp)
  · rw [List.concat_eq_append, ← List.cons_append, ← List.append_assoc,
      List.append_singleton_inj]
    constructor
    · rintro ⟨rfl, rfl⟩
      exact .inr ⟨rest, rfl, rfl⟩
    · rintro (⟨-, -, hnil⟩ | ⟨rest', hrest, rfl⟩)
      · exact absurd hnil (by simp)
      · obtain ⟨rfl, rfl⟩ := List.append_singleton_inj.mp hrest
        exact ⟨rfl, rfl⟩

theorem changes_iff {event : Event} {down : Bool} : Changes keyCount key history event down ↔
    Input.turns (event.asks keyCount key) (level keyCount key history) down = true := by
  rw [Changes, Input.turns, decide_eq_true_eq]

theorem changedSince_concat {event : Event} {down : Bool} :
    ChangedSince keyCount key (history ++ [event]) down ↔
      Changes keyCount key history event down ∨
        (event ≠ .beginFrame ∧ ChangedSince keyCount key history down) := by
  constructor
  · rintro ⟨before, event', after, hsplit, hchanges, hafter⟩
    rcases concat_eq_iff.mp hsplit with ⟨rfl, rfl, rfl⟩ | ⟨rest, rfl, rfl⟩
    · exact .inl hchanges
    · simp only [List.mem_append, List.mem_singleton, not_or] at hafter
      exact .inr ⟨Ne.symm hafter.2, before, event', rest, rfl, hchanges, hafter.1⟩
  · rintro (hchanges | ⟨hevent, before, event', rest, rfl, hchanges, hrest⟩)
    · exact ⟨history, event, [], rfl, hchanges, List.not_mem_nil⟩
    · refine ⟨before, event', rest ++ [event], by simp, hchanges, ?_⟩
      simp only [List.mem_append, List.mem_singleton, not_or]
      exact ⟨hrest, Ne.symm hevent⟩

theorem lastChange_concat {event : Event} {down : Bool} :
    LastChange keyCount key (history ++ [event]) down ↔
      Changes keyCount key history event down ∨
        (LastChange keyCount key history down ∧
          ∀ down', ¬Changes keyCount key history event down') := by
  constructor
  · rintro ⟨before, event', after, hsplit, hchanges, hlast⟩
    rcases concat_eq_iff.mp hsplit with ⟨rfl, rfl, rfl⟩ | ⟨rest, rfl, rfl⟩
    · exact .inl hchanges
    · refine .inr ⟨⟨before, event', rest, rfl, hchanges, ?_⟩, fun down' => ?_⟩
      · rintro middle event'' after' down' rfl
        exact hlast middle event'' (after' ++ [event]) down' (by simp)
      · exact hlast rest event [] down' rfl
  · rintro (hchanges | ⟨⟨before, event', rest, rfl, hchanges, hlast⟩, hnone⟩)
    · exact ⟨history, event, [], rfl, hchanges, fun middle _ _ _ hnil => by simp at hnil⟩
    · refine ⟨before, event', rest ++ [event], by simp, hchanges, ?_⟩
      intro middle event'' after' down' hsplit
      rcases concat_eq_iff.mp hsplit with ⟨rfl, rfl, -⟩ | ⟨rest', -, hrest⟩
      · exact hnone down'
      · exact hlast middle event'' rest' down' hrest

/-- A key is down exactly when its last transition was. -/
theorem level_iff_lastChange (history : List Event) :
    level keyCount key history = true ↔ LastChange keyCount key history true := by
  induction history using List.reverseRecOn with
  | nil => exact iff_of_false (by simp [level]) fun ⟨_, _, _, h, _⟩ => by simp at h
  | append_singleton history event ih =>
    rw [level_concat, lastChange_concat, ← ih]
    simp only [Changes]
    cases event.asks keyCount key with
    | none => simp
    | some down => cases down <;> cases level keyCount key history <;> simp

/-- The flags after a run. -/
theorem reports_run (keyCount : ℕ) (key : ℤ) (history : List Event) :
    ∃ pressed released, (run keyCount history).Reports key (level keyCount key history) pressed
        released ∧
      (pressed = true ↔ ChangedSince keyCount key history true) ∧
      (released = true ↔ ChangedSince keyCount key history false) := by
  induction history using List.reverseRecOn with
  | nil =>
    have hnone : ∀ down, ¬ChangedSince keyCount key [] down := fun down ⟨_, _, _, h, _⟩ => by
      simp at h
    exact ⟨false, false, Input.reports_reset, iff_of_false Bool.false_ne_true (hnone true),
      iff_of_false Bool.false_ne_true (hnone false)⟩
  | append_singleton history event ih =>
    obtain ⟨pressed, released, hreports, hpressed, hreleased⟩ := ih
    have hrun : run keyCount (history ++ [event]) = (run keyCount history).step event := by
      rw [run, List.foldl_append]
      rfl
    rw [hrun]
    by_cases hevent : event = .beginFrame
    · subst hevent
      refine ⟨false, false, ?_, ?_, ?_⟩
      · rw [level_concat]
        exact hreports.beginFrame
      · rw [changedSince_concat]
        simp [Changes, Event.asks]
      · rw [changedSince_concat]
        simp [Changes, Event.asks]
    · refine ⟨pressed || Input.turns (event.asks keyCount key) (level keyCount key history) true,
        released || Input.turns (event.asks keyCount key) (level keyCount key history) false,
        ?_, ?_, ?_⟩
      · rw [level_concat]
        exact hreports.step hevent
      · rw [changedSince_concat, changes_iff, Bool.or_eq_true, hpressed]
        tauto
      · rw [changedSince_concat, changes_iff, Bool.or_eq_true, hreleased]
        tauto

/-- The key state is the exact summary of the calls since the reset. A key is down exactly when its
last transition was down, and pressed or released exactly when it went down or up since the last
`beginFrame`. A call that asks a key to be what it is, or a number that is no key, changes nothing,
and a call for one key changes no report of another. -/
theorem key_state_exact (keyCount : ℕ) (history : List Event) :
    (∀ key, ((run keyCount history).keyDown key = true ↔ LastChange keyCount key history true) ∧
      ((run keyCount history).keyPressed key = true ↔ ChangedSince keyCount key history true) ∧
      ((run keyCount history).keyReleased key = true ↔ ChangedSince keyCount key history false)) ∧
    (∀ key isDown, validKey keyCount key = false ∨
        (run keyCount history).keyDown key = decide (isDown ≠ 0) →
      (run keyCount history).setKey key isDown = run keyCount history) ∧
    ∀ key isDown other, other ≠ key →
      ((run keyCount history).setKey key isDown).keyDown other =
        (run keyCount history).keyDown other ∧
      ((run keyCount history).setKey key isDown).keyPressed other =
        (run keyCount history).keyPressed other ∧
      ((run keyCount history).setKey key isDown).keyReleased other =
        (run keyCount history).keyReleased other := by
  refine ⟨fun key => ?_, fun key isDown h => ?_, fun key isDown other hother => ?_⟩
  · obtain ⟨pressed, released, hreports, hpressed, hreleased⟩ := reports_run keyCount key history
    rw [hreports.down, hreports.pressed, hreports.released, level_iff_lastChange]
    exact ⟨Iff.rfl, hpressed, hreleased⟩
  · rcases h with hvalid | hsame
    · exact Input.setKey_of_not_valid hvalid isDown _
    · exact Input.setKey_of_eq hsame
  · have hreports : (run keyCount history).Reports other ((run keyCount history).keyDown other)
        ((run keyCount history).keyPressed other) ((run keyCount history).keyReleased other) :=
      ⟨rfl, rfl, rfl⟩
    have hstep := hreports.setKey key isDown
    have hnone : (Event.setKey key isDown).asks keyCount other = none :=
      if_neg fun hasked => hother hasked.2.symm
    rw [hnone] at hstep
    have hdown := hstep.down
    have hpressed := hstep.pressed
    have hreleased := hstep.released
    simp only [Input.turns, Option.getD_none, reduceCtorEq, false_and, decide_false,
      Bool.or_false] at hdown hpressed hreleased
    exact ⟨hdown, hpressed, hreleased⟩

/-- A tap within a frame is seen as both. -/
example : ((run 2 [.beginFrame, .setKey 1 1, .setKey 1 0]).keyDown 1,
    (run 2 [.beginFrame, .setKey 1 1, .setKey 1 0]).keyPressed 1,
    (run 2 [.beginFrame, .setKey 1 1, .setKey 1 0]).keyReleased 1) = (false, true, true) := by
  decide

end KeyState

end Speck
