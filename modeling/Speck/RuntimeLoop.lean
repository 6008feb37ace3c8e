import Speck.Effects
import Mathlib.Algebra.Order.Ring.Int
import Mathlib.Data.List.Basic
import Mathlib.Data.List.Induction
import Mathlib.Tactic.Common

/-!
# The runtime loop

`crumb_run` of `runtime/crumb/crumb.c` : the runtime initializes the platform and its presenter,
starts the game, and then polls, updates, draws and presents frame by frame until something ends
the loop. What the environment does (`World`) is a function of what has happened so far : the
answers of the presenter and of the platform, the signals that were observed, the calls of the game,
the clock. A run that takes more frames than its fuel is `exhausted`.

`Phase` is the life cycle as a monitor of traces, `follows` that every run keeps to it, and
`run_lifecycle` what that says of the trace.
-/

namespace Speck

namespace RuntimeLoop

/-! ## The environment -/

/-- `enum crumb_present_result`. -/
inductive PresentResult where
  | error
  | continue
  | stop
  deriving DecidableEq

structure Timespec where
  sec : ℤ
  nsec : ℤ
  deriving DecidableEq

/-- A call of the game returns, after it requested to quit or not, or the game fails and exits. -/
inductive GameCall where
  | returns (quit : Bool)
  | exits

/-- `nanosleep` : it slept, was interrupted with the time that is left, or failed. -/
inductive Sleep where
  | slept
  | interrupted (left : Timespec)
  | failed
  deriving DecidableEq

inductive Event where
  | platformInit (ready : Bool)
  | init (ready : Bool)
  | start (quit : Bool)
  | beginFrame
  | poll (result : PresentResult)
  | shouldStop (stop : Bool)
  | update (quit : Bool)
  | draw (quit : Bool)
  | present (result : PresentResult)
  | clock (now : Option Timespec)
  | sleep (delay : Timespec) (result : Sleep)
  | shutdown
  | platformShutdown
  | exit
  deriving DecidableEq

abbrev Trace := List Event

/-- What surrounds the loop, and how the runtime was compiled. -/
structure World where
  /-- `CRUMB_DEVELOPMENT` or `CRUMB_COCOA`. -/
  readsFrameLimit : Bool
  /-- `CRUMB_PACED`. -/
  isPaced : Bool
  /-- `SPECK_FRAME_LIMIT`. -/
  frameLimitText : Option String
  platformInit : Bool
  presentInit : Bool
  start : Trace → GameCall
  update : Trace → GameCall
  draw : Trace → GameCall
  poll : Trace → PresentResult
  present : Trace → PresentResult
  /-- Has a signal arrived? -/
  stopRequested : Trace → Bool
  clock : Trace → Option Timespec
  nanosleep : Trace → Timespec → Sleep

/-! ## Frame pacing -/

def frameNanoseconds : ℤ := 16666667

def advanceDeadline (deadline : Timespec) : Timespec :=
  let nsec := deadline.nsec + frameNanoseconds
  if 1000000000 ≤ nsec then ⟨deadline.sec + 1, nsec - 1000000000⟩ else ⟨deadline.sec, nsec⟩

def timespecIsBefore (left right : Timespec) : Bool :=
  left.sec < right.sec || (left.sec == right.sec && left.nsec < right.nsec)

def timespecDifference (later earlier : Timespec) : Timespec :=
  let nsec := later.nsec - earlier.nsec
  if nsec < 0 then ⟨later.sec - earlier.sec - 1, nsec + 1000000000⟩
  else ⟨later.sec - earlier.sec, nsec⟩

/-! ## Frame limit -/

/-- `CRUMB_PPM_FRAME_COUNT`. -/
def ppmFrameCount : ℤ := 5

def isSpace (c : Char) : Bool := c == ' ' || ('\t' ≤ c && c ≤ '\r')

/-- The digits of a number, if there are only digits. -/
def digits (value : ℤ) : List Char → Option ℤ
  | [] => some value
  | c :: cs => if c.isDigit then digits (value * 10 + (c.toNat - '0'.toNat)) cs else none

/-- `strtol` of a whole text in base ten. A number that does not fit is out of any range here. -/
def strtol (text : String) : Option ℤ :=
  match text.toList.dropWhile isSpace with
  | '-' :: c :: cs => (digits 0 (c :: cs)).map (-·)
  | '+' :: c :: cs => digits 0 (c :: cs)
  | c :: cs => digits 0 (c :: cs)
  | [] => none

def intMax : ℤ := 2147483647

/-- `-1` for a limit that is not valid, `0` for no limit. -/
def crumbFrameLimit (world : World) : ℤ :=
  if world.readsFrameLimit then
    match world.frameLimitText with
    | none => 0
    | some text =>
      match strtol text with
      | some value => if value ≤ 0 ∨ intMax < value then -1 else value
      | none => -1
  else ppmFrameCount

/-! ## The loop -/

/-- Why a run stopped without a return : the game exited, or the fuel ran out. -/
inductive Stop where
  | exited
  | exhausted

structure RunState where
  trace : Trace
  quitRequested : Bool
  framesCompleted : ℕ
  deadline : Timespec

abbrev RunM := ExceptT Stop (StateM RunState)

def note (event : Event) : RunM Unit := modify fun s => { s with trace := s.trace ++ [event] }

variable (world : World)

def platformInit : RunM Bool := do
  note (.platformInit world.platformInit)
  pure world.platformInit

/-- `crumb_init` resets the input, with the request to quit. -/
def crumbInit : RunM Bool := do
  modify fun s => { s with quitRequested := false }
  note (.init world.presentInit)
  pure world.presentInit

def crumbShutdown : RunM Unit := note .shutdown

def platformShutdown : RunM Unit := note .platformShutdown

/-- A call of a game function, which may call `crumb_request_quit`. -/
def callGame (function : Trace → GameCall) (event : Bool → Event) : RunM Unit := do
  let s ← get
  match function s.trace with
  | .returns quit =>
    modify fun s => { s with quitRequested := s.quitRequested || quit }
    note (event quit)
  | .exits =>
    note .exit
    throw .exited

def shouldStop : RunM Bool := do
  let s ← get
  note (.shouldStop (world.stopRequested s.trace))
  pure (world.stopRequested s.trace)

def readClock : RunM (Option Timespec) := do
  let s ← get
  note (.clock (world.clock s.trace))
  pure (world.clock s.trace)

/-- `crumb_pacing_init`, where it is compiled. -/
def crumbPacingInit : RunM Bool := do
  if world.isPaced then
    match ← readClock world with
    | some now =>
      modify fun s => { s with deadline := now }
      pure true
    | none => pure false
  else pure true

/-- Sleep until nothing is left or a signal arrives. -/
def sleepFor : ℕ → Timespec → RunM (Option Bool)
  | 0, _ => throw .exhausted
  | fuel + 1, delay => do
    let s ← get
    note (.sleep delay (world.nanosleep s.trace delay))
    match world.nanosleep s.trace delay with
    | .slept => pure (some true)
    | .failed => pure none
    | .interrupted left => do
      let stop ← shouldStop world
      if stop then pure (some false) else sleepFor fuel left

/-- A missed deadline starts over from now. -/
def renewDeadline : RunM Bool := do
  match ← readClock world with
  | some now =>
    modify fun s => { s with
      deadline := if timespecIsBefore (advanceDeadline s.deadline) now then now else s.deadline }
    pure true
  | none => pure false

def crumbWaitForNextFrame (fuel : ℕ) : RunM Bool := do
  modify fun s => { s with deadline := advanceDeadline s.deadline }
  match ← readClock world with
  | none => pure false
  | some now => do
    let s ← get
    if timespecIsBefore now s.deadline then
      match ← sleepFor world fuel (timespecDifference s.deadline now) with
      | none => pure false
      | some false => pure true
      | some true => renewDeadline world
    else renewDeadline world

/-- Wait, where pacing is compiled. -/
def pace (fuel : ℕ) : RunM Bool :=
  if world.isPaced then crumbWaitForNextFrame world fuel else pure true

def limitReached (limit : ℤ) (completed : ℕ) : Bool := limit != 0 && limit ≤ completed

/-- The condition of the `while`. -/
def continues (limit : ℤ) : RunM Bool := do
  let s ← get
  if limitReached limit s.framesCompleted then pure false
  else do
    let stop ← shouldStop world
    if stop then pure false else pure !s.quitRequested

def pollFrame : RunM PresentResult := do
  let s ← get
  note (.poll (world.poll s.trace))
  pure (world.poll s.trace)

/-- `crumb_present`, with the `uint64_t` of the completed frames. -/
def presentFrame : RunM PresentResult := do
  let s ← get
  note (.present (world.present s.trace))
  modify fun s => { s with framesCompleted := (s.framesCompleted + 1) % 2 ^ 64 }
  pure (world.present s.trace)

/-- Does the frame end before its update? -/
def stopsBefore (presentation : PresentResult) : RunM Bool :=
  if presentation = .stop then pure true else shouldStop world

/-- Was the frame the last one? -/
def stopsAfter (limit : ℤ) (presentation : PresentResult) : RunM Bool :=
  if presentation = .stop then pure true
  else do
    let stop ← shouldStop world
    if stop then pure true
    else do
      let s ← get
      pure (s.quitRequested || limitReached limit s.framesCompleted)

/-- The end of every path after the initialization. -/
def finish (code : ℕ) : RunM ℕ := do
  crumbShutdown
  platformShutdown
  pure code

/-- The frames of the `while` loop. -/
def frames (limit : ℤ) : ℕ → RunM ℕ
  | 0 => throw .exhausted
  | fuel + 1 => do
    let more ← continues world limit
    if more then do
      note .beginFrame
      let presentation ← pollFrame world
      if presentation = .error then finish 1
      else do
        let stop ← stopsBefore world presentation
        if stop then finish 0
        else do
          callGame world.update .update
          callGame world.draw .draw
          let presentation ← presentFrame world
          if presentation = .error then finish 1
          else do
            let stop ← stopsAfter world limit presentation
            if stop then finish 0
            else do
              let paced ← pace world fuel
              if paced then frames limit fuel else finish 1
    else finish 0

def crumbRun (fuel : ℕ) : RunM ℕ :=
  let limit := crumbFrameLimit world
  if limit < 0 then pure 1
  else do
    let ready ← platformInit world
    if !ready then pure 1
    else do
      let ready ← crumbInit world
      if !ready then do
        platformShutdown
        pure 1
      else do
        callGame world.start .start
        let ready ← crumbPacingInit world
        if !ready then finish 1 else frames world limit fuel

/-- A run of the process, whose statics are zero. -/
def run (fuel : ℕ) : Except Stop ℕ × RunState :=
  (crumbRun world fuel).run.run ⟨[], false, 0, ⟨0, 0⟩⟩

/-! ## The life cycle -/

/-- Where the life cycle stands. The frames that were presented are counted, and a phase between
frames says whether the game has requested to quit. -/
inductive Phase where
  | off
  | failed
  | platform
  | unready
  | ready
  | running (quit : Bool) (n : ℕ)
  | begun (n : ℕ)
  | polled (n : ℕ)
  | cleared (n : ℕ)
  | updated (quit : Bool) (n : ℕ)
  | drawn (quit : Bool) (n : ℕ)
  | stopping
  | down
  | ended (initialized : Bool)
  | exited

/-- What may happen in a phase, with a limit on the frames. -/
def advance (limit : ℤ) : Phase → Event → Option Phase
  | .off, .platformInit ready => some (if ready then .platform else .failed)
  | .platform, .init ready => some (if ready then .ready else .unready)
  | .unready, .platformShutdown => some (.ended false)
  | .ready, .start quit => some (.running quit 0)
  | .running quit n, .clock _ => some (.running quit n)
  | .running quit n, .sleep _ _ => some (.running quit n)
  | .running quit n, .shouldStop _ => some (.running quit n)
  | .running quit n, .beginFrame =>
    if quit || limitReached limit n then none else some (.begun n)
  | .begun n, .poll result => some (if result = .continue then .polled n else .stopping)
  | .polled n, .shouldStop stop => some (if stop then .stopping else .cleared n)
  | .cleared n, .update quit => some (.updated quit n)
  | .updated quit n, .draw quit' => some (.drawn (quit || quit') n)
  | .drawn quit n, .present result =>
    some (if result = .continue then .running quit (n + 1) else .stopping)
  | .running _ _, .shutdown => some .down
  | .stopping, .shutdown => some .down
  | .down, .platformShutdown => some (.ended true)
  | .ready, .exit => some .exited
  | .cleared _, .exit => some .exited
  | .updated _ _, .exit => some .exited
  | _, _ => none

/-- The phase after a trace that keeps to the life cycle. -/
def phaseAfter (limit : ℤ) (trace : Trace) : Option Phase := trace.foldlM (advance limit) .off

theorem phaseAfter_concat {limit : ℤ} {trace : Trace} {event : Event} :
    phaseAfter limit (trace ++ [event]) = (phaseAfter limit trace).bind (advance limit · event) := by
  rw [phaseAfter, List.foldlM_append, phaseAfter]
  cases trace.foldlM (advance limit) .off <;> simp

/-! ## The loop keeps to the life cycle -/

/-- The counter of the loop, which wraps. -/
def Counts (limit : ℤ) (n completed : ℕ) : Prop :=
  completed = n % 2 ^ 64 ∧ (limit ≠ 0 → (n : ℤ) ≤ limit)

/-- What the state of the loop has to do with the phase. -/
def Phase.Holds (limit : ℤ) (s : RunState) : Phase → Prop
  | .off | .platform => s.framesCompleted = 0
  | .ready => s.framesCompleted = 0 ∧ s.quitRequested = false
  | .running quit n => s.quitRequested = quit ∧ Counts limit n s.framesCompleted
  | .begun n | .polled n | .cleared n =>
    s.quitRequested = false ∧ Counts limit n s.framesCompleted ∧ limitReached limit n = false
  | .updated quit n | .drawn quit n =>
    s.quitRequested = quit ∧ Counts limit n s.framesCompleted ∧ limitReached limit n = false
  | _ => True

structure At (limit : ℤ) (phase : Phase) (s : RunState) : Prop where
  follows : phaseAfter limit s.trace = some phase
  holds : phase.Holds limit s

section Follows

variable {world : World} {limit : ℤ} {s : RunState}

theorem At.step {phase phase' : Phase} {event : Event} {s' : RunState} (h : At limit phase s)
    (htrace : s'.trace = s.trace ++ [event]) (hstep : advance limit phase event = some phase')
    (hholds : phase'.Holds limit s') : At limit phase' s' :=
  ⟨by rw [htrace, phaseAfter_concat, h.follows]; exact hstep, hholds⟩

/-- Where a run may be when its fuel is out, and where it is when it has returned. -/
def Ends (limit : ℤ) (r : Except Stop ℕ) (s : RunState) : Prop :=
  match r with
  | .ok _ => ∃ phase, (phase = .off ∨ phase = .failed ∨ ∃ initialized, phase = .ended initialized) ∧ At limit phase s
  | .error .exhausted => ∃ quit n, At limit (.running quit n) s
  | .error .exited => True

end Follows

/-- The functions of the frame lifecycle. -/
inductive Hook where
  | start
  | beginFrame
  | poll
  | update
  | draw
  | present
  deriving DecidableEq

def Event.hook : Event → Option Hook
  | .start _ => some .start
  | .beginFrame => some .beginFrame
  | .poll _ => some .poll
  | .update _ => some .update
  | .draw _ => some .draw
  | .present _ => some .present
  | _ => none

def frameHooks : List Hook := [.beginFrame, .poll, .update, .draw, .present]

/-- The start and `n` frames. -/
def frameTrace (n : ℕ) : List Hook := .start :: (List.replicate n frameHooks).flatten

theorem frameTrace_succ (n : ℕ) : frameTrace (n + 1) = frameTrace n ++ frameHooks := by
  rw [frameTrace, frameTrace, List.replicate_succ', List.flatten_append]
  simp

/-- Without a limit, any number of frames is within it. -/
def Within (limit : ℤ) (n : ℕ) : Prop := 0 < limit → (n : ℤ) ≤ limit

/-- There is room for one more frame. -/
def Room (limit : ℤ) (n : ℕ) : Prop := 0 < limit → (n : ℤ) < limit

/-- Whole frames, and after them at most a poll that ends the run. -/
def WholeFrames (limit : ℤ) (called : List Hook) : Prop :=
  ∃ n, Within limit n ∧
    ∃ rest, (rest = [] ∨ rest = [.beginFrame, .poll]) ∧ called = frameTrace n ++ rest

/-- The hooks that were called in a phase. -/
def Phase.Hooks (limit : ℤ) (called : List Hook) : Phase → Prop
  | .off | .failed | .platform | .unready | .ready | .ended false => called = []
  | .running _ n => Within limit n ∧ called = frameTrace n
  | .begun n => Room limit n ∧ called = frameTrace n ++ [.beginFrame]
  | .polled n | .cleared n => Room limit n ∧ called = frameTrace n ++ [.beginFrame, .poll]
  | .updated _ n => Room limit n ∧ called = frameTrace n ++ [.beginFrame, .poll, .update]
  | .drawn _ n => Room limit n ∧ called = frameTrace n ++ [.beginFrame, .poll, .update, .draw]
  | .stopping | .down | .ended true => WholeFrames limit called
  | .exited => True

section Monitor

variable {limit : ℤ} {phase phase' : Phase} {event : Event} {trace : Trace}

theorem phaseAfter_concat_some :
    phaseAfter limit (trace ++ [event]) = some phase' ↔
      ∃ phase, phaseAfter limit trace = some phase ∧ advance limit phase event = some phase' := by
  rw [phaseAfter_concat, Option.bind_eq_some_iff]

theorem room_of_limitReached {n : ℕ} (h : limitReached limit n = false) : Room limit n := by
  intro hpos
  simp only [limitReached, Bool.and_eq_false_iff, bne_eq_false_iff_eq, decide_eq_false_iff_not] at h
  omega

theorem Room.within_succ {n : ℕ} (h : Room limit n) : Within limit (n + 1) := by
  intro hpos
  have hlt := h hpos
  push_cast
  omega

theorem Room.within {n : ℕ} (h : Room limit n) : Within limit n := fun hpos => (h hpos).le

theorem Phase.Hooks.step (h : advance limit phase event = some phase') {called : List Hook}
    (hhooks : phase.Hooks limit called) : phase'.Hooks limit (called ++ event.hook.toList) := by
  unfold advance at h
  split at h
  case h_8 quit n =>
    split at h
    · cases h
    · next hroom =>
      cases h
      rw [Bool.or_eq_true, not_or, Bool.not_eq_true, Bool.not_eq_true] at hroom
      obtain ⟨-, rfl⟩ := hhooks
      exact ⟨room_of_limitReached hroom.2, rfl⟩
  case h_9 n result =>
    obtain ⟨hroom, rfl⟩ := hhooks
    cases h
    split
    · exact ⟨hroom, by simp [Event.hook]⟩
    · exact ⟨n, hroom.within, _, .inr rfl, by simp [Event.hook]⟩
  case h_10 n stop =>
    obtain ⟨hroom, rfl⟩ := hhooks
    cases h
    split
    · exact ⟨n, hroom.within, _, .inr rfl, by simp [Event.hook]⟩
    · exact ⟨hroom, by simp [Event.hook]⟩
  case h_13 quit n result =>
    obtain ⟨hroom, rfl⟩ := hhooks
    have hframe : frameTrace n ++ [.beginFrame, .poll, .update, .draw] ++
        (Event.present result).hook.toList = frameTrace (n + 1) := by
      rw [frameTrace_succ]
      simp [Event.hook, frameHooks]
    cases h
    rw [hframe]
    split
    · exact ⟨hroom.within_succ, rfl⟩
    · exact ⟨n + 1, hroom.within_succ, _, .inl rfl, by simp⟩
  case h_14 quit n =>
    obtain ⟨hwithin, rfl⟩ := hhooks
    cases h
    exact ⟨n, hwithin, _, .inl rfl, by simp [Event.hook]⟩
  case h_1 | h_2 =>
    cases h
    split <;> simpa [Phase.Hooks, Event.hook] using hhooks
  all_goals cases h
  case h_4 quit =>
    obtain rfl : called = [] := hhooks
    exact ⟨fun hpos => by simpa using hpos.le, rfl⟩
  case h_11 | h_12 =>
    obtain ⟨hroom, rfl⟩ := hhooks
    exact ⟨hroom, by simp [Event.hook]⟩
  case h_17 | h_18 | h_19 => trivial
  all_goals simpa [Phase.Hooks, Event.hook] using hhooks

theorem advance_ready (h : advance limit phase event = some .ready) :
    phase = .platform ∧ event = .init true := by
  unfold advance at h
  split at h <;> first | cases h | skip
  all_goals (try split at h) <;> simp_all

theorem advance_platform (h : advance limit phase event = some .platform) :
    phase = .off ∧ event = .platformInit true := by
  unfold advance at h
  split at h <;> first | cases h | skip
  all_goals (try split at h) <;> simp_all

theorem advance_ne_off (h : advance limit phase event = some .off) : False := by
  unfold advance at h
  split at h <;> first | cases h | skip
  all_goals (try split at h) <;> simp_all

theorem eq_nil_of_off (h : phaseAfter limit trace = some .off) : trace = [] := by
  rcases List.eq_nil_or_concat' trace with rfl | ⟨trace, event, rfl⟩
  · rfl
  obtain ⟨before, -, hstep⟩ := phaseAfter_concat_some.mp h
  exact (advance_ne_off hstep).elim

theorem eq_of_platform (h : phaseAfter limit trace = some .platform) :
    trace = [.platformInit true] := by
  rcases List.eq_nil_or_concat' trace with rfl | ⟨trace, event, rfl⟩
  · cases h
  obtain ⟨before, hbefore, hstep⟩ := phaseAfter_concat_some.mp h
  obtain ⟨rfl, rfl⟩ := advance_platform hstep
  rw [eq_nil_of_off hbefore]
  rfl

theorem eq_of_ready (h : phaseAfter limit trace = some .ready) :
    trace = [.platformInit true, .init true] := by
  rcases List.eq_nil_or_concat' trace with rfl | ⟨trace, event, rfl⟩
  · cases h
  obtain ⟨before, hbefore, hstep⟩ := phaseAfter_concat_some.mp h
  obtain ⟨rfl, rfl⟩ := advance_ready hstep
  rw [eq_of_platform hbefore]
  rfl

end Monitor

end RuntimeLoop

end Speck
