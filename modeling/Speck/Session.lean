import Speck.InputControl
import Speck.Runs
import Mathlib.Algebra.BigOperators.Group.Finset.Basic
import Mathlib.Algebra.BigOperators.Intervals
import Mathlib.Order.Interval.Finset.Nat

/-!
# Game runs of the development server

`Session` of `dev/session.rs` launches and stops one game after another. Each run has a frame
receiver (`spawn_frame_receiver` of `dev/server.rs`), a thread that accepts the game's
connection, hands it to the input control and publishes its frames. The threads share
`FrameStore` and `InputControl`, each behind a lock, and a step is one access of one thread,
with what its environment decides : the state of the child process, what a socket gives, the
clock. Viewers poll for frames and post input at any time.

`Server` adds what the code does not keep : for each run its generation, its connection and
whether `stop_game` has disconnected its input; and the frames published and received.
-/

namespace Speck

/-! ## The frame store -/

inductive ViewerState where
  | running
  | stopped
  | building
  | buildFailed
  | watching
  deriving DecidableEq, Repr

structure Frame where
  sequence : ℕ
  resolution : ℕ × ℕ
  pixels : List UInt8
  deriving DecidableEq

structure FrameState where
  latest : Option Frame
  state : ViewerState
  generation : ℕ
  sequence : ℕ
  deliveryOffset : ℕ

structure FrameSnapshot where
  frame : Option Frame
  state : ViewerState
  generation : ℕ

namespace FrameState

def start : FrameState := ⟨none, .running, 0, 0, 0⟩

/-- Sequence numbers are `u64`. -/
def publish (s : FrameState) (frame : Frame) : FrameState :=
  let frame := { frame with sequence := (frame.sequence + s.deliveryOffset) % 2 ^ 64 }
  { s with sequence := frame.sequence, latest := some frame }

def beginRun (s : FrameState) : FrameState :=
  { s with
    generation := s.generation + 1
    deliveryOffset := s.sequence
    latest := none
    state := .running }

def setState (s : FrameState) (status : ViewerState) : FrameState :=
  match status with
  | .building | .buildFailed => { s with latest := none, state := status }
  | _ => { s with state := status }

def stop (s : FrameState) : FrameState := { s with state := .stopped }

/-- The condition of `wait_timeout_while`. -/
def waits (s : FrameState) (sequence : ℕ) : Bool :=
  s.state = .running && s.latest.all (·.sequence ≤ sequence)

/-- What `wait_after` returns when its wait is over. -/
def waitAfter (s : FrameState) (sequence : ℕ) : FrameSnapshot :=
  ⟨s.latest.filter (sequence < ·.sequence), s.state, s.generation⟩

end FrameState

/-! ## Threads -/

/-- Where a frame receiver is : before the access it is named after. -/
inductive ReceiverPc where
  | loadReaped
  | accept (wasReaped : Bool)
  | configure
  | generation
  | connectGame (generation : ℕ)
  | readFrame
  | disconnectGame
  | stopFrames
  | done
  deriving DecidableEq

/-- The receiver of one run. `reaped` is shared with its `GameRun`. -/
structure Receiver where
  pc : ReceiverPc
  reaped : Bool
  lastSequence : ℕ
  -- ghost state
  generation : ℕ
  connection : Option ℕ
  stopped : Bool

/-- What a socket gives to a receiver. -/
inductive StreamEvent where
  | ready
  | wouldBlock
  | failed
  | frame (frame : Frame)
  | closed

/-- What the system says about a child. -/
inductive ChildStatus where
  | exited
  | running
  | failed

/-- Where the session is. A run that is being stopped has left `Session.game`. -/
inductive SessionPc where
  | idle
  | beginRun
  | spawnReceiver
  | disconnectGame (run : ℕ)
  | tryWait (run : ℕ)
  | reap (run : ℕ)
  | terminate (run : ℕ)
  | join (run : ℕ)
  deriving DecidableEq

/-- A published frame, the generation of its run and the last generation begun. -/
structure Publication where
  frame : Frame
  generation : ℕ
  begun : ℕ

structure Server (Key : Type) where
  frames : FrameState
  input : World Key
  game : Option ℕ
  session : SessionPc
  runs : ℕ
  receivers : ℕ → Receiver
  clients : String → ℕ
  -- ghost state
  cleared : Bool
  published : List Publication
  received : List (String × ℕ)

/-- A step of one thread. -/
inductive Action (Key : Type) where
  | launch (spawned : Bool)
  | stopGame
  | drop
  | session (child : ChildStatus)
  | setState (status : ViewerState)
  | stopFrames
  | receiver (run : ℕ) (event : StreamEvent)
  | apply (input : BrowserInput Key) (generation now : ℕ) (delivered : Bool)
  | expireLease (now : ℕ) (delivered : Bool)
  | releaseAndDisconnect (delivered : Bool)
  | poll (client : String) (timedOut delivered : Bool)

variable {Key : Type}

namespace Server

/-- No run yet. -/
def start : Server Key where
  frames := .start
  input := .start
  game := none
  session := .idle
  runs := 0
  receivers := fun _ => ⟨.done, false, 0, 0, none, false⟩
  clients := fun _ => 0
  cleared := false
  published := []
  received := []

def setReceiver (w : Server Key) (run : ℕ) (receiver : Receiver) : Server Key :=
  { w with receivers := Function.update w.receivers run receiver }

/-- The next access of the session. An error ends the call, and dropping the `GameRun` still
terminates the child and joins the receiver. -/
def stepSession (w : Server Key) (child : ChildStatus) : Server Key :=
  match w.session with
  | .idle => w
  -- `launch`, once the child runs
  | .beginRun => { w with frames := w.frames.beginRun, session := .spawnReceiver, cleared := true }
  | .spawnReceiver =>
    { w with
      receivers := Function.update w.receivers w.runs
        ⟨.loadReaped, false, 0, w.frames.generation, none, false⟩
      game := some w.runs
      runs := w.runs + 1
      session := .idle }
  -- `stop_game`
  | .disconnectGame run =>
    { w with
      input := w.input.disconnectGame
      receivers := Function.update w.receivers run { w.receivers run with stopped := true }
      session := .tryWait run }
  -- any `try_wait`, `interrupt_child` and the deadline
  | .tryWait run =>
    match child with
    | .exited => { w with session := .reap run }
    | .running => w
    | .failed => { w with session := .terminate run }
  | .reap run | .terminate run =>
    { w with
      receivers := Function.update w.receivers run { w.receivers run with reaped := true }
      session := .join run }
  | .join run => if (w.receivers run).pc = .done then { w with session := .idle } else w

def setPc (w : Server Key) (run : ℕ) (pc : ReceiverPc) : Server Key :=
  w.setReceiver run { w.receivers run with pc }

/-- The next access of a receiver, `receive_frames` and the end of its thread. -/
def stepReceiver (w : Server Key) (run : ℕ) (event : StreamEvent) : Server Key :=
  match (w.receivers run).pc with
  | .loadReaped => w.setPc run (.accept (w.receivers run).reaped)
  | .accept wasReaped =>
    match event with
    | .ready => w.setPc run .configure
    -- a connection that was queued before the exit is still accepted
    | .wouldBlock => w.setPc run (if wasReaped then .disconnectGame else .loadReaped)
    | .failed => w.setPc run .disconnectGame
    | .frame _ | .closed => w
  | .configure =>
    match event with
    | .ready => w.setPc run .generation
    | .failed => w.setPc run .disconnectGame
    | .wouldBlock | .frame _ | .closed => w
  | .generation => w.setPc run (.connectGame w.frames.generation)
  | .connectGame generation =>
    match event with
    | .ready =>
      { w.setReceiver run { w.receivers run with
          pc := .readFrame, connection := some w.input.generations.length } with
        input := w.input.connectGame true generation }
    | .failed =>
      { w.setPc run .disconnectGame with input := w.input.connectGame false generation }
    | .wouldBlock | .frame _ | .closed => w
  | .readFrame =>
    match event with
    | .frame frame =>
      if frame.sequence ≤ (w.receivers run).lastSequence then w.setPc run .disconnectGame
      else
        let frames := w.frames.publish frame
        { w.setReceiver run { w.receivers run with lastSequence := frame.sequence } with
          frames
          cleared := false
          published := w.published ++ [⟨{ frame with sequence := frames.sequence },
            (w.receivers run).generation, w.frames.generation⟩] }
    | .closed | .failed => w.setPc run .disconnectGame
    | .ready | .wouldBlock => w
  | .disconnectGame => { w.setPc run .stopFrames with input := w.input.disconnectGame }
  | .stopFrames => { w.setPc run .done with frames := w.frames.stop }
  | .done => w

/-- `GET /frame`, from a client that asks with the last sequence number it received. -/
def poll (w : Server Key) (client : String) (timedOut delivered : Bool) : Server Key :=
  if w.frames.waits (w.clients client) && !timedOut then w
  else
    match (w.frames.waitAfter (w.clients client)).frame with
    | some frame =>
      if delivered then
        { w with
          clients := Function.update w.clients client frame.sequence
          received := w.received ++ [(client, frame.sequence)] }
      else w
    | none => w

/-- `launch` asserts that no game is left, and a failed bind or spawn changes nothing. -/
def step (w : Server Key) : Action Key → Server Key
  | .launch spawned =>
    if w.session = .idle ∧ w.game = none ∧ spawned then { w with session := .beginRun } else w
  | .stopGame =>
    match w.session, w.game with
    | .idle, some run => { w with game := none, session := .disconnectGame run }
    | _, _ => w
  | .drop =>
    match w.session, w.game with
    | .idle, some run => { w with game := none, session := .terminate run }
    | _, _ => w
  | .session child => w.stepSession child
  | .setState status =>
    { w with
      frames := w.frames.setState status
      cleared := w.cleared || status = .building || status = .buildFailed }
  | .stopFrames => { w with frames := w.frames.stop }
  | .receiver run event => w.stepReceiver run event
  | .apply input generation now delivered =>
    { w with input := w.input.step (.apply input generation now delivered) }
  | .expireLease now delivered => { w with input := w.input.step (.expireLease now delivered) }
  | .releaseAndDisconnect delivered =>
    { w with input := w.input.step (.releaseAndDisconnect delivered) }
  | .poll client timedOut delivered => w.poll client timedOut delivered

/-- Any interleaving of steps. -/
def run (actions : List (Action Key)) : Server Key := actions.foldl step start

/-! ## One run at a time -/

/-- The run that the session owns. -/
def owned (w : Server Key) : Option ℕ :=
  match w.session with
  | .idle => w.game
  | .beginRun | .spawnReceiver => none
  | .disconnectGame run | .tryWait run | .reap run | .terminate run | .join run => some run

/-- Only the receiver of the last run is left, and only while the session owns that run. -/
structure Orderly (w : Server Key) : Prop where
  owned : ∀ k, (w.receivers k).pc ≠ .done → w.owned = some k
  last : ∀ k, w.owned = some k → k + 1 = w.runs
  taken : w.session ≠ .idle → w.game = none
  begun : w.frames.generation = if w.session = .spawnReceiver then w.runs + 1 else w.runs
  generation : ∀ k < w.runs, (w.receivers k).generation = k + 1
  connect : ∀ k g, (w.receivers k).pc = .connectGame g → g = k + 1

theorem orderly_start : (start : Server Key).Orderly := by
  constructor <;> simp [start, Server.owned, FrameState.start]

namespace Orderly

variable {w w' : Server Key}

/-- A receiver that is left has the generation of the last run, which nobody can pass. -/
theorem begun_eq (h : w.Orderly) {k : ℕ} (hk : (w.receivers k).pc ≠ .done) :
    k + 1 = w.runs ∧ w.frames.generation = k + 1 := by
  have howned := h.owned k hk
  have hlast := h.last k howned
  have hbegun := h.begun
  have hspawn : w.session ≠ .spawnReceiver := fun hspawn => by simp [Server.owned, hspawn] at howned
  rw [if_neg hspawn] at hbegun
  exact ⟨hlast, by omega⟩

/-- A step of a receiver that leaves the session alone. -/
theorem of_receiver (h : w.Orderly) {k : ℕ} {r : Receiver} (hk : (w.receivers k).pc ≠ .done)
    (hreceivers : w'.receivers = Function.update w.receivers k r)
    (hgeneration : r.generation = (w.receivers k).generation)
    (hconnect : ∀ g, r.pc = .connectGame g → g = k + 1) (hgame : w'.game = w.game)
    (hsession : w'.session = w.session) (hruns : w'.runs = w.runs)
    (hbegun : w'.frames.generation = w.frames.generation) : w'.Orderly := by
  have howned : w'.owned = w.owned := by simp only [Server.owned, hsession, hgame]
  refine ⟨fun j hj => ?_, fun j hj => ?_, ?_, ?_, fun j hj => ?_, fun j g hg => ?_⟩
  · rw [howned]
    by_cases hjk : j = k
    · exact hjk ▸ h.owned k hk
    · rw [hreceivers, Function.update_of_ne hjk] at hj
      exact h.owned j hj
  · rw [hruns]
    exact h.last j (howned ▸ hj)
  · rw [hsession, hgame]
    exact h.taken
  · rw [hsession, hruns, hbegun]
    exact h.begun
  · rw [hruns] at hj
    rw [hreceivers]
    by_cases hjk : j = k
    · subst hjk
      rw [Function.update_self, hgeneration]
      exact h.generation j hj
    · rw [Function.update_of_ne hjk]
      exact h.generation j hj
  · rw [hreceivers] at hg
    by_cases hjk : j = k
    · subst hjk
      rw [Function.update_self] at hg
      exact hconnect g hg
    · rw [Function.update_of_ne hjk] at hg
      exact h.connect j g hg

/-- A step that touches neither the session nor a receiver. -/
theorem of_frame (h : w.Orderly) (hreceivers : w'.receivers = w.receivers)
    (hgame : w'.game = w.game) (hsession : w'.session = w.session) (hruns : w'.runs = w.runs)
    (hbegun : w'.frames.generation = w.frames.generation) : w'.Orderly := by
  have howned : w'.owned = w.owned := by simp only [Server.owned, hsession, hgame]
  refine ⟨?_, ?_, ?_, ?_, ?_, ?_⟩
  · rw [hreceivers, howned]
    exact h.owned
  · rw [howned, hruns]
    exact h.last
  · rw [hsession, hgame]
    exact h.taken
  · rw [hsession, hruns, hbegun]
    exact h.begun
  · rw [hreceivers, hruns]
    exact h.generation
  · rw [hreceivers]
    exact h.connect

theorem stepReceiver (h : w.Orderly) (k : ℕ) (event : StreamEvent) :
    (w.stepReceiver k event).Orderly := by
  have hset : ∀ pc, (w.receivers k).pc ≠ .done → (∀ g, pc = .connectGame g → g = k + 1) →
      (w.setPc k pc).Orderly :=
    fun pc hk hconnect => h.of_receiver hk rfl rfl hconnect rfl rfl rfl rfl
  unfold Server.stepReceiver
  cases hpc : (w.receivers k).pc
  case done => exact h
  all_goals have hk : (w.receivers k).pc ≠ .done := by simp [hpc]
  case loadReaped => exact hset _ hk nofun
  case accept wasReaped =>
    cases event
    case wouldBlock => exact hset _ hk fun g hg => by split at hg <;> cases hg
    case ready | failed => exact hset _ hk nofun
    all_goals exact h
  case configure => cases event <;> first | exact h | exact hset _ hk nofun
  case generation =>
    refine hset _ hk fun g hg => ?_
    cases hg
    exact (h.begun_eq hk).2
  case connectGame generation =>
    cases event <;> first | exact h | exact h.of_receiver hk rfl rfl nofun rfl rfl rfl rfl
  case readFrame =>
    cases event
    case frame frame =>
      simp only
      split
      · exact hset _ hk nofun
      · exact h.of_receiver hk rfl rfl (fun g hg => by simp [hpc] at hg) rfl rfl rfl rfl
    case closed | failed => exact hset _ hk nofun
    all_goals exact h
  case disconnectGame | stopFrames => exact h.of_receiver hk rfl rfl nofun rfl rfl rfl rfl

/-- The session marks its own run. -/
theorem mark (h : w.Orderly) {k : ℕ} (howned : w.owned = some k) {r : Receiver}
    (hreceivers : w'.receivers = Function.update w.receivers k r)
    (hpc : r.pc = (w.receivers k).pc) (hgeneration : r.generation = (w.receivers k).generation)
    (howned' : w'.owned = some k)
    (hgame : w'.game = none) (hruns : w'.runs = w.runs) (hframes : w'.frames = w.frames)
    (hspawn : w'.session ≠ .spawnReceiver) : w'.Orderly := by
  have hspawned : w.session ≠ .spawnReceiver := fun hs => by simp [Server.owned, hs] at howned
  refine ⟨fun j hj => ?_, fun j hj => ?_, fun _ => hgame, ?_, fun j hj => ?_, fun j g hg => ?_⟩
  · rw [howned']
    by_cases hjk : j = k
    · exact hjk ▸ rfl
    · rw [hreceivers, Function.update_of_ne hjk] at hj
      rw [← howned]
      exact h.owned j hj
  · rw [hruns]
    rw [howned', ← howned] at hj
    exact h.last j hj
  · have hbegun := h.begun
    rw [if_neg hspawned] at hbegun
    rw [if_neg hspawn, hframes, hruns, hbegun]
  · rw [hruns] at hj
    rw [hreceivers]
    by_cases hjk : j = k
    · subst hjk
      rw [Function.update_self, hgeneration]
      exact h.generation j hj
    · rw [Function.update_of_ne hjk]
      exact h.generation j hj
  · rw [hreceivers] at hg
    by_cases hjk : j = k
    · subst hjk
      rw [Function.update_self, hpc] at hg
      exact h.connect j g hg
    · rw [Function.update_of_ne hjk] at hg
      exact h.connect j g hg

/-- The session goes on with the run that it owns. -/
theorem of_session (h : w.Orderly) {k : ℕ} (session : SessionPc) (howned : w.owned = some k)
    (howned' : Server.owned { w with game := none, session } = some k)
    (hspawn : session ≠ .spawnReceiver) : Orderly { w with game := none, session } :=
  h.mark howned (Function.update_eq_self k w.receivers).symm rfl rfl howned' rfl rfl rfl hspawn

theorem stepSession (h : w.Orderly) (child : ChildStatus) : (w.stepSession child).Orderly := by
  unfold Server.stepSession
  cases hs : w.session <;> simp only
  case idle => exact h
  case beginRun =>
    have hgame := h.taken (by simp [hs])
    have hbegun := h.begun
    refine ⟨fun k hk => ?_, nofun, fun _ => hgame, ?_, h.generation, h.connect⟩
    · have howned := h.owned k hk
      simp [Server.owned, hs] at howned
    · rw [hs, if_neg nofun] at hbegun
      simp [FrameState.beginRun, hbegun]
  case spawnReceiver =>
    have hbegun := h.begun
    rw [hs, if_pos rfl] at hbegun
    have hdone : ∀ k, (w.receivers k).pc = .done := fun k => by
      by_contra hk
      have howned := h.owned k hk
      simp [Server.owned, hs] at howned
    refine ⟨fun k hk => ?_, fun k hk => ?_, nofun, by simpa using hbegun, fun k hk => ?_,
      fun k g hg => ?_⟩
    · by_cases hkr : k = w.runs
      · exact hkr ▸ rfl
      · simp only [Function.update_of_ne hkr] at hk
        exact absurd (hdone k) hk
    · cases hk
      rfl
    · by_cases hkr : k = w.runs
      · simp [hkr, hbegun]
      · simp only [Function.update_of_ne hkr]
        exact h.generation k (by simp only at hk; omega)
    · by_cases hkr : k = w.runs
      · subst hkr
        simp at hg
      · simp only [Function.update_of_ne hkr] at hg
        exact h.connect k g hg
  case disconnectGame run | reap run | terminate run =>
    have howned : w.owned = some run := by simp [Server.owned, hs]
    exact h.mark howned rfl rfl rfl rfl (h.taken (by simp [hs])) rfl rfl nofun
  case tryWait run =>
    have howned : w.owned = some run := by simp [Server.owned, hs]
    have hgame := h.taken (by simp [hs])
    split
    · have h' := h.of_session (.reap run) howned rfl nofun
      rwa [← hgame] at h'
    · exact h
    · have h' := h.of_session (.terminate run) howned rfl nofun
      rwa [← hgame] at h'
  case join run =>
    have hgame := h.taken (by simp [hs])
    split
    · next hdone =>
      have hbegun := h.begun
      rw [hs, if_neg nofun] at hbegun
      refine ⟨fun k hk => ?_, fun k hk => ?_, nofun, by simpa using hbegun, h.generation, h.connect⟩
      · have howned := h.owned k hk
        simp only [Server.owned, hs, Option.some.injEq] at howned
        subst howned
        exact absurd hdone hk
      · simp [Server.owned, hgame] at hk
    · exact h

theorem step (h : w.Orderly) (action : Action Key) : (w.step action).Orderly := by
  cases action <;> simp only [Server.step]
  case launch spawned =>
    split
    · next hidle =>
      obtain ⟨hs, hgame, -⟩ := hidle
      have hbegun := h.begun
      rw [hs, if_neg nofun] at hbegun
      refine ⟨fun k hk => ?_, nofun, fun _ => hgame, by simpa using hbegun, h.generation, h.connect⟩
      have howned := h.owned k hk
      simp [Server.owned, hs, hgame] at howned
    · exact h
  case stopGame | drop =>
    split
    · next hs hgame => exact h.of_session _ (by simp [Server.owned, hs, hgame]) rfl nofun
    · exact h
  case session child => exact h.stepSession child
  case receiver run event => exact h.stepReceiver run event
  case setState status => exact h.of_frame rfl rfl rfl rfl (by cases status <;> rfl)
  case poll client timedOut delivered =>
    unfold Server.poll
    split
    · exact h
    · split
      · split
        · exact h.of_frame rfl rfl rfl rfl rfl
        · exact h
      · exact h
  all_goals exact h.of_frame rfl rfl rfl rfl rfl

theorem run (actions : List (Action Key)) : (Server.run actions).Orderly :=
  foldl_invariant orderly_start (fun _ action h => h.step action) actions

end Orderly

end Server

/-! ## Operations of the input control -/

namespace World

theorem sendControl_state (w : World Key) (message : ControlMessage Key)
    (request : Option (String × ℕ)) (delivered : Bool) :
    (w.sendControl message request delivered).1.state = w.state ∨
      (w.sendControl message request delivered).1.state.game = none := by
  unfold sendControl
  split
  · split
    · exact .inl rfl
    · exact .inr rfl
  · exact .inr rfl

theorem generations_sendControl (w : World Key) (message : ControlMessage Key)
    (request : Option (String × ℕ)) (delivered : Bool) :
    (w.sendControl message request delivered).1.generations = w.generations := by
  unfold sendControl
  split
  · split <;> rfl
  · rfl

/-- Records go to the live connection. -/
theorem recordsOn_sendControl (w : World Key) (message : ControlMessage Key)
    (request : Option (String × ℕ)) (delivered : Bool) {c : ℕ} (hc : w.state.game ≠ some c) :
    (w.sendControl message request delivered).1.recordsOn c = w.recordsOn c := by
  unfold sendControl
  split
  · next c' hgame =>
    have hne : c' ≠ c := fun heq => hc (heq ▸ hgame)
    split
    · simp [recordsOn, hne]
    · rfl
  · rfl

/-- Only the live generation's requests are accepted. -/
theorem apply_accepted {w : World Key} {input : BrowserInput Key} {generation now : ℕ}
    {delivered : Bool} (h : (w.apply input generation now delivered).2 = .accepted) :
    w.state.game ≠ none ∧ generation = w.state.generation := by
  unfold apply at h
  split at h
  · cases h
  next hgame =>
  split at h
  · cases h
  next hgeneration => exact ⟨hgame, not_not.mp hgeneration⟩

/-- What an operation other than a new connection leaves alone. -/
structure Keeps (w w' : World Key) : Prop where
  generations : w'.generations = w.generations
  live : ∀ c, w'.state.game = some c →
    w.state.game = some c ∧ w'.state.generation = w.state.generation
  records : ∀ c, w.state.game ≠ some c → w'.recordsOn c = w.recordsOn c

theorem keeps_refl (w : World Key) : w.Keeps w := ⟨rfl, fun _ hc => ⟨hc, rfl⟩, fun _ _ => rfl⟩

theorem keeps_sendControl (w : World Key) (message : ControlMessage Key)
    (request : Option (String × ℕ)) (delivered : Bool) :
    w.Keeps (w.sendControl message request delivered).1 := by
  refine ⟨w.generations_sendControl message request delivered, fun c hc => ?_,
    fun c hc => w.recordsOn_sendControl message request delivered hc⟩
  rcases w.sendControl_state message request delivered with hstate | hnone
  · rw [hstate] at hc ⊢
    exact ⟨hc, rfl⟩
  · rw [hnone] at hc
    cases hc

theorem keeps_disconnectGame (w : World Key) : w.Keeps w.disconnectGame :=
  ⟨rfl, fun _ hc => (nomatch hc), fun _ _ => rfl⟩

theorem Keeps.lease {w w' : World Key} (h : w.Keeps w') (owner : Option String)
    (lastSeen : Option ℕ) :
    w.Keeps { w' with state := { w'.state with owner := owner, lastSeen := lastSeen } } :=
  ⟨h.generations, h.live, h.records⟩

theorem Keeps.trans {w w' w'' : World Key} (h : w.Keeps w') (h' : w'.Keeps w'') : w.Keeps w'' := by
  refine ⟨h'.generations.trans h.generations, fun c hc => ?_, fun c hc => ?_⟩
  · obtain ⟨hc', hgeneration'⟩ := h'.live c hc
    obtain ⟨hc, hgeneration⟩ := h.live c hc'
    exact ⟨hc, hgeneration'.trans hgeneration⟩
  · exact (h'.records c fun hc' => hc (h.live c hc').1).trans (h.records c hc)

theorem Keeps.sendControl {w w' : World Key} (h : w.Keeps w') (message : ControlMessage Key)
    (request : Option (String × ℕ)) (delivered : Bool) :
    w.Keeps (w'.sendControl message request delivered).1 :=
  h.trans (w'.keeps_sendControl message request delivered)

theorem Keeps.ite {w : World Key} {c : Prop} [Decidable c] {r r' : World Key × InputResult}
    (h : w.Keeps r.1) (h' : w.Keeps r'.1) : w.Keeps (if c then r else r').1 := by
  split
  · exact h
  · exact h'

theorem keeps_apply (w : World Key) (input : BrowserInput Key) (generation now : ℕ)
    (delivered : Bool) : w.Keeps (w.apply input generation now delivered).1 := by
  unfold apply
  split
  · exact w.keeps_refl
  split
  · exact w.keeps_refl
  cases input <;> simp only [BrowserInput.message]
  case unsupportedKey => exact w.keeps_refl
  all_goals split
  case heartbeat.isTrue | key.isTrue | releaseAll.isTrue => exact w.keeps_refl
  case heartbeat.isFalse => exact w.keeps_refl.lease _ _
  all_goals
    -- who owns the input now
    split <;> refine Keeps.ite ?_ ?_ <;> first
      | exact (w.keeps_refl.lease _ _).sendControl _ _ _
      | exact ((w.keeps_refl.lease _ _).sendControl _ _ _).lease _ _

theorem keeps_expireLease (w : World Key) (now : ℕ) (delivered : Bool) :
    w.Keeps (w.expireLease now delivered) := by
  unfold expireLease
  split
  · exact (w.keeps_sendControl _ _ _).lease _ _
  · exact w.keeps_refl

theorem keeps_releaseAndDisconnect (w : World Key) (delivered : Bool) :
    w.Keeps (w.releaseAndDisconnect delivered) :=
  (w.keeps_sendControl _ _ _).trans (keeps_disconnectGame _)

/-- No operation writes to a connection that is not live. -/
theorem recordsOn_step (w : World Key) (event : Event Key) {c : ℕ} (hc : w.state.game ≠ some c) :
    (w.step event).recordsOn c = w.recordsOn c := by
  cases event with
  | connectGame configured generation => cases configured <;> rfl
  | disconnectGame => rfl
  | apply input generation now delivered =>
    exact (w.keeps_apply input generation now delivered).records c hc
  | expireLease now delivered => exact (w.keeps_expireLease now delivered).records c hc
  | releaseAndDisconnect delivered =>
    exact (w.keeps_releaseAndDisconnect delivered).records c hc

end World

namespace Server

/-! ## The boundary of a stop -/

/-- Where a run is a boundary's other side : no request for its generation is accepted, and no
operation writes to its connection. -/
def Detached (w : Server Key) (run : ℕ) : Prop :=
  (∀ input now delivered,
    (w.input.apply input (w.receivers run).generation now delivered).2 ≠ .accepted) ∧
  ∀ event connection, (w.receivers run).connection = some connection →
    (w.input.step event).recordsOn connection = w.input.recordsOn connection

namespace Sample

/-- The first run, up to its receiver. -/
def launch : List (Action Bool) := [.launch true, .session .exited, .session .exited]

/-- The receiver finds the queued connection and is about to hand it over. -/
def accept : List (Action Bool) :=
  [.receiver 0 .ready, .receiver 0 .ready, .receiver 0 .ready, .receiver 0 .ready]

def connect : List (Action Bool) := [.receiver 0 .ready]

def stop : List (Action Bool) := [.stopGame, .session .running]

end Sample

/-- A receiver that connects its game after the stop takes input for the stopped run. -/
theorem stop_reconnected : ¬∀ actions : List (Action Bool), ∀ k < (run actions).runs,
    ((run actions).receivers k).stopped = true → (run actions).Detached k := by
  intro h
  have hdetached := h (Sample.launch ++ Sample.stop ++ Sample.accept ++ Sample.connect) 0
    (by decide) (by decide)
  exact hdetached.1 (.key "viewer" true true) 0 true (by decide)

/-- A receiver connects only a game that has not been stopped. -/
def Meets (w : Server Key) : Action Key → Prop
  | .receiver run .ready =>
    match (w.receivers run).pc with
    | .connectGame _ => (w.receivers run).stopped = false
    | _ => True
  | _ => True

instance (w : Server Key) (action : Action Key) : Decidable (w.Meets action) := by
  unfold Meets
  split
  · split <;> infer_instance
  · infer_instance

/-- The live connection is of a run that has not been stopped. -/
structure Attached (w : Server Key) : Prop where
  live : ∀ c, w.input.state.game = some c → ∃ k < w.runs, (w.receivers k).connection = some c ∧
    (w.receivers k).stopped = false ∧ w.input.state.generation = (w.receivers k).generation
  known : ∀ k c, (w.receivers k).connection = some c → c < w.input.generations.length
  distinct : ∀ j k c, (w.receivers j).connection = some c → (w.receivers k).connection = some c →
    j = k

theorem attached_start : (start : Server Key).Attached := by
  constructor <;> simp [start, World.start]

namespace Attached

variable {w w' : Server Key}

/-- A stopped run is detached. -/
theorem detached (h : w.Attached) (ho : w.Orderly) {k : ℕ} (hk : k < w.runs)
    (hstopped : (w.receivers k).stopped = true) : w.Detached k := by
  refine ⟨fun input now delivered haccepted => ?_, fun event c hc => ?_⟩
  · obtain ⟨hgame, hgeneration⟩ := World.apply_accepted haccepted
    obtain ⟨c, hc⟩ := Option.ne_none_iff_exists'.mp hgame
    obtain ⟨j, hj, -, hlive, hj'⟩ := h.live c hc
    have hjk : j = k := by
      have h1 := ho.generation j hj
      have h2 := ho.generation k hk
      omega
    rw [hjk, hstopped] at hlive
    cases hlive
  · refine World.recordsOn_step _ _ fun hgame => ?_
    obtain ⟨j, -, hconnection, hlive, -⟩ := h.live c hgame
    rw [h.distinct j k c hconnection hc, hstopped] at hlive
    cases hlive

/-- A step that keeps every connection. -/
theorem of_keeps (h : w.Attached) (hinput : w.input.Keeps w'.input) (hruns : w'.runs = w.runs)
    (hreceivers : ∀ k, (w'.receivers k).connection = (w.receivers k).connection ∧
      (w'.receivers k).generation = (w.receivers k).generation ∧
      (w'.receivers k).stopped = (w.receivers k).stopped) : w'.Attached := by
  refine ⟨fun c hc => ?_, fun k c hc => ?_, fun j k c hj hk => ?_⟩
  · obtain ⟨hc, hgeneration⟩ := hinput.live c hc
    obtain ⟨k, hk, hconnection, hstopped, heq⟩ := h.live c hc
    obtain ⟨h1, h2, h3⟩ := hreceivers k
    exact ⟨k, hruns ▸ hk, h1 ▸ hconnection, h3 ▸ hstopped, by rw [hgeneration, heq, h2]⟩
  · rw [(hreceivers k).1] at hc
    rw [hinput.generations]
    exact h.known k c hc
  · rw [(hreceivers j).1] at hj
    rw [(hreceivers k).1] at hk
    exact h.distinct j k c hj hk

/-- A step that only moves one receiver. -/
theorem of_update (h : w.Attached) {k : ℕ} {r : Receiver} (hinput : w.input.Keeps w'.input)
    (hreceivers : w'.receivers = Function.update w.receivers k r) (hruns : w'.runs = w.runs)
    (hconnection : r.connection = (w.receivers k).connection)
    (hgeneration : r.generation = (w.receivers k).generation)
    (hstopped : r.stopped = (w.receivers k).stopped) : w'.Attached := by
  refine h.of_keeps hinput hruns fun j => ?_
  rw [hreceivers]
  by_cases hjk : j = k
  · subst hjk
    rw [Function.update_self]
    exact ⟨hconnection, hgeneration, hstopped⟩
  · rw [Function.update_of_ne hjk]
    exact ⟨rfl, rfl, rfl⟩

theorem stepReceiver (h : w.Attached) (ho : w.Orderly) (k : ℕ) (event : StreamEvent)
    (hmeets : w.Meets (.receiver k event)) : (w.stepReceiver k event).Attached := by
  have hkeep := w.input.keeps_refl
  unfold Server.stepReceiver
  cases hpc : (w.receivers k).pc
  case done => exact h
  case connectGame g =>
    cases event
    case ready =>
      have hk : (w.receivers k).pc ≠ .done := by simp [hpc]
      have hlast := (ho.begun_eq hk).1
      have hstopped : (w.receivers k).stopped = false := by simpa [Meets, hpc] using hmeets
      have hnew : ∀ j, (w.receivers j).connection ≠ some w.input.generations.length := fun j hj => by
        have hlt := h.known j _ hj
        omega
      refine ⟨fun c hc => ?_, fun j c hc => ?_, fun i j c hi hj => ?_⟩
      · cases hc
        refine ⟨k, by simp only [setReceiver]; omega, ?_⟩
        simp only [setReceiver, Function.update_self, World.connectGame, if_true, true_and]
        refine ⟨hstopped, ?_⟩
        rw [ho.generation k (by omega)]
        exact ho.connect k g hpc
      · simp only [World.connectGame, if_true, List.length_append, List.length_singleton]
        by_cases hjk : j = k
        · subst hjk
          simp only [setReceiver, Function.update_self, Option.some.injEq] at hc
          omega
        · simp only [setReceiver, Function.update_of_ne hjk] at hc
          have hlt := h.known j c hc
          omega
      · by_cases hik : i = k <;> by_cases hjk : j = k
        · exact hik.trans hjk.symm
        · subst hik
          simp only [setReceiver, Function.update_self, Option.some.injEq] at hi
          simp only [setReceiver, Function.update_of_ne hjk] at hj
          exact absurd (hi ▸ hj) (hnew j)
        · subst hjk
          simp only [setReceiver, Function.update_self, Option.some.injEq] at hj
          simp only [setReceiver, Function.update_of_ne hik] at hi
          exact absurd (hj ▸ hi) (hnew i)
        · simp only [setReceiver, Function.update_of_ne hik] at hi
          simp only [setReceiver, Function.update_of_ne hjk] at hj
          exact h.distinct i j c hi hj
    case failed => exact h.of_update hkeep rfl rfl rfl rfl rfl
    all_goals exact h
  case disconnectGame => exact h.of_update w.input.keeps_disconnectGame rfl rfl rfl rfl rfl
  case readFrame =>
    cases event
    case frame frame =>
      simp only
      split <;> exact h.of_update hkeep rfl rfl rfl rfl rfl
    all_goals first
      | exact h
      | exact h.of_update hkeep rfl rfl rfl rfl rfl
  case accept wasReaped =>
    cases event <;> first
      | exact h
      | exact h.of_update hkeep rfl rfl rfl rfl rfl
  case configure =>
    cases event <;> first
      | exact h
      | exact h.of_update hkeep rfl rfl rfl rfl rfl
  all_goals exact h.of_update hkeep rfl rfl rfl rfl rfl

theorem stepSession (h : w.Attached) (child : ChildStatus) : (w.stepSession child).Attached := by
  have hkeep := w.input.keeps_refl
  have hsame : ∀ k, (w.receivers k).connection = (w.receivers k).connection ∧
      (w.receivers k).generation = (w.receivers k).generation ∧
      (w.receivers k).stopped = (w.receivers k).stopped := fun k => ⟨rfl, rfl, rfl⟩
  unfold Server.stepSession
  cases hs : w.session <;> simp only
  case idle => exact h
  case beginRun => exact h.of_keeps hkeep rfl hsame
  case spawnReceiver =>
    have hold : ∀ j c, (Function.update w.receivers w.runs
        ⟨.loadReaped, false, 0, w.frames.generation, none, false⟩ j).connection = some c →
        (w.receivers j).connection = some c := fun j c hc => by
      by_cases hj : j = w.runs
      · subst hj
        simp at hc
      · rwa [Function.update_of_ne hj] at hc
    refine ⟨fun c hc => ?_, fun j c hc => h.known j c (hold j c hc),
      fun i j c hi hj => h.distinct i j c (hold i c hi) (hold j c hj)⟩
    obtain ⟨k, hk, hlive⟩ := h.live c hc
    refine ⟨k, Nat.lt_succ_of_lt hk, ?_⟩
    simp only [Function.update_of_ne hk.ne]
    exact hlive
  case disconnectGame run =>
    have hconnection : ∀ j, (Function.update w.receivers run
        { w.receivers run with stopped := true } j).connection = (w.receivers j).connection :=
      fun j => by
        by_cases hj : j = run
        · subst hj
          rw [Function.update_self]
        · rw [Function.update_of_ne hj]
    refine ⟨fun c hc => (nomatch hc), fun j c hc => ?_, fun i j c hi hj => ?_⟩
    · exact h.known j c (hconnection j ▸ hc)
    · exact h.distinct i j c (hconnection i ▸ hi) (hconnection j ▸ hj)
  case reap | terminate => exact h.of_update hkeep rfl rfl rfl rfl rfl
  case tryWait run =>
    cases child
    case running => exact h
    all_goals exact h.of_keeps hkeep rfl hsame
  case join run =>
    split
    · exact h.of_keeps hkeep rfl hsame
    · exact h

theorem step (h : w.Attached) (ho : w.Orderly) {action : Action Key} (hmeets : w.Meets action) :
    (w.step action).Attached := by
  have hkeep := w.input.keeps_refl
  have hsame : ∀ k, (w.receivers k).connection = (w.receivers k).connection ∧
      (w.receivers k).generation = (w.receivers k).generation ∧
      (w.receivers k).stopped = (w.receivers k).stopped := fun k => ⟨rfl, rfl, rfl⟩
  cases action <;> simp only [Server.step]
  case session child => exact h.stepSession child
  case receiver k event => exact h.stepReceiver ho k event hmeets
  case apply input generation now delivered =>
    exact h.of_keeps (w.input.keeps_apply input generation now delivered) rfl hsame
  case expireLease now delivered =>
    exact h.of_keeps (w.input.keeps_expireLease now delivered) rfl hsame
  case releaseAndDisconnect delivered =>
    exact h.of_keeps (w.input.keeps_releaseAndDisconnect delivered) rfl hsame
  case launch | stopGame | drop =>
    split
    · exact h.of_keeps hkeep rfl hsame
    · exact h
  case poll client timedOut delivered =>
    unfold Server.poll
    split
    · exact h
    · split
      · split
        · exact h.of_keeps hkeep rfl hsame
        · exact h
      · exact h
  all_goals exact h.of_keeps hkeep rfl hsame

end Attached

/-- Stopping a game is a boundary for its input, in every run where no receiver connects a game
that has been stopped : once `stop_game` has disconnected the input, no request for the run is
accepted and nothing is written to its connection. -/
theorem stop_is_boundary (actions : List (Action Key))
    (hmeets : StepsMeet Server.step Server.Meets start actions) :
    ∀ k < (run actions).runs, ((run actions).receivers k).stopped = true →
      (run actions).Detached k := by
  have h : (run actions).Orderly ∧ (run actions).Attached := by
    refine foldl_invariant_of_stepsMeet (P := fun w => w.Orderly ∧ w.Attached)
      ⟨orderly_start, attached_start⟩ (fun w action h hmeets => ?_) hmeets
    exact ⟨h.1.step action, h.2.step h.1 hmeets⟩
  exact fun k => h.2.detached h.1

/-- A game that connects before it is stopped. -/
theorem stop_is_boundary_sample :
    ((run (Sample.launch ++ Sample.accept ++ Sample.connect ++ Sample.stop)).receivers 0).stopped =
      true ∧ (run (Sample.launch ++ Sample.accept ++ Sample.connect ++ Sample.stop)).Detached 0 :=
  ⟨by decide, stop_is_boundary _ (by decide) 0 (by decide) (by decide)⟩

/-! ## Frame delivery -/

/-- The last native sequence number of every run, added up. -/
def nativeSum (w : Server Key) : ℕ := ∑ k ∈ Finset.range w.runs, (w.receivers k).lastSequence

theorem nativeSum_congr {w w' : Server Key} (hruns : w'.runs = w.runs)
    (hlast : ∀ k, (w'.receivers k).lastSequence = (w.receivers k).lastSequence) :
    w'.nativeSum = w.nativeSum := by
  rw [nativeSum, nativeSum, hruns]
  exact Finset.sum_congr rfl fun k _ => hlast k

theorem le_nativeSum {w w' : Server Key} (hruns : w'.runs = w.runs)
    (hlast : ∀ k, (w'.receivers k).lastSequence = (w.receivers k).lastSequence) :
    w.nativeSum ≤ w'.nativeSum := (nativeSum_congr hruns hlast).ge

theorem nativeSum_update {w w' : Server Key} {k : ℕ} {r : Receiver} (hk : k < w.runs)
    (hruns : w'.runs = w.runs) (hreceivers : w'.receivers = Function.update w.receivers k r) :
    w'.nativeSum + (w.receivers k).lastSequence = w.nativeSum + r.lastSequence := by
  have hmem : k ∈ Finset.range w.runs := Finset.mem_range.mpr hk
  have hrest : ∑ j ∈ (Finset.range w.runs).erase k, (w'.receivers j).lastSequence =
      ∑ j ∈ (Finset.range w.runs).erase k, (w.receivers j).lastSequence := by
    refine Finset.sum_congr rfl fun j hj => ?_
    rw [hreceivers, Function.update_of_ne (Finset.ne_of_mem_erase hj)]
  rw [nativeSum, nativeSum, hruns, ← Finset.add_sum_erase _ _ hmem, hrest,
    ← Finset.add_sum_erase _ (fun j => (w.receivers j).lastSequence) hmem, hreceivers,
    Function.update_self]
  omega

theorem lastSequence_update {receivers : ℕ → Receiver} {k : ℕ} {r : Receiver}
    (hr : r.lastSequence = (receivers k).lastSequence) (j : ℕ) :
    (Function.update receivers k r j).lastSequence = (receivers j).lastSequence := by
  by_cases hjk : j = k
  · subst hjk
    rw [Function.update_self, hr]
  · rw [Function.update_of_ne hjk]

/-- The offset of the last run and its own last number make the last number published. -/
structure Numbered (w : Server Key) : Prop where
  sum : w.nativeSum = w.frames.sequence
  offset : ∀ k, w.owned = some k →
    w.frames.deliveryOffset + (w.receivers k).lastSequence = w.frames.sequence
  spawning : w.session = .spawnReceiver → w.frames.deliveryOffset = w.frames.sequence

/-- Published numbers increase up to the last one, and the last frame stays available until it
is cleared. -/
structure Visible (w : Server Key) : Prop where
  increasing : (w.published.map (·.frame.sequence)).Pairwise (· < ·)
  bounded : ∀ p ∈ w.published, 0 < p.frame.sequence ∧ p.frame.sequence ≤ w.frames.sequence
  current : ∀ p ∈ w.published, p.generation = p.begun
  newest : ∀ p, w.published.getLast? = some p → p.frame.sequence = w.frames.sequence
  latest : w.frames.latest = if w.cleared then none else w.published.getLast?.map (·.frame)

/-- A client holds the last number that it received. -/
structure Received (w : Server Key) : Prop where
  published : ∀ client s, (client, s) ∈ w.received → s ∈ w.published.map (·.frame.sequence)
  past : ∀ client s, (client, s) ∈ w.received → s ≤ w.clients client
  last : ∀ client, w.clients client = 0 ∨ (client, w.clients client) ∈ w.received

variable {w w' : Server Key}

theorem Numbered.of_same (h : w.Numbered) (hruns : w'.runs = w.runs)
    (hlast : ∀ k, (w'.receivers k).lastSequence = (w.receivers k).lastSequence)
    (howned : ∀ k, w'.owned = some k → w.owned = some k)
    (hspawn : w'.session = .spawnReceiver → w.session = .spawnReceiver)
    (hsequence : w'.frames.sequence = w.frames.sequence)
    (hoffset : w'.frames.deliveryOffset = w.frames.deliveryOffset) : w'.Numbered := by
  refine ⟨?_, fun k hk => ?_, fun hs => ?_⟩
  · rw [nativeSum_congr hruns hlast, hsequence, h.sum]
  · rw [hoffset, hsequence, hlast, h.offset k (howned k hk)]
  · rw [hoffset, hsequence, h.spawning (hspawn hs)]

theorem Visible.of_same (h : w.Visible) (hsequence : w'.frames.sequence = w.frames.sequence)
    (hpublished : w'.published = w.published)
    (hlatest : w'.frames.latest = if w'.cleared then none else w.published.getLast?.map (·.frame)) :
    w'.Visible := by
  refine ⟨?_, ?_, ?_, ?_, ?_⟩
  · rw [hpublished]
    exact h.increasing
  · rw [hpublished, hsequence]
    exact h.bounded
  · rw [hpublished]
    exact h.current
  · rw [hpublished, hsequence]
    exact h.newest
  · rw [hpublished]
    exact hlatest

theorem Received.of_same (h : w.Received) (hpublished : w.published <+: w'.published)
    (hclients : w'.clients = w.clients) (hreceived : w'.received = w.received) : w'.Received := by
  refine ⟨fun client s hs => ?_, ?_, ?_⟩
  · obtain ⟨p, hp, rfl⟩ := List.mem_map.mp (h.published client s (hreceived ▸ hs))
    exact List.mem_map_of_mem (hpublished.subset hp)
  · rw [hreceived, hclients]
    exact h.past
  · rw [hreceived, hclients]
    exact h.last

/-- The delivered frames, as long as `u64` sequence numbers do not overflow. -/
structure Delivered (w : Server Key) : Prop where
  numbered : w.Numbered
  visible : w.Visible
  received : w.Received

theorem delivered_start : (start : Server Key).Delivered := by
  refine ⟨⟨?_, ?_, ?_⟩, ⟨?_, ?_, ?_, ?_, ?_⟩, ⟨?_, ?_, ?_⟩⟩ <;>
    simp [start, nativeSum, FrameState.start, Server.owned]

namespace Delivered

/-- A step that neither publishes nor clears nor delivers a frame. -/
theorem of_same (h : w.Delivered) (hruns : w'.runs = w.runs)
    (hlast : ∀ k, (w'.receivers k).lastSequence = (w.receivers k).lastSequence)
    (howned : ∀ k, w'.owned = some k → w.owned = some k)
    (hspawn : w'.session = .spawnReceiver → w.session = .spawnReceiver)
    (hsequence : w'.frames.sequence = w.frames.sequence)
    (hoffset : w'.frames.deliveryOffset = w.frames.deliveryOffset)
    (hlatest : w'.frames.latest = w.frames.latest) (hcleared : w'.cleared = w.cleared)
    (hpublished : w'.published = w.published) (hclients : w'.clients = w.clients)
    (hreceived : w'.received = w.received) : w'.Delivered := by
  refine ⟨h.numbered.of_same hruns hlast howned hspawn hsequence hoffset,
    h.visible.of_same hsequence hpublished ?_, h.received.of_same ?_ hclients hreceived⟩
  · rw [hlatest, hcleared]
    exact h.visible.latest
  · rw [hpublished]

/-- A receiver that moves without publishing. -/
theorem of_update (h : w.Delivered) {k : ℕ} {r : Receiver}
    (hreceivers : w'.receivers = Function.update w.receivers k r)
    (hlast : r.lastSequence = (w.receivers k).lastSequence) (hruns : w'.runs = w.runs)
    (howned : ∀ k, w'.owned = some k → w.owned = some k)
    (hspawn : w'.session = .spawnReceiver → w.session = .spawnReceiver)
    (hsequence : w'.frames.sequence = w.frames.sequence)
    (hoffset : w'.frames.deliveryOffset = w.frames.deliveryOffset)
    (hlatest : w'.frames.latest = w.frames.latest) (hcleared : w'.cleared = w.cleared)
    (hpublished : w'.published = w.published) (hclients : w'.clients = w.clients)
    (hreceived : w'.received = w.received) : w'.Delivered :=
  h.of_same hruns (fun j => hreceivers ▸ lastSequence_update hlast j) howned hspawn hsequence hoffset
    hlatest hcleared hpublished hclients hreceived

/-- A native frame with a greater number than its run's last one is published with a greater
number than any before. -/
theorem publish (h : w.Delivered) (ho : w.Orderly) {k : ℕ} (hk : (w.receivers k).pc ≠ .done)
    {frame : Frame} (hframe : (w.receivers k).lastSequence < frame.sequence) {r : Receiver}
    (hreceivers : w'.receivers = Function.update w.receivers k r)
    (hr : r.lastSequence = frame.sequence)
    (hframes : w'.frames = w.frames.publish frame) (hcleared : w'.cleared = false)
    (hpublished : w'.published = w.published ++
      [⟨{ frame with sequence := (w.frames.publish frame).sequence },
        (w.receivers k).generation, w.frames.generation⟩])
    (hruns : w'.runs = w.runs) (hgame : w'.game = w.game) (hsession : w'.session = w.session)
    (hclients : w'.clients = w.clients) (hreceived : w'.received = w.received)
    (hsum : w'.nativeSum < 2 ^ 64) : w'.Delivered := by
  obtain ⟨hlast, hbegun⟩ := ho.begun_eq hk
  have howned := ho.owned k hk
  have hoffset := h.numbered.offset k howned
  have hown : w'.owned = w.owned := by simp only [Server.owned, hsession, hgame]
  have hupdate := nativeSum_update (by omega) hruns hreceivers
  have htotal := h.numbered.sum
  rw [hr] at hupdate
  -- so the sum is the new number, which does not overflow
  have hsequence : (w.frames.publish frame).sequence = frame.sequence + w.frames.deliveryOffset :=
    Nat.mod_eq_of_lt (by omega)
  have hgreater : w.frames.sequence < (w.frames.publish frame).sequence := by omega
  refine ⟨⟨?_, fun j hj => ?_, fun hs => ?_⟩, ⟨?_, fun p hp => ?_, fun p hp => ?_, fun p hp => ?_, ?_⟩,
    h.received.of_same (hpublished ▸ List.prefix_append _ _) hclients hreceived⟩
  · rw [hframes]
    omega
  · obtain rfl : k = j := Option.some.inj (howned.symm.trans (hown ▸ hj))
    rw [hframes, hsequence, hreceivers, Function.update_self, hr]
    exact Nat.add_comm _ _
  · rw [hsession] at hs
    simp [Server.owned, hs] at howned
  · rw [hpublished, List.map_append, List.pairwise_append]
    refine ⟨h.visible.increasing, by simp, fun a ha b hb => ?_⟩
    obtain ⟨p, hp, rfl⟩ := List.mem_map.mp ha
    simp only [List.map_cons, List.map_nil, List.mem_singleton] at hb
    have hbounded := (h.visible.bounded p hp).2
    omega
  · rw [hframes]
    rw [hpublished] at hp
    rcases List.mem_append.mp hp with hp | hp
    · have hbounded := h.visible.bounded p hp
      omega
    · rw [List.mem_singleton.mp hp]
      exact ⟨by change 0 < (w.frames.publish frame).sequence; omega, le_refl _⟩
  · rw [hpublished] at hp
    rcases List.mem_append.mp hp with hp | hp
    · exact h.visible.current p hp
    · rw [List.mem_singleton.mp hp]
      exact (ho.generation k (by omega)).trans hbegun.symm
  · rw [hpublished, List.getLast?_concat, Option.some.injEq] at hp
    rw [← hp, hframes]
  · rw [hframes, hcleared, hpublished, List.getLast?_concat]
    rfl

theorem stepReceiver (h : w.Delivered) (ho : w.Orderly) (k : ℕ) (event : StreamEvent)
    (hsum : (w.stepReceiver k event).nativeSum < 2 ^ 64) : (w.stepReceiver k event).Delivered := by
  have hset : ∀ pc, (w.setPc k pc).Delivered := fun pc =>
    h.of_update rfl rfl rfl (fun _ hj => hj) id rfl rfl rfl rfl rfl rfl rfl
  unfold Server.stepReceiver at hsum ⊢
  cases hpc : (w.receivers k).pc <;> simp only [hpc] at hsum ⊢
  case readFrame =>
    have hk : (w.receivers k).pc ≠ .done := by simp [hpc]
    cases event
    case frame frame =>
      simp only at hsum ⊢
      by_cases hle : frame.sequence ≤ (w.receivers k).lastSequence
      · rw [if_pos hle]
        exact hset _
      · rw [if_neg hle] at hsum ⊢
        exact h.publish ho hk (not_le.mp hle) rfl rfl rfl rfl rfl rfl rfl rfl rfl rfl hsum
    all_goals first
      | exact h
      | exact hset _
  case connectGame g =>
    cases event <;> first
      | exact h
      | exact h.of_update rfl rfl rfl (fun _ hj => hj) id rfl rfl rfl rfl rfl rfl rfl
  case accept | configure =>
    cases event <;> first
      | exact h
      | exact hset _
  case done => exact h
  case loadReaped | generation => exact hset _
  case disconnectGame | stopFrames =>
    exact h.of_update rfl rfl rfl (fun _ hj => hj) id rfl rfl rfl rfl rfl rfl rfl

theorem stepSession (h : w.Delivered) (ho : w.Orderly) (child : ChildStatus) :
    (w.stepSession child).Delivered := by
  unfold Server.stepSession
  cases hs : w.session <;> simp only
  case idle => exact h
  case beginRun =>
    exact ⟨⟨h.numbered.sum, nofun, fun _ => rfl⟩, h.visible.of_same rfl rfl rfl,
      h.received.of_same (List.prefix_refl _) rfl rfl⟩
  case spawnReceiver =>
    have hspawning := h.numbered.spawning hs
    refine ⟨⟨?_, fun k hk => ?_, nofun⟩, h.visible.of_same rfl rfl h.visible.latest,
      h.received.of_same (List.prefix_refl _) rfl rfl⟩
    · rw [← h.numbered.sum, nativeSum, nativeSum, Finset.sum_range_succ]
      simp only [Function.update_self, Nat.add_zero]
      refine Finset.sum_congr rfl fun k hk => ?_
      rw [Function.update_of_ne (Finset.mem_range.mp hk).ne]
    · cases hk
      simpa using hspawning
  case disconnectGame run | reap run | terminate run =>
    refine h.of_update rfl rfl rfl (fun k hk => ?_) nofun rfl rfl rfl rfl rfl rfl rfl
    simpa [Server.owned, hs] using hk
  case tryWait run =>
    cases child
    case running => exact h
    all_goals
      refine h.of_same rfl (fun _ => rfl) (fun k hk => ?_) nofun rfl rfl rfl rfl rfl rfl rfl
      simpa [Server.owned, hs] using hk
  case join run =>
    have hgame := ho.taken (by simp [hs])
    split
    · refine h.of_same rfl (fun _ => rfl) (fun k hk => ?_) nofun rfl rfl rfl rfl rfl rfl rfl
      simp [Server.owned, hgame] at hk
    · exact h

theorem poll (h : w.Delivered) (client : String) (timedOut delivered : Bool) :
    (w.poll client timedOut delivered).Delivered := by
  unfold Server.poll
  split
  · exact h
  split
  case h_2 => exact h
  next frame hframe =>
  split
  case isFalse => exact h
  obtain ⟨hlatest, hafter⟩ := Option.filter_eq_some_iff.mp hframe
  have hafter : w.clients client < frame.sequence := by simpa using hafter
  have hlast := h.visible.latest
  rw [hlatest] at hlast
  split at hlast
  · cases hlast
  obtain ⟨p, hp, hpframe⟩ := Option.map_eq_some_iff.mp hlast.symm
  refine ⟨h.numbered.of_same rfl (fun _ => rfl) (fun _ hk => hk) id rfl rfl,
    h.visible.of_same rfl rfl h.visible.latest, fun c s hs => ?_, fun c s hs => ?_, fun c => ?_⟩
  · rcases List.mem_append.mp hs with hs | hs
    · exact h.received.published c s hs
    · obtain ⟨-, rfl⟩ := Prod.mk.inj (List.mem_singleton.mp hs)
      exact hpframe ▸ List.mem_map_of_mem (List.mem_of_getLast? hp)
  · by_cases hc : c = client
    · subst hc
      simp only [Function.update_self]
      rcases List.mem_append.mp hs with hs | hs
      · have hpast := h.received.past c s hs
        omega
      · rw [(Prod.mk.inj (List.mem_singleton.mp hs)).2]
    · simp only [Function.update_of_ne hc]
      rcases List.mem_append.mp hs with hs | hs
      · exact h.received.past c s hs
      · exact absurd (Prod.mk.inj (List.mem_singleton.mp hs)).1 hc
  · by_cases hc : c = client
    · subst hc
      simp
    · simp only [Function.update_of_ne hc]
      exact (h.received.last c).imp_right fun hmem => List.mem_append_left _ hmem

theorem step (h : w.Delivered) (ho : w.Orderly) {action : Action Key}
    (hsum : (w.step action).nativeSum < 2 ^ 64) : (w.step action).Delivered := by
  cases action <;> simp only [Server.step] at hsum ⊢
  case session child => exact h.stepSession ho child
  case receiver k event => exact h.stepReceiver ho k event hsum
  case poll client timedOut delivered => exact h.poll client timedOut delivered
  case launch spawned =>
    split
    · exact h.of_same rfl (fun _ => rfl) nofun nofun rfl rfl rfl rfl rfl rfl rfl
    · exact h
  case stopGame | drop =>
    split
    · next hs hgame =>
      refine h.of_same rfl (fun _ => rfl) (fun k hk => ?_) nofun rfl rfl rfl rfl rfl rfl rfl
      simpa [Server.owned, hs, hgame] using hk
    · exact h
  case setState status =>
    refine ⟨h.numbered.of_same rfl (fun _ => rfl) (fun _ hk => hk) id ?_ ?_,
      h.visible.of_same ?_ rfl ?_, h.received.of_same (List.prefix_refl _) rfl rfl⟩
    case refine_4 =>
      have hlatest := h.visible.latest
      cases status <;> simp [FrameState.setState, hlatest]
    all_goals cases status <;> rfl
  all_goals exact h.of_same rfl (fun _ => rfl) (fun _ hk => hk) id rfl rfl rfl rfl rfl rfl rfl

end Delivered

theorem nativeSum_le_stepReceiver (w : Server Key) (ho : w.Orderly) (k : ℕ) (event : StreamEvent) :
    w.nativeSum ≤ (w.stepReceiver k event).nativeSum := by
  have hset : ∀ pc, w.nativeSum ≤ (w.setPc k pc).nativeSum := fun pc =>
    le_nativeSum rfl (lastSequence_update rfl)
  unfold Server.stepReceiver
  cases hpc : (w.receivers k).pc <;> simp only
  case readFrame =>
    have hk : (w.receivers k).pc ≠ .done := by simp [hpc]
    have hlast := (ho.begun_eq hk).1
    cases event <;> simp only
    case frame frame =>
      split
      · exact hset _
      · next hle =>
        let r := { w.receivers k with lastSequence := frame.sequence }
        have hupdate : (w.setReceiver k r).nativeSum + (w.receivers k).lastSequence =
            w.nativeSum + r.lastSequence :=
          nativeSum_update (r := r) (by omega) rfl rfl
        have hr : r.lastSequence = frame.sequence := rfl
        have hle : w.nativeSum ≤ (w.setReceiver k r).nativeSum := by omega
        exact hle.trans (le_nativeSum rfl fun _ => rfl)
    all_goals first
      | exact le_refl _
      | exact hset _
  case connectGame g =>
    cases event <;> first
      | exact le_refl _
      | exact le_nativeSum rfl (lastSequence_update rfl)
  case accept | configure =>
    cases event <;> first
      | exact le_refl _
      | exact hset _
  case done => exact le_refl _
  case loadReaped | generation => exact hset _
  case disconnectGame | stopFrames => exact le_nativeSum rfl (lastSequence_update rfl)

theorem nativeSum_le_step (w : Server Key) (ho : w.Orderly) (action : Action Key) :
    w.nativeSum ≤ (w.step action).nativeSum := by
  cases action <;> simp only [Server.step]
  case receiver k event => exact w.nativeSum_le_stepReceiver ho k event
  case session child =>
    unfold Server.stepSession
    cases hs : w.session <;> simp only
    case spawnReceiver =>
      rw [nativeSum, nativeSum, Finset.sum_range_succ]
      refine le_trans (le_of_eq (Finset.sum_congr rfl fun k hk => ?_)) (Nat.le_add_right _ _)
      simp only [Function.update_of_ne (Finset.mem_range.mp hk).ne]
    case disconnectGame | reap | terminate => exact le_nativeSum rfl (lastSequence_update rfl)
    case tryWait => cases child <;> exact le_nativeSum rfl fun _ => rfl
    case join run => split <;> exact le_nativeSum rfl fun _ => rfl
    all_goals exact le_nativeSum rfl fun _ => rfl
  case poll client timedOut delivered =>
    unfold Server.poll
    split
    · exact le_refl _
    · split
      · split <;> exact le_nativeSum rfl fun _ => rfl
      · exact le_refl _
  case launch | stopGame | drop => split <;> exact le_nativeSum rfl fun _ => rfl
  all_goals exact le_nativeSum rfl fun _ => rfl

/-- With the sums of native sequence numbers below `2 ^ 64`, every state is delivered right. -/
theorem delivered_run (actions : List (Action Key)) (hsum : (run actions).nativeSum < 2 ^ 64) :
    (run actions).Delivered := by
  have h : (run actions).Orderly ∧ ((run actions).nativeSum < 2 ^ 64 → (run actions).Delivered) := by
    refine foldl_invariant (P := fun w : Server Key =>
      w.Orderly ∧ (w.nativeSum < 2 ^ 64 → w.Delivered))
      ⟨orderly_start, fun _ => delivered_start⟩ (fun w action h => ?_) actions
    refine ⟨h.1.step action, fun hsum => ?_⟩
    exact (h.2 (lt_of_le_of_lt (w.nativeSum_le_step h.1 action) hsum)).step h.1 hsum
  exact h.2 hsum

/-- Frame delivery is monotonic across restarts, while the sums of native sequence numbers stay
below `2 ^ 64`. Published sequence numbers increase; every frame is published before the next
run begins; a poll never returns a number that its client has received, or an older one; and
until a new run or a build clears it, a poll returns the last published frame to a client that
has not received it. -/
theorem delivery_is_monotonic (actions : List (Action Key))
    (hsum : (run actions).nativeSum < 2 ^ 64) :
    ((run actions).published.map (·.frame.sequence)).Pairwise (· < ·) ∧
    (∀ p ∈ (run actions).published, p.generation = p.begun) ∧
    (∀ client frame,
      ((run actions).frames.waitAfter ((run actions).clients client)).frame = some frame →
      ∀ s, (client, s) ∈ (run actions).received → s < frame.sequence) ∧
    ∀ client p, (run actions).published.getLast? = some p → (run actions).cleared = false →
      (client, p.frame.sequence) ∉ (run actions).received →
      (run actions).frames.waits ((run actions).clients client) = false ∧
      ((run actions).frames.waitAfter ((run actions).clients client)).frame = some p.frame := by
  obtain ⟨-, hvisible, hreceived⟩ := delivered_run actions hsum
  refine ⟨hvisible.increasing, hvisible.current, fun client frame hframe s hs => ?_,
    fun client p hp hcleared hnew => ?_⟩
  · have hpast := hreceived.past client s hs
    have hafter := (Option.filter_eq_some_iff.mp hframe).2
    simp only [decide_eq_true_eq] at hafter
    omega
  · have hlatest := hvisible.latest
    rw [hcleared, hp] at hlatest
    have hafter : (run actions).clients client < p.frame.sequence := by
      rcases hreceived.last client with hzero | hmem
      · have hpositive := (hvisible.bounded p (List.mem_of_getLast? hp)).1
        omega
      · obtain ⟨q, hq, hqs⟩ := List.mem_map.mp (hreceived.published client _ hmem)
        have hbounded := (hvisible.bounded q hq).2
        have hnewest := hvisible.newest p hp
        have hne : (run actions).clients client ≠ p.frame.sequence := fun heq => hnew (heq ▸ hmem)
        omega
    have hlatest : (run actions).frames.latest = some p.frame := hlatest
    constructor
    · simp [FrameState.waits, hlatest, hafter]
    · simp [FrameState.waitAfter, hlatest, Option.filter, hafter]

namespace Sample

def frame : Frame := ⟨1, (320, 240), []⟩

/-- A run that publishes one frame, to a viewer that polls. -/
def deliver : List (Action Bool) :=
  launch ++ accept ++ connect ++ [.receiver 0 (.frame frame), .poll "viewer" false true]

/-- The run is stopped and its receiver joined. -/
def restart : List (Action Bool) :=
  stop ++ [.session .exited, .session .exited, .receiver 0 .closed, .receiver 0 .closed,
    .receiver 0 .closed, .session .exited] ++ launch ++
    [.receiver 1 .ready, .receiver 1 .ready, .receiver 1 .ready, .receiver 1 .ready,
      .receiver 1 .ready, .receiver 1 (.frame frame)]

end Sample

/-- The first frame of the second run is the second frame of the server. -/
theorem delivery_is_monotonic_sample :
    (run (Sample.deliver ++ Sample.restart)).published.map (·.frame.sequence) = [1, 2] ∧
    ((run (Sample.deliver ++ Sample.restart)).published.map (·.frame.sequence)).Pairwise (· < ·) :=
  ⟨by decide, (delivery_is_monotonic _ (by decide)).1⟩

end Server

end Speck
