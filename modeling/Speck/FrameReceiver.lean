import Speck.FrameProgress
import Speck.Runs

/-!
# The receiver of one game

`receive_frames` of `dev/server.rs` against one game process and its reaper. The receiver polls
for the game's connection and then reads its frames, with a timeout on each read (`GameStream`);
both loops look at the flag `reaped` before each attempt. The game connects, sends its frames in
pieces of any size and exits, at any point of a frame. The reaper waits for the exit and then sets
the flag. A step is one access of one of them; `Outcome` is what a socket answers.

Without any assumption, a timeout ends the run only after the game was reaped, and no silence of a
live game does. Where the connection is queued before the exit is waited on, and reads that start
after the reaping do not time out (`Meets`), every frame that the game sent completely is published
once, in order, before the receiver stops (`receiver_drains`).
-/

namespace Speck.FrameReceiver

open FrameProtocol

/-! ## The game -/

/-- The frames that a game sends : whole, and numbered in increasing order. -/
structure Game where
  frames : List Frame
  whole : ∀ frame ∈ frames, frame.pixels.length = frame.resolution.payloadBytes
  numbered : ∀ frame ∈ frames, 0 < frame.sequence
  increasing : frames.Pairwise fun earlier later => earlier.sequence < later.sequence

/-- The bytes of some frames. -/
def stream (frames : List Frame) : List UInt8 := (frames.map Frame.bytes).flatten

/-- The frames that are complete in the first bytes of their stream. -/
def completed : List Frame → ℕ → List Frame
  | [], _ => []
  | frame :: frames, length =>
    if frame.bytes.length ≤ length then frame :: completed frames (length - frame.bytes.length)
    else []

/-! ## The receiver -/

/-- The calls that prepare the stream of an accepted game. -/
inductive Setup where
  | blockingMode
  | polling
  | clone
  | inputTimeout
  deriving DecidableEq

namespace Setup

def failure : Setup → String → String
  | blockingMode, error => s!"could not configure frame stream blocking mode: {error}"
  | polling, error => s!"could not configure frame stream polling: {error}"
  | clone, error => s!"could not clone game stream for input: {error}"
  | inputTimeout, error => s!"could not configure input control timeout: {error}"

def next : Setup → Option Setup
  | blockingMode => some polling
  | polling => some clone
  | clone => some inputTimeout
  | inputTimeout => none

end Setup

/-- Where the receiver is : before the access it is named after. -/
inductive Pc where
  | loadReaped
  | accept (wasReaped : Bool)
  | setup (call : Setup)
  | readLoadReaped
  | read (reaped : Bool)
  -- in the read of the stream; `late` is whether the game was reaped when it started
  | reading (reaped late : Bool)
  | stopped (result : Except String Unit)

/-- What the receiver has seen of the flag holds. -/
def Pc.Knows (reaped : Bool) : Pc → Prop
  | .accept wasReaped => wasReaped = true → reaped = true
  | .read seen => seen = true → reaped = true
  | .reading seen late => (seen = true → late = true) ∧ (late = true → reaped = true)
  | _ => True

/-- The receiver has accepted the game, and goes on. -/
def Pc.Reads : Pc → Prop
  | .setup _ | .readLoadReaped | .read _ | .reading _ _ => True
  | _ => False

/-- What a socket answers. The clock is read when a silence is noted and when it is measured. -/
inductive Outcome where
  | ready
  | silent (since now : ℕ)
  | bytes (count : ℕ)
  | interrupted
  | closed
  | failed (error : ReadError)

/-- `REAPED_GAME_GRACE`, in milliseconds. -/
def reapedGameGrace : ℕ := 2000

def timedOut : ReadError :=
  ⟨.other, "frame connection stayed open after the development game exited"⟩

/-- A step of the game, of the network, of the reaper or of the receiver. -/
inductive Action where
  | connect
  | send (count : ℕ)
  | close
  | exit
  | arrive
  | wait
  | reap
  | receiver (outcome : Outcome)

structure World where
  -- the game
  connected : Bool
  sent : List UInt8
  closed : Bool
  exited : Bool
  -- its connection waits at the listener
  arrived : Bool
  -- its reaper
  waited : Bool
  reaped : Bool
  -- the receiver
  pc : Pc
  progress : Progress
  silentSinceReap : Option ℕ
  lastSequence : BitVec 64
  -- ghost state
  accepted : Bool
  taken : List UInt8
  published : List Frame
  timeout : Bool

namespace World

def start : World where
  connected := false
  sent := []
  closed := false
  exited := false
  arrived := false
  waited := false
  reaped := false
  pc := .loadReaped
  progress := .firstByte
  silentSinceReap := none
  lastSequence := 0
  accepted := false
  taken := []
  published := []
  timeout := false

def setPc (w : World) (pc : Pc) : World := { w with pc }

def stop (w : World) (result : Except String Unit) : World := w.setPc (.stopped result)

/-- The loop of `receive_frames` over the result of `read_frame`. -/
def receive (w : World) : Except String (Option Frame) → World
  | .error error => w.stop (.error s!"invalid native frame stream: {error}")
  | .ok none => w.stop (.ok ())
  | .ok (some frame) =>
    if frame.sequence ≤ w.lastSequence then
      let sequence := frame.sequence.toNat
      let last := w.lastSequence.toNat
      w.stop (.error s!"invalid native frame sequence {sequence}; previous frame was {last}")
    else
      { w with
        pc := .readLoadReaped
        progress := .firstByte
        lastSequence := frame.sequence
        published := w.published ++ [frame] }

/-- `read_frame` with the bytes of one more read. -/
def feed (w : World) (bytes : List UInt8) : World :=
  let w' := { w with taken := w.taken ++ bytes }
  match w.progress.feed bytes with
  | .error error => w'.receive (.error error)
  | .ok (.inl progress) => { w' with pc := .readLoadReaped, progress }
  | .ok (.inr frame) => w'.receive (.ok (some frame))

/-- `GameStream::read` after a read that timed out. -/
def silence (w : World) (reaped : Bool) (since now : ℕ) : World :=
  if reaped then
    let since := w.silentSinceReap.getD since
    if reapedGameGrace ≤ now - since then
      { w with silentSinceReap := some since, timeout := true }.receive (w.progress.failed timedOut)
    else { w with silentSinceReap := some since, pc := .readLoadReaped }
  else w.setPc .readLoadReaped

/-- The bytes that one read may take. -/
def available (w : World) (count : ℕ) : List UInt8 :=
  (w.sent.drop w.taken.length).take (min count w.progress.wanted)

/-- The next access of the receiver. A socket does not answer what it cannot. -/
def stepReceiver (w : World) (outcome : Outcome) : World :=
  match w.pc with
  | .loadReaped => w.setPc (.accept w.reaped)
  | .accept wasReaped =>
    match outcome with
    | .ready =>
      if w.arrived then { w with pc := .setup .blockingMode, accepted := true } else w
    -- a short game can exit before the receiver first accepts
    | .silent _ _ =>
      if w.arrived then w
      else if wasReaped then w.stop (.ok ())
      else w.setPc .loadReaped
    | .failed error =>
      let text := error.text
      w.stop (.error s!"frame receiver failed before game connected: {text}")
    | .bytes _ | .interrupted | .closed => w
  | .setup call =>
    match outcome with
    | .ready =>
      match call.next with
      | some call => w.setPc (.setup call)
      | none => w.setPc .readLoadReaped
    | .failed error => w.stop (.error (call.failure error.text))
    | .silent _ _ | .bytes _ | .interrupted | .closed => w
  | .readLoadReaped => w.setPc (.read w.reaped)
  | .read reaped => w.setPc (.reading reaped w.reaped)
  | .reading reaped _ =>
    match outcome with
    | .silent since now => w.silence reaped since now
    | .bytes count => if w.available count = [] then w else w.feed (w.available count)
    -- `read_frame` reads again
    | .interrupted => w.setPc .readLoadReaped
    | .closed =>
      if w.closed ∧ w.taken.length = w.sent.length then w.receive w.progress.closed else w
    | .failed error => w.receive (w.progress.failed error)
    | .ready => w
  | .stopped _ => w

/-! ## Steps -/

def step (game : Game) (w : World) : Action → World
  | .connect => if w.exited then w else { w with connected := true }
  | .send count =>
    if w.connected ∧ ¬w.closed then
      { w with sent := w.sent ++ ((stream game.frames).drop w.sent.length).take count }
    else w
  | .close => if w.connected then { w with closed := true } else w
  | .exit => { w with exited := true, closed := true }
  | .arrive => if w.connected then { w with arrived := true } else w
  | .wait => if w.exited then { w with waited := true } else w
  | .reap => if w.waited then { w with reaped := true } else w
  | .receiver outcome => w.stepReceiver outcome

def run (game : Game) (actions : List Action) : World := actions.foldl (step game) start

/-- What the system promises : a connection is queued before the exit of its game is waited on, a
read that starts after the reaping does not time out, and a socket fails only as a reset at the end
of its stream. -/
def Meets (w : World) : Action → Prop
  | .wait => w.connected = true → w.arrived = true
  | .receiver (.silent _ _) =>
    match w.pc with
    | .reading _ late => late = false
    | _ => True
  | .receiver (.failed ⟨kind, _⟩) =>
    match w.pc, kind with
    | .reading _ _, .connectionReset => w.closed = true ∧ w.taken.length = w.sent.length
    | .loadReaped, _ | .readLoadReaped, _ | .read _, _ | .stopped _, _ => True
    | _, _ => False
  | _ => True

/-! ## What a step of the receiver can do -/

theorem receive_closed (w : World) : ∃ result, w.receive w.progress.closed = w.stop result := by
  cases w.progress <;> exact ⟨_, rfl⟩

theorem receive_failed (w : World) (error : ReadError) :
    ∃ result, w.receive (w.progress.failed error) = w.stop result := by
  obtain ⟨_ | _ | _, text⟩ := error <;> cases w.progress <;> exact ⟨_, rfl⟩

/-- Where the receiver waits for a socket. -/
def Waits (w : World) : Prop :=
  (∃ wasReaped, w.pc = .accept wasReaped) ∨ (∃ call, w.pc = .setup call) ∨
    ∃ seen late, w.pc = .reading seen late

/-- The steps of the receiver. -/
inductive Received (w : World) : Outcome → World → Prop
  | stay {outcome} : Received w outcome w
  | look {outcome} : w.pc = .loadReaped → Received w outcome (w.setPc (.accept w.reaped))
  | accept {wasReaped} : w.pc = .accept wasReaped → w.arrived = true →
    Received w .ready { w with pc := .setup .blockingMode, accepted := true }
  | poll {since now} : w.pc = .accept false → w.arrived = false →
    Received w (.silent since now) (w.setPc .loadReaped)
  | giveUp {since now} : w.pc = .accept true → w.arrived = false →
    Received w (.silent since now) (w.stop (.ok ()))
  | prepare {call next} : w.pc = .setup call → next.Knows w.reaped → next.Reads →
    Received w .ready (w.setPc next)
  | observe {outcome} : w.pc = .readLoadReaped → Received w outcome (w.setPc (.read w.reaped))
  | read {outcome seen} : w.pc = .read seen →
    Received w outcome (w.setPc (.reading seen w.reaped))
  | retry {outcome seen late} : w.pc = .reading seen late →
    Received w outcome (w.setPc .readLoadReaped)
  | grace {late since now} : w.pc = .reading true late → Received w (.silent since now)
    { w with silentSinceReap := some (w.silentSinceReap.getD since), pc := .readLoadReaped }
  | timeout {late since now result} : w.pc = .reading true late → Received w (.silent since now)
    { w with
      silentSinceReap := some (w.silentSinceReap.getD since)
      timeout := true
      pc := .stopped result }
  | more {seen late count progress} : w.pc = .reading seen late → w.available count ≠ [] →
    w.progress.feed (w.available count) = .ok (.inl progress) → Received w (.bytes count)
      { w with taken := w.taken ++ w.available count, pc := .readLoadReaped, progress }
  | publish {seen late count frame} : w.pc = .reading seen late → w.available count ≠ [] →
    w.progress.feed (w.available count) = .ok (.inr frame) → w.lastSequence < frame.sequence →
    Received w (.bytes count)
      { w with
        taken := w.taken ++ w.available count
        pc := .readLoadReaped
        progress := .firstByte
        lastSequence := frame.sequence
        published := w.published ++ [frame] }
  | invalid {seen late count result} : w.pc = .reading seen late → w.available count ≠ [] →
    (∀ progress, w.progress.feed (w.available count) ≠ .ok (.inl progress)) →
    (∀ frame, w.progress.feed (w.available count) = .ok (.inr frame) →
      ¬w.lastSequence < frame.sequence) → Received w (.bytes count)
      { w with taken := w.taken ++ w.available count, pc := .stopped result }
  | closed {seen late result} : w.pc = .reading seen late → w.closed = true →
    w.taken.length = w.sent.length → Received w .closed (w.stop result)
  | failed {error result} : w.Waits → Received w (.failed error) (w.stop result)

theorem received_silence {w : World} {seen late : Bool} (hpc : w.pc = .reading seen late)
    (since now : ℕ) : Received w (.silent since now) (w.silence seen since now) := by
  unfold silence
  cases seen with
  | false => exact .retry hpc
  | true =>
    rw [if_pos rfl]
    dsimp only
    split
    · obtain ⟨result, hresult⟩ := receive_failed
        { w with silentSinceReap := some (w.silentSinceReap.getD since), timeout := true } timedOut
      rw [hresult]
      exact .timeout hpc
    · exact .grace hpc

theorem received_feed {w : World} {seen late : Bool} (hpc : w.pc = .reading seen late) {count : ℕ}
    (hsome : w.available count ≠ []) :
    Received w (.bytes count) (w.feed (w.available count)) := by
  unfold feed
  dsimp only
  split
  · next error hfeed => exact .invalid hpc hsome (by simp [hfeed]) (by simp [hfeed])
  · next progress hfeed => exact .more hpc hsome hfeed
  · next frame hfeed =>
    unfold receive
    dsimp only
    split
    · next hle =>
      refine .invalid hpc hsome (by simp [hfeed]) fun other hother => ?_
      obtain rfl := Sum.inr.inj (Except.ok.inj (hother.symm.trans hfeed))
      rw [BitVec.lt_def]
      exact Nat.not_lt.mpr hle
    · next hlt => exact .publish hpc hsome hfeed (by rw [BitVec.lt_def]; exact Nat.lt_of_not_le hlt)

theorem received_stepReceiver (w : World) (outcome : Outcome) :
    Received w outcome (w.stepReceiver outcome) := by
  unfold stepReceiver
  split
  · next hpc => exact .look hpc
  · next wasReaped hpc =>
    split
    · split
      · next harrived => exact .accept hpc harrived
      · exact .stay
    · split
      · exact .stay
      · next harrived =>
        have harrived := Bool.eq_false_of_not_eq_true harrived
        split
        · next hreaped => exact .giveUp (hreaped ▸ hpc) harrived
        · next hreaped => exact .poll (Bool.eq_false_of_not_eq_true hreaped ▸ hpc) harrived
    · exact .failed (.inl ⟨wasReaped, hpc⟩)
    all_goals exact .stay
  · next call hpc =>
    split
    · split
      · exact .prepare hpc trivial trivial
      · exact .prepare hpc trivial trivial
    · exact .failed (.inr (.inl ⟨call, hpc⟩))
    all_goals exact .stay
  · next hpc => exact .observe hpc
  · next seen hpc => exact .read hpc
  · next seen late hpc =>
    split
    · exact received_silence hpc _ _
    · split
      · exact .stay
      · next hsome => exact received_feed hpc hsome
    · exact .retry hpc
    · split
      · next hend =>
        obtain ⟨result, hresult⟩ := receive_closed w
        rw [hresult]
        exact .closed hpc hend.1 hend.2
      · exact .stay
    · obtain ⟨result, hresult⟩ := receive_failed w _
      rw [hresult]
      exact .failed (.inr (.inr ⟨seen, late, hpc⟩))
    · exact .stay
  · exact .stay

end World

/-! ## The flag -/

theorem Pc.Knows.mono {pc : Pc} {reaped reaped' : Bool} (h : pc.Knows reaped)
    (hle : reaped = true → reaped' = true) : pc.Knows reaped' := by
  cases pc with
  | accept wasReaped => exact fun hseen => hle (h hseen)
  | read seen => exact fun hseen => hle (h hseen)
  | reading seen late => exact ⟨h.1, fun hlate => hle (h.2 hlate)⟩
  | _ => trivial

/-- The order of what happens to a game, and what follows from it. -/
structure Causal (w : World) : Prop where
  waited : w.reaped = true → w.waited = true
  exited : w.waited = true → w.exited = true
  closed : w.exited = true → w.closed = true
  knows : w.pc.Knows w.reaped
  timeout : w.timeout = true → w.reaped = true

namespace Causal

variable {w w' : World} {game : Game}

theorem start : Causal World.start := ⟨nofun, nofun, nofun, trivial, nofun⟩

theorem setPc (h : Causal w) {pc : Pc} (hknows : pc.Knows w.reaped) : Causal (w.setPc pc) :=
  ⟨h.waited, h.exited, h.closed, hknows, h.timeout⟩

theorem received (h : Causal w) {outcome : Outcome} (hstep : w.Received outcome w') :
    Causal w' := by
  have hknows := h.knows
  cases hstep with
  | stay => exact h
  | look hpc => exact h.setPc id
  | accept hpc harrived => exact ⟨h.waited, h.exited, h.closed, trivial, h.timeout⟩
  | poll hpc harrived => exact h.setPc trivial
  | giveUp hpc harrived => exact h.setPc trivial
  | prepare hpc hnext hreads => exact h.setPc hnext
  | observe hpc => exact h.setPc id
  | read hpc =>
    rw [hpc] at hknows
    exact h.setPc ⟨hknows, id⟩
  | retry hpc => exact h.setPc trivial
  | grace hpc => exact ⟨h.waited, h.exited, h.closed, trivial, h.timeout⟩
  | timeout hpc =>
    rw [hpc] at hknows
    exact ⟨h.waited, h.exited, h.closed, trivial, fun _ => hknows.2 (hknows.1 rfl)⟩
  | more hpc hsome hfeed => exact ⟨h.waited, h.exited, h.closed, trivial, h.timeout⟩
  | publish hpc hsome hfeed hlast => exact ⟨h.waited, h.exited, h.closed, trivial, h.timeout⟩
  | invalid hpc hsome hfeed hlast => exact ⟨h.waited, h.exited, h.closed, trivial, h.timeout⟩
  | closed hpc hclosed hlength => exact h.setPc trivial
  | failed hwaits => exact h.setPc trivial

theorem step (h : Causal w) (action : Action) : Causal (w.step game action) := by
  cases action with
  | receiver outcome => exact h.received (w.received_stepReceiver outcome)
  | connect =>
    rw [World.step]
    split
    · exact h
    · exact ⟨h.waited, h.exited, h.closed, h.knows, h.timeout⟩
  | send count | arrive =>
    rw [World.step]
    split
    · exact ⟨h.waited, h.exited, h.closed, h.knows, h.timeout⟩
    · exact h
  | close =>
    rw [World.step]
    split
    · exact ⟨h.waited, h.exited, fun _ => rfl, h.knows, h.timeout⟩
    · exact h
  | exit => exact ⟨h.waited, fun _ => rfl, fun _ => rfl, h.knows, h.timeout⟩
  | wait =>
    rw [World.step]
    split
    · next hexited => exact ⟨fun _ => rfl, fun _ => hexited, h.closed, h.knows, h.timeout⟩
    · exact h
  | reap =>
    rw [World.step]
    split
    · next hwaited =>
      exact ⟨fun _ => hwaited, h.exited, h.closed, h.knows.mono fun _ => rfl, fun _ => rfl⟩
    · exact h

end Causal

/-! ## The bytes -/

@[simp] theorem stream_nil : stream [] = [] := rfl

theorem stream_cons (frame : Frame) (frames : List Frame) :
    stream (frame :: frames) = frame.bytes ++ stream frames := rfl

theorem stream_append (frames frames' : List Frame) :
    stream (frames ++ frames') = stream frames ++ stream frames' := by
  simp [stream]

/-- The frames before a frame that is not complete. -/
theorem completed_eq {frames rest : List Frame} {cut : List UInt8}
    (hcut : ∀ frame ∈ rest.head?, cut.length < frame.bytes.length) :
    completed (frames ++ rest) (stream frames ++ cut).length = frames := by
  induction frames with
  | nil =>
    cases rest with
    | nil => rfl
    | cons frame rest => exact if_neg (not_le.mpr (hcut frame rfl))
  | cons frame frames ih =>
    have hlength : (stream (frame :: frames) ++ cut).length =
        frame.bytes.length + (stream frames ++ cut).length := by
      rw [stream_cons, List.append_assoc, List.length_append]
    rw [List.cons_append, completed, hlength, if_pos (Nat.le_add_right _ _),
      Nat.add_sub_cancel_left, ih]

/-- The receiver is within the next frame. -/
def Within (rest : List Frame) (progress : Progress) : Prop :=
  match rest with
  | [] => progress = .firstByte
  | frame :: _ => progress.On frame

/-- What was taken of the stream are the frames published and the bytes of the next one. -/
structure Parsed (game : Game) (w : World) : Prop where
  sent : w.sent <+: stream game.frames
  taken : w.taken <+: w.sent
  frames : ∃ rest, game.frames = w.published ++ rest ∧
    w.taken = stream w.published ++ w.progress.taken ∧ Within rest w.progress
  last : w.lastSequence = 0 ∨ ∃ frame ∈ w.published, w.lastSequence = frame.sequence

namespace Parsed

variable {w w' : World} {game : Game} {count : ℕ}

theorem start : Parsed game World.start := by
  refine ⟨List.nil_prefix, List.nil_prefix, ⟨game.frames, rfl, rfl, ?_⟩, .inl rfl⟩
  cases game.frames <;> trivial

theorem available (h : Parsed game w) : w.taken ++ w.available count <+: w.sent := by
  obtain ⟨tail, htail⟩ := h.taken
  rw [World.available, ← htail, List.drop_left]
  exact (List.prefix_append_right_inj _).mpr (List.take_prefix _ _)

/-- Bytes that arrive are of a next frame : they make progress within it, or complete it. -/
theorem next (h : Parsed game w) (hsome : w.available count ≠ []) : ∃ frame rest,
    game.frames = w.published ++ frame :: rest ∧
      ((∃ progress, w.progress.feed (w.available count) = .ok (.inl progress) ∧
        progress.On frame ∧ progress.taken = w.progress.taken ++ w.available count) ∨
      w.progress.feed (w.available count) = .ok (.inr frame) ∧
        w.progress.taken ++ w.available count = frame.bytes) := by
  obtain ⟨rest, hframes, htaken, hwithin⟩ := h.frames
  have hinitial : w.taken ++ w.available count <+: stream game.frames := h.available.trans h.sent
  rw [hframes, stream_append, htaken, List.append_assoc] at hinitial
  have hinitial := (List.prefix_append_right_inj _).mp hinitial
  cases rest with
  | nil =>
    rw [stream_nil, List.prefix_nil, List.append_eq_nil_iff] at hinitial
    exact absurd hinitial.2 hsome
  | cons frame rest =>
    have hon : w.progress.On frame := hwithin
    have hwhole := game.whole frame (by simp [hframes])
    have hsize : (w.available count).length ≤ w.progress.wanted :=
      (List.length_take_le _ _).trans (Nat.min_le_right _ _)
    refine ⟨frame, rest, hframes, hon.feed hwhole hsize ?_⟩
    rw [stream_cons] at hinitial
    refine List.prefix_of_prefix_length_le hinitial (List.prefix_append _ _) ?_
    have hlength := hon.length_wanted hwhole
    rw [List.length_append]
    omega

/-- The next frame of a game has a higher number than the last one. -/
theorem last_lt (h : Parsed game w) {frame : Frame} {rest : List Frame}
    (hframes : game.frames = w.published ++ frame :: rest) : w.lastSequence < frame.sequence := by
  rcases h.last with hzero | ⟨earlier, hearlier, heq⟩
  · rw [hzero]
    exact game.numbered frame (by simp [hframes])
  · have hincreasing := game.increasing
    rw [hframes, List.pairwise_append] at hincreasing
    rw [heq]
    exact hincreasing.2.2 earlier hearlier frame List.mem_cons_self

/-- What a game sends is never rejected. -/
theorem not_invalid (h : Parsed game w) (hsome : w.available count ≠ [])
    (hmore : ∀ progress, w.progress.feed (w.available count) ≠ .ok (.inl progress))
    (hframe : ∀ frame, w.progress.feed (w.available count) = .ok (.inr frame) →
      ¬w.lastSequence < frame.sequence) : False := by
  obtain ⟨frame, rest, hframes, ⟨progress, hfeed, -⟩ | ⟨hfeed, -⟩⟩ := h.next hsome
  · exact hmore progress hfeed
  · exact hframe frame hfeed (h.last_lt hframes)

theorem of_same (h : Parsed game w) (hsent : w'.sent = w.sent) (htaken : w'.taken = w.taken)
    (hpublished : w'.published = w.published) (hprogress : w'.progress = w.progress)
    (hlast : w'.lastSequence = w.lastSequence) : Parsed game w' := by
  refine ⟨hsent ▸ h.sent, ?_, ?_, ?_⟩
  · rw [htaken, hsent]
    exact h.taken
  · rw [htaken, hpublished, hprogress]
    exact h.frames
  · rw [hpublished, hlast]
    exact h.last

theorem more (h : Parsed game w) (hsome : w.available count ≠ []) {progress : Progress}
    (hfeed : w.progress.feed (w.available count) = .ok (.inl progress)) : Parsed game
      { w with taken := w.taken ++ w.available count, pc := .readLoadReaped, progress } := by
  obtain ⟨frame, rest, hframes, ⟨other, hother, hon, htaken⟩ | ⟨hother, -⟩⟩ := h.next hsome
  · obtain rfl := Sum.inl.inj (Except.ok.inj (hfeed.symm.trans hother))
    refine ⟨h.sent, h.available, ⟨frame :: rest, hframes, ?_, hon⟩, h.last⟩
    obtain ⟨_, -, hbefore, -⟩ := h.frames
    rw [htaken, hbefore, List.append_assoc]
  · cases hfeed.symm.trans hother

theorem publish (h : Parsed game w) (hsome : w.available count ≠ []) {frame : Frame}
    (hfeed : w.progress.feed (w.available count) = .ok (.inr frame)) : Parsed game
      { w with
        taken := w.taken ++ w.available count
        pc := .readLoadReaped
        progress := .firstByte
        lastSequence := frame.sequence
        published := w.published ++ [frame] } := by
  obtain ⟨other, rest, hframes, ⟨progress, hother, -⟩ | ⟨hother, hbytes⟩⟩ := h.next hsome
  · cases hfeed.symm.trans hother
  · obtain rfl := Sum.inr.inj (Except.ok.inj (hfeed.symm.trans hother))
    obtain ⟨_, -, hbefore, -⟩ := h.frames
    refine ⟨h.sent, h.available, ⟨rest, ?_, ?_, ?_⟩, .inr ⟨frame, by simp, rfl⟩⟩
    · rw [hframes, List.append_assoc, List.singleton_append]
    · rw [hbefore, List.append_assoc, hbytes, stream_append, stream_cons, stream_nil,
        List.append_nil]
      exact (List.append_nil _).symm
    · cases rest <;> trivial

theorem received (h : Parsed game w) {outcome : Outcome} (hstep : w.Received outcome w') :
    Parsed game w' := by
  cases hstep with
  | stay => exact h
  | more hpc hsome hfeed => exact h.more hsome hfeed
  | publish hpc hsome hfeed hlast => exact h.publish hsome hfeed
  | invalid hpc hsome hfeed hlast => exact (h.not_invalid hsome hfeed hlast).elim
  | _ => exact h.of_same rfl rfl rfl rfl rfl

theorem step (h : Parsed game w) (action : Action) : Parsed game (w.step game action) := by
  cases action with
  | receiver outcome => exact h.received (w.received_stepReceiver outcome)
  | exit => exact h.of_same rfl rfl rfl rfl rfl
  | send count =>
    rw [World.step]
    split
    · obtain ⟨tail, htail⟩ := h.sent
      refine ⟨?_, h.taken.trans (List.prefix_append _ _), h.frames, h.last⟩
      rw [← htail, List.drop_left]
      exact (List.prefix_append_right_inj _).mpr (List.take_prefix _ _)
    · exact h
  | connect =>
    rw [World.step]
    split
    · exact h
    · exact h.of_same rfl rfl rfl rfl rfl
  | close | arrive | wait | reap =>
    rw [World.step]
    split
    · exact h.of_same rfl rfl rfl rfl rfl
    · exact h

/-- A stream that was taken as a whole. -/
theorem published_eq (h : Parsed game w) (htaken : w.taken = w.sent) :
    w.published = completed game.frames w.sent.length := by
  obtain ⟨rest, hframes, hbytes, hwithin⟩ := h.frames
  rw [hframes, ← htaken, hbytes]
  refine (completed_eq fun frame hframe => ?_).symm
  cases rest with
  | nil => cases hframe
  | cons next rest =>
    obtain rfl := Option.some.inj hframe
    exact Progress.On.length_taken hwithin (game.whole next (by simp [hframes]))

end Parsed

/-! ## The connection -/

/-- The game is accepted before it is read. -/
structure Linked (w : World) : Prop where
  unsent : w.connected = false → w.sent = []
  closed : w.closed = true → w.connected = true ∨ w.exited = true
  arrived : w.arrived = true → w.connected = true
  reads : w.pc.Reads → w.accepted = true
  untaken : w.accepted = false → w.taken = []

namespace Linked

variable {w w' : World} {game : Game}

theorem start : Linked World.start := ⟨fun _ => rfl, nofun, nofun, False.elim, fun _ => rfl⟩

theorem setPc (h : Linked w) {pc : Pc} (hreads : pc.Reads → w.accepted = true) :
    Linked (w.setPc pc) :=
  ⟨h.unsent, h.closed, h.arrived, hreads, h.untaken⟩

theorem received (h : Linked w) {outcome : Outcome} (hstep : w.Received outcome w') :
    Linked w' := by
  have hreads := h.reads
  cases hstep with
  | stay => exact h
  | accept hpc harrived => exact ⟨h.unsent, h.closed, h.arrived, fun _ => rfl, nofun⟩
  | look hpc | poll hpc harrived | giveUp hpc harrived => exact h.setPc False.elim
  | closed hpc hclosed hlength => exact h.setPc False.elim
  | failed hwaits => exact h.setPc False.elim
  | prepare hpc hnext hnextReads => exact h.setPc fun _ => hreads (hpc ▸ trivial)
  | observe hpc | read hpc | retry hpc => exact h.setPc fun _ => hreads (hpc ▸ trivial)
  | grace hpc =>
    exact ⟨h.unsent, h.closed, h.arrived, fun _ => hreads (hpc ▸ trivial), h.untaken⟩
  | timeout hpc => exact ⟨h.unsent, h.closed, h.arrived, False.elim, h.untaken⟩
  | more hpc hsome hfeed | publish hpc hsome hfeed hlast | invalid hpc hsome hfeed hlast =>
    have haccepted : w.accepted = true := hreads (hpc ▸ trivial)
    exact ⟨h.unsent, h.closed, h.arrived, fun _ => haccepted, fun hnot => by
      cases haccepted.symm.trans hnot⟩

theorem step (h : Linked w) (action : Action) : Linked (w.step game action) := by
  cases action with
  | receiver outcome => exact h.received (w.received_stepReceiver outcome)
  | connect =>
    rw [World.step]
    split
    · exact h
    · exact ⟨nofun, fun _ => .inl rfl, fun _ => rfl, h.reads, h.untaken⟩
  | send count =>
    rw [World.step]
    split
    · next hopen =>
      refine ⟨fun hnot => ?_, h.closed, h.arrived, h.reads, h.untaken⟩
      cases hopen.1.symm.trans hnot
    · exact h
  | close =>
    rw [World.step]
    split
    · next hconnected =>
      exact ⟨h.unsent, fun _ => .inl hconnected, h.arrived, h.reads, h.untaken⟩
    · exact h
  | exit => exact ⟨h.unsent, fun _ => .inr rfl, h.arrived, h.reads, h.untaken⟩
  | arrive =>
    rw [World.step]
    split
    · next hconnected => exact ⟨h.unsent, h.closed, fun _ => hconnected, h.reads, h.untaken⟩
    · exact h
  | wait | reap =>
    rw [World.step]
    split
    · exact ⟨h.unsent, h.closed, h.arrived, h.reads, h.untaken⟩
    · exact h

end Linked

/-! ## The end of a run -/

/-- The receiver stops when nothing is left. -/
structure Drained (w : World) : Prop where
  queued : w.waited = true → w.connected = true → w.arrived = true
  stopped : ∀ result, w.pc = .stopped result →
    w.closed = true ∧ w.taken = w.sent ∧ (w.connected = true → w.accepted = true)

namespace Drained

variable {w w' : World} {game : Game}

theorem start : Drained World.start := ⟨nofun, nofun⟩

theorem received (h : Drained w) (hcausal : Causal w) (hparsed : Parsed game w)
    (hlinked : Linked w) {outcome : Outcome} (hmeets : w.Meets (.receiver outcome))
    (hstep : w.Received outcome w') : Drained w' := by
  have hknows := hcausal.knows
  have hall (hlength : w.taken.length = w.sent.length) : w.taken = w.sent :=
    hparsed.taken.eq_of_length hlength
  cases hstep with
  | stay => exact h
  | look hpc => exact ⟨h.queued, nofun⟩
  | accept hpc harrived => exact ⟨h.queued, nofun⟩
  | poll hpc harrived => exact ⟨h.queued, nofun⟩
  | giveUp hpc harrived =>
    -- the flag was seen before the attempt : a game that connected would have been accepted
    rw [hpc] at hknows
    have hwaited := hcausal.waited (hknows rfl)
    have hconnected : w.connected = false := by
      refine Bool.eq_false_of_not_eq_true fun hconnected => ?_
      cases harrived.symm.trans (h.queued hwaited hconnected)
    have hsent := hlinked.unsent hconnected
    refine ⟨h.queued, fun _ _ => ⟨hcausal.closed (hcausal.exited hwaited), ?_, fun hnot => ?_⟩⟩
    · exact (List.prefix_nil.mp (hsent ▸ hparsed.taken)).trans hsent.symm
    · cases hconnected.symm.trans hnot
  | prepare hpc hnext hreads =>
    refine ⟨h.queued, fun result hstopped => ?_⟩
    obtain rfl : _ = Pc.stopped result := hstopped
    exact hreads.elim
  | observe hpc | read hpc | retry hpc | grace hpc => exact ⟨h.queued, nofun⟩
  | timeout hpc =>
    -- the flag was seen before the read, which started after the reaping
    rw [hpc] at hknows
    have hlate := hknows.1 rfl
    simp only [World.Meets, hpc] at hmeets
    cases hlate.symm.trans hmeets
  | more hpc hsome hfeed | publish hpc hsome hfeed hlast => exact ⟨h.queued, nofun⟩
  | invalid hpc hsome hfeed hlast => exact (hparsed.not_invalid hsome hfeed hlast).elim
  | closed hpc hclosed hlength =>
    have haccepted : w.accepted = true := hlinked.reads (hpc ▸ trivial)
    exact ⟨h.queued, fun _ _ => ⟨hclosed, hall hlength, fun _ => haccepted⟩⟩
  | failed hwaits =>
    rename_i error result
    obtain ⟨kind, text⟩ := error
    rcases hwaits with ⟨seen, hpc⟩ | ⟨call, hpc⟩ | ⟨seen, late, hpc⟩
    · simp [World.Meets, hpc] at hmeets
    · simp [World.Meets, hpc] at hmeets
    · cases kind with
      | connectionReset =>
        simp only [World.Meets, hpc] at hmeets
        have haccepted : w.accepted = true := hlinked.reads (hpc ▸ trivial)
        exact ⟨h.queued, fun _ _ => ⟨hmeets.1, hall hmeets.2, fun _ => haccepted⟩⟩
      | unexpectedEof => simp [World.Meets, hpc] at hmeets
      | other => simp [World.Meets, hpc] at hmeets

theorem step (h : Drained w) (hcausal : Causal w) (hparsed : Parsed game w) (hlinked : Linked w)
    {action : Action} (hmeets : w.Meets action) : Drained (w.step game action) := by
  cases action with
  | receiver outcome =>
    exact h.received hcausal hparsed hlinked hmeets (w.received_stepReceiver outcome)
  | connect =>
    rw [World.step]
    split
    · exact h
    · next hexited =>
      -- a game that was waited on has exited, and a closed stream was connected
      refine ⟨fun hwaited => absurd (hcausal.exited hwaited) hexited, fun result hpc => ?_⟩
      obtain ⟨hclosed, htaken, haccepted⟩ := h.stopped result hpc
      exact ⟨hclosed, htaken, fun _ => haccepted ((hlinked.closed hclosed).resolve_right hexited)⟩
  | send count =>
    rw [World.step]
    split
    · next hopen =>
      exact ⟨h.queued, fun result hpc => absurd (h.stopped result hpc).1 hopen.2⟩
    · exact h
  | close =>
    rw [World.step]
    split
    · exact ⟨h.queued, fun result hpc => ⟨rfl, (h.stopped result hpc).2⟩⟩
    · exact h
  | exit => exact ⟨h.queued, fun result hpc => ⟨rfl, (h.stopped result hpc).2⟩⟩
  | arrive =>
    rw [World.step]
    split
    · exact ⟨fun _ _ => rfl, h.stopped⟩
    · exact h
  | wait =>
    rw [World.step]
    split
    · exact ⟨fun _ => hmeets, h.stopped⟩
    · exact h
  | reap =>
    rw [World.step]
    split
    · exact ⟨h.queued, h.stopped⟩
    · exact h

end Drained

def World.Stopped (w : World) : Prop := ∃ result, w.pc = .stopped result

/-- A silence does not stop the receiver of a game that has not exited. -/
theorem Causal.silent {w w' : World} (h : Causal w) (hlives : w.exited = false)
    (hgoes : ¬w.Stopped) {since now : ℕ} (hstep : w.Received (.silent since now) w') :
    ¬w'.Stopped := by
  have hknows := h.knows
  have hunreaped (hreaped : w.reaped = true) : False := by
    cases hlives.symm.trans (h.exited (h.waited hreaped))
  rintro ⟨result, hstopped⟩
  cases hstep with
  | stay => exact hgoes ⟨result, hstopped⟩
  | look hpc | poll hpc harrived | observe hpc | read hpc | retry hpc | grace hpc => cases hstopped
  | giveUp hpc harrived =>
    rw [hpc] at hknows
    exact hunreaped (hknows rfl)
  | timeout hpc =>
    rw [hpc] at hknows
    exact hunreaped (hknows.2 (hknows.1 rfl))

section Runs

variable (game : Game) (actions : List Action)

theorem causal_run : Causal (World.run game actions) :=
  foldl_invariant Causal.start (fun _ action h => h.step action) actions

theorem parsed_run : Parsed game (World.run game actions) :=
  foldl_invariant Parsed.start (fun _ action h => h.step action) actions

/-- The receiver drains a game. In every run, what it publishes are frames of the game in order, it
raises a timeout only after the game was reaped, and no silence stops it while the game lives. In
a run that meets what the system promises, it stops only at the end of the stream : a game that
connected was accepted, and the frames that it sent completely are published. -/
theorem receiver_drains (game : Game) (actions : List Action) :
    let w := World.run game actions
    w.published <+: game.frames ∧
      (w.timeout = true → w.reaped = true ∧ w.exited = true) ∧
      (w.exited = false → ¬w.Stopped → ∀ since now,
        ¬(w.step game (.receiver (.silent since now))).Stopped) ∧
      (StepsMeet (World.step game) World.Meets .start actions → w.Stopped →
        w.closed = true ∧ (w.connected = true → w.accepted = true) ∧
          w.published = completed game.frames w.sent.length) := by
  intro w
  have hcausal : Causal w := causal_run game actions
  have hparsed : Parsed game w := parsed_run game actions
  refine ⟨?_, fun htimeout => ?_, fun hlives hgoes since now => ?_, fun hmeets hstopped => ?_⟩
  · obtain ⟨rest, hframes, -, -⟩ := hparsed.frames
    exact ⟨rest, hframes.symm⟩
  · have hreaped := hcausal.timeout htimeout
    exact ⟨hreaped, hcausal.exited (hcausal.waited hreaped)⟩
  · exact hcausal.silent hlives hgoes (w.received_stepReceiver _)
  · have h : (Causal w ∧ Parsed game w ∧ Linked w) ∧ Drained w := by
      refine foldl_invariant_of_stepsMeet
        (P := fun w => (Causal w ∧ Parsed game w ∧ Linked w) ∧ Drained w)
        ⟨⟨Causal.start, Parsed.start, Linked.start⟩, Drained.start⟩ (fun w action h hmeets => ?_)
        hmeets
      obtain ⟨⟨hcausal, hparsed, hlinked⟩, hdrained⟩ := h
      exact ⟨⟨hcausal.step action, hparsed.step action, hlinked.step action⟩,
        hdrained.step hcausal hparsed hlinked hmeets⟩
    obtain ⟨result, hpc⟩ := hstopped
    obtain ⟨hclosed, htaken, haccepted⟩ := h.2.stopped result hpc
    exact ⟨hclosed, haccepted, hparsed.published_eq htaken⟩

end Runs

instance (w : World) (action : Action) : Decidable (w.Meets action) := by
  unfold World.Meets
  split
  · infer_instance
  · split <;> infer_instance
  · split <;> infer_instance
  · infer_instance

namespace Sample

/-- One pixel. -/
def game : Game where
  frames := [⟨1, ⟨1, 1, by decide, by decide⟩, [7, 8, 9]⟩]
  whole := by simp [Resolution.payloadBytes]
  numbered := by simp
  increasing := List.pairwise_singleton _ _

/-- The game is over before the receiver looks for the first time. -/
def short : List Action :=
  [.connect, .send 20, .arrive, .send 7, .exit, .wait, .reap] ++
    [.ready, .ready, .ready, .ready, .ready, .ready, .ready, .ready, .bytes 1, .ready, .ready,
      .bytes 9, .ready, .ready, .bytes 30, .ready, .ready, .bytes 30, .ready, .ready,
      .closed].map .receiver

end Sample

theorem receiver_drains_short :
    (World.run Sample.game Sample.short).Stopped ∧
      (World.run Sample.game Sample.short).published = completed Sample.game.frames 27 := by
  have hstopped : (World.run Sample.game Sample.short).Stopped := ⟨_, rfl⟩
  refine ⟨hstopped, ?_⟩
  exact ((receiver_drains Sample.game Sample.short).2.2.2 (by decide) hstopped).2.2

end Speck.FrameReceiver
