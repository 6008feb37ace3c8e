import Speck.SoftFloat
import Mathlib.Data.List.Induction
import Mathlib.Tactic.Common

/-!
# The backing track

The sound commands of `runtime/crumb/audio.c` : one game thread plays, seeks, pauses, resumes
and stops a track and asks for its position, while the audio callback renders it. The two
share a bounded queue of commands and a few atomic cells. A step is one atomic access of one
thread, so a run is a list of steps in any order. The procedural effects have their own queue
and are left out.

A stop is signalled through an epoch and a flag. What the code does not keep is ghost state :
the era of a command, a track or a position is the number of stops before the play or seek it
comes from, and `AudioWorld` has the accepted commands, what each command phase received, every
track sample rendered and every position reported.
-/

namespace Speck

/-! ## Commands and tracks -/

inductive SoundCommandKind where
  | play
  | seek
  deriving DecidableEq, Repr

/-- The samples of a sound, `const int16_t *`. -/
abbrev Samples := List (BitVec 16)

structure SoundCommand where
  kind : SoundCommandKind
  samples : Option Samples
  sampleCount : ℕ
  position : ℕ
  epoch : BitVec 32
  volume : F32
  era : ℕ
  deriving DecidableEq

structure BackingTrack where
  samples : Option Samples
  sampleCount : ℕ
  position : ℕ
  epoch : BitVec 32
  volume : F32
  era : ℕ
  deriving DecidableEq

/-- No track, `memset(&backing_track, 0, ...)`. -/
def BackingTrack.none : BackingTrack := ⟨.none, 0, 0, 0, .zero, 0⟩

namespace BackingTrack

/-- What a command makes of the track. -/
def applyCommand (track : BackingTrack) (command : SoundCommand) : BackingTrack :=
  match command.kind with
  | .play =>
    ⟨command.samples, command.sampleCount, 0, command.epoch, command.volume, command.era⟩
  | .seek =>
    if track.samples.isSome then
      { track with
        position :=
          if command.position < track.sampleCount then command.position else track.sampleCount }
    else track

/-- One iteration of `receive_sound_commands` : commands of another epoch are skipped. -/
def receive (epoch : BitVec 32) (track : BackingTrack) (command : SoundCommand) : BackingTrack :=
  if command.epoch = epoch then track.applyCommand command else track

end BackingTrack

namespace BackingTrack

/-- Receiving applies the commands of the epoch. -/
theorem foldl_receive (epoch : BitVec 32) (track : BackingTrack) (commands : List SoundCommand) :
    commands.foldl (receive epoch) track =
      (commands.filter (·.epoch = epoch)).foldl applyCommand track := by
  rw [List.foldl_filter]
  congr 1
  funext track command
  simp [receive]

/-- A play starts afresh. -/
theorem foldl_applyCommand_congr {commands : List SoundCommand} (track track' : BackingTrack)
    (h : ∃ c ∈ commands, c.kind = .play) :
    commands.foldl applyCommand track = commands.foldl applyCommand track' := by
  induction commands generalizing track track' with
  | nil => simp at h
  | cons c rest ih =>
    simp only [List.foldl_cons]
    by_cases hplay : c.kind = .play
    · simp [applyCommand, hplay]
    · refine ih _ _ ?_
      obtain ⟨c', hc', hplay'⟩ := h
      rcases List.mem_cons.mp hc' with rfl | hc'
      · exact absurd hplay' hplay
      · exact ⟨c', hc', hplay'⟩

theorem epoch_foldl_applyCommand {epoch : BitVec 32} {commands : List SoundCommand}
    {track : BackingTrack} (hepoch : ∀ c ∈ commands, c.epoch = epoch)
    (h : track.epoch = epoch ∨ ∃ c ∈ commands, c.kind = .play) :
    (commands.foldl applyCommand track).epoch = epoch := by
  induction commands generalizing track with
  | nil => simpa using h
  | cons c rest ih =>
    simp only [List.forall_mem_cons] at hepoch
    rw [List.foldl_cons]
    refine ih hepoch.2 ?_
    cases hkind : c.kind with
    | play => exact .inl (by simp only [applyCommand, hkind, hepoch.1])
    | seek =>
      rcases h with h | ⟨c', hc', hplay⟩
      · refine .inl ?_
        simp only [applyCommand, hkind]
        split <;> exact h
      · rcases List.mem_cons.mp hc' with rfl | hc'
        · rw [hkind] at hplay
          cases hplay
        · exact .inr ⟨c', hc', hplay⟩

end BackingTrack

/-- `SOUND_COMMAND_SLOTS`. -/
def soundCommandSlots : ℕ := 17

def audioSampleRate : ℕ := 48000

/-! ## Calls -/

inductive AudioCall where
  | soundPlay (handle : I32) (volume : F32)
  | soundSeek (seconds : F32)
  | soundPause
  | soundResume
  | soundStop
  | soundPosition

/-- `1.0f`. -/
def F32.unit : F32 := ⟨0x3F800000#32⟩

/-- The valid arguments of `crumb_sound_play`; the epoch is loaded later. -/
def playCommand (lookup : I32 → Option (Option Samples × ℕ)) (handle : I32) (volume : F32) :
    Option SoundCommand :=
  if !volume.isFinite || volume.le .zero then none
  else
    match lookup handle with
    | some (some samples, sampleCount) =>
      if sampleCount = 0 then none
      else some ⟨.play, some samples, sampleCount, 0, 0, if volume.lt .unit then volume else .unit, 0⟩
    | _ => none

/-- The valid arguments of `crumb_sound_seek`, between 0 and 180 seconds. -/
def seekCommand [F32Primitives] (seconds : F32) : Option SoundCommand :=
  if !seconds.isFinite then none
  else
    let longest := F32Primitives.ofI32 180
    let bounded := if seconds.lt longest then seconds else longest
    let bounded := if F32.lt .zero bounded then bounded else .zero
    let position := F32Primitives.truncToI32
      (F32Primitives.mul bounded (F32Primitives.ofI32 (BitVec.ofNat 32 audioSampleRate)))
    some ⟨.seek, none, 0, position.toNat, 0, .zero, 0⟩

/-! ## Threads -/

/-- Where the game thread is : before the atomic access it is named after. -/
inductive GamePc where
  | idle
  | loadEpoch (command : SoundCommand)
  | loadWrite (command : SoundCommand)
  | loadEnabled (command : SoundCommand) (write : ℕ)
  | loadRead (command : SoundCommand) (write : ℕ)
  | storeCommand (command : SoundCommand) (write : ℕ)
  | clearPaused (command : SoundCommand) (write : ℕ)
  | clearStopped (command : SoundCommand) (write : ℕ)
  | publish (command : SoundCommand) (write : ℕ)
  | setPaused (value : Bool)
  | stopEpoch
  | stopFlag
  | stopPosition
  | positionEnabled
  | positionStopped
  | positionLoad

/-- Where the callback is. -/
inductive CallbackPc where
  | idle
  | loadEnabled (count : ℕ)
  | loadRead (count : ℕ)
  | loadWrite (count read : ℕ)
  | loadEpoch (count read finish : ℕ)
  | receive (count read finish : ℕ) (epoch : BitVec 32)
  | storeRead (count read finish : ℕ) (epoch : BitVec 32)
  | checkStopped (count : ℕ)
  | checkEpoch (count : ℕ)
  | render (left : ℕ)
  | storePosition

/-- A track sample in the output : the stops that had returned when its callback started, and
the era of the track. -/
structure RenderedSample where
  since : ℕ
  era : ℕ
  position : ℕ

/-- The end of a callback's command phase : the commands received before it and in it, the
stops so far and the track. -/
structure CommandPhase where
  earlier : List SoundCommand
  batch : List SoundCommand
  stops : ℕ
  track : BackingTrack

/-- A returned position, the era of the track it was computed for and the stops so far. -/
structure PositionReport where
  position : ℕ
  era : Option ℕ
  stops : ℕ

structure AudioWorld where
  enabled : Bool
  soundCommands : ℕ → SoundCommand
  soundReadIndex : ℕ
  soundWriteIndex : ℕ
  soundEpoch : BitVec 32
  soundPosition : ℕ
  soundPaused : Bool
  soundStopped : Bool
  backingTrack : BackingTrack
  game : GamePc
  callback : CallbackPc
  -- ghost state
  stops : ℕ
  returned : ℕ
  accepted : List SoundCommand
  received : ℕ
  first : ℕ
  limit : ℕ
  since : ℕ
  positionEra : Option ℕ
  phases : List CommandPhase
  rendered : List RenderedSample
  reports : List PositionReport

/-- One step of one thread. A thread that is idle may begin a call, or a callback that renders
so many samples. -/
inductive AudioAction where
  | call (call : AudioCall)
  | game
  | begin (count : ℕ)
  | callback

namespace AudioWorld

/-- After `crumb_audio_reset` and `crumb_audio_enable`. -/
def start (enabled : Bool) : AudioWorld where
  enabled := enabled
  soundCommands := fun _ => ⟨.play, none, 0, 0, 0, .zero, 0⟩
  soundReadIndex := 0
  soundWriteIndex := 0
  soundEpoch := 0
  soundPosition := 0
  soundPaused := false
  soundStopped := true
  backingTrack := .none
  game := .idle
  callback := .idle
  stops := 0
  returned := 0
  accepted := []
  received := 0
  first := 0
  limit := 0
  since := 0
  positionEra := none
  phases := []
  rendered := []
  reports := []

section

variable [F32Primitives] (lookup : I32 → Option (Option Samples × ℕ))

/-- The first access of a call, or `idle` when its arguments are ignored. -/
def beginCall : AudioCall → GamePc
  | .soundPlay handle volume =>
    match playCommand lookup handle volume with
    | some command => .loadEpoch command
    | none => .idle
  | .soundSeek seconds =>
    match seekCommand seconds with
    | some command => .loadEpoch command
    | none => .idle
  | .soundPause => .setPaused true
  | .soundResume => .setPaused false
  | .soundStop => .stopEpoch
  | .soundPosition => .positionEnabled

end

/-- Return from `crumb_sound_position`. -/
def report (w : AudioWorld) (position : ℕ) (era : Option ℕ) : AudioWorld :=
  { w with game := .idle, reports := w.reports ++ [⟨position, era, w.stops⟩] }

/-- The next access of the game thread. -/
def stepGame (w : AudioWorld) : AudioWorld :=
  match w.game with
  | .idle => w
  -- `crumb_sound_play`, `crumb_sound_seek`
  | .loadEpoch command =>
    { w with game := .loadWrite { command with epoch := w.soundEpoch, era := w.stops } }
  -- `submit_sound`
  | .loadWrite command => { w with game := .loadEnabled command w.soundWriteIndex }
  | .loadEnabled command write =>
    { w with game := if w.enabled then .loadRead command write else .idle }
  | .loadRead command write =>
    { w with
      game := if (write + 1) % soundCommandSlots = w.soundReadIndex then .idle
        else .storeCommand command write }
  | .storeCommand command write =>
    { w with
      soundCommands := Function.update w.soundCommands write command
      game := if command.kind = .play then .clearPaused command write else .publish command write }
  | .clearPaused command write =>
    { w with soundPaused := false, game := .clearStopped command write }
  | .clearStopped command write =>
    { w with soundStopped := false, game := .publish command write }
  | .publish command write =>
    { w with
      soundWriteIndex := (write + 1) % soundCommandSlots
      game := .idle
      accepted := w.accepted ++ [command] }
  -- `crumb_sound_pause`, `crumb_sound_resume`
  | .setPaused value => { w with soundPaused := value, game := .idle }
  -- `crumb_sound_stop`
  | .stopEpoch =>
    { w with soundEpoch := w.soundEpoch + 1, game := .stopFlag, stops := w.stops + 1 }
  | .stopFlag => { w with soundStopped := true, game := .stopPosition }
  | .stopPosition =>
    { w with soundPosition := 0, positionEra := none, game := .idle, returned := w.stops }
  -- `crumb_sound_position`
  | .positionEnabled => if w.enabled then { w with game := .positionStopped } else w.report 0 none
  | .positionStopped =>
    if w.soundStopped then w.report 0 none else { w with game := .positionLoad }
  | .positionLoad => w.report w.soundPosition w.positionEra

/-- The command phase ends with this track, and so many samples are to be rendered. -/
def endCommands (w : AudioWorld) (track : BackingTrack) (count : ℕ) : AudioWorld :=
  { w with
    backingTrack := track
    callback := .render count
    phases := w.phases ++ [⟨w.accepted.take w.first, (w.accepted.take w.received).drop w.first,
      w.stops, track⟩] }

/-- The next access of the callback. -/
def stepCallback (w : AudioWorld) : AudioWorld :=
  match w.callback with
  | .idle => w
  -- `crumb_audio_render`
  | .loadEnabled count =>
    { w with callback := if w.enabled then .loadRead count else .idle }
  -- `receive_sound_commands`
  | .loadRead count => { w with callback := .loadWrite count w.soundReadIndex, first := w.received }
  | .loadWrite count read =>
    { w with callback := .loadEpoch count read w.soundWriteIndex, limit := w.accepted.length }
  | .loadEpoch count read finish => { w with callback := .receive count read finish w.soundEpoch }
  | .receive count read finish epoch =>
    if read = finish then { w with callback := .checkStopped count }
    else
      { w with
        backingTrack := w.backingTrack.receive epoch (w.soundCommands read)
        callback := .storeRead count ((read + 1) % soundCommandSlots) finish epoch }
  | .storeRead count read finish epoch =>
    { w with
      soundReadIndex := read
      received := w.received + 1
      callback := .receive count read finish epoch }
  -- `crumb_audio_render`
  | .checkStopped count =>
    if w.soundStopped then w.endCommands .none count else { w with callback := .checkEpoch count }
  | .checkEpoch count =>
    w.endCommands (if w.backingTrack.epoch = w.soundEpoch then w.backingTrack else .none) count
  | .render 0 => { w with callback := .storePosition }
  | .render (left + 1) =>
    if !w.soundPaused && decide (w.backingTrack.position < w.backingTrack.sampleCount) then
      { w with
        callback := .render left
        backingTrack := { w.backingTrack with position := w.backingTrack.position + 1 }
        rendered := w.rendered ++ [⟨w.since, w.backingTrack.era, w.backingTrack.position⟩] }
    else { w with callback := .render left }
  | .storePosition =>
    { w with
      soundPosition := w.backingTrack.position
      positionEra := some w.backingTrack.era
      callback := .idle }

section

variable [F32Primitives] (lookup : I32 → Option (Option Samples × ℕ))

def step (w : AudioWorld) : AudioAction → AudioWorld
  | .call call =>
    match w.game with
    | .idle => { w with game := beginCall lookup call }
    | _ => w
  | .game => w.stepGame
  | .begin count =>
    match w.callback with
    | .idle => { w with callback := .loadEnabled count, since := w.returned }
    | _ => w
  | .callback => w.stepCallback

/-- Any interleaving of the two threads. -/
def run (enabled : Bool) (actions : List AudioAction) : AudioWorld :=
  actions.foldl (step lookup) (start enabled)

end

end AudioWorld

/-! ## The queue -/

namespace GamePc

/-- A command on its way into the queue : `slots` is the queue, and `sent` commands were
submitted, `taken` of them received. -/
def Submits (slots : ℕ → SoundCommand) (sent taken : ℕ) : GamePc → Prop
  | loadEnabled _ write | loadRead _ write => write = sent % soundCommandSlots
  | storeCommand _ write => write = sent % soundCommandSlots ∧ sent < taken + 16
  | clearPaused command write | clearStopped command write | publish command write =>
    write = sent % soundCommandSlots ∧ sent < taken + 16 ∧ slots write = command
  | _ => True

/-- The command that a call is submitting. -/
def submitting : GamePc → Option SoundCommand
  | loadWrite command | loadEnabled command _ | loadRead command _ | storeCommand command _ |
    clearPaused command _ | clearStopped command _ | publish command _ => some command
  | _ => none

end GamePc

namespace CallbackPc

/-- A callback receives the commands between `first` and `limit`. -/
def Receives (first taken limit sent : ℕ) : CallbackPc → Prop
  | loadWrite _ read => read = taken % soundCommandSlots ∧ first = taken
  | loadEpoch _ read finish =>
    read = taken % soundCommandSlots ∧ finish = limit % soundCommandSlots ∧ first = taken ∧
      taken ≤ limit ∧ limit ≤ sent
  | receive _ read finish _ =>
    read = taken % soundCommandSlots ∧ finish = limit % soundCommandSlots ∧ first ≤ taken ∧
      taken ≤ limit ∧ limit ≤ sent
  | storeRead _ read finish _ =>
    read = (taken + 1) % soundCommandSlots ∧ finish = limit % soundCommandSlots ∧ first ≤ taken ∧
      taken < limit ∧ limit ≤ sent
  | checkStopped _ | checkEpoch _ => first ≤ taken ∧ taken = limit ∧ limit ≤ sent
  | _ => True

end CallbackPc

namespace AudioWorld

/-- The queue holds the accepted commands that were not received, in order. -/
structure Queue (w : AudioWorld) : Prop where
  received_le : w.received ≤ w.accepted.length
  room : w.accepted.length ≤ w.received + 16
  read : w.soundReadIndex = w.received % soundCommandSlots
  write : w.soundWriteIndex = w.accepted.length % soundCommandSlots
  slots : ∀ i, w.received ≤ i → ∀ c, w.accepted[i]? = some c →
    w.soundCommands (i % soundCommandSlots) = c
  game : w.game.Submits w.soundCommands w.accepted.length w.received
  callback : w.callback.Receives w.first w.received w.limit w.accepted.length

theorem queue_start (enabled : Bool) : (start enabled).Queue :=
  ⟨le_rfl, by simp [start], rfl, rfl, by simp [start], trivial, trivial⟩

theorem Queue.withGame {w : AudioWorld} (h : w.Queue) {pc : GamePc}
    (hpc : pc.Submits w.soundCommands w.accepted.length w.received) :
    Queue { w with game := pc } :=
  { h with game := hpc }

theorem Queue.stepGame {w : AudioWorld} (h : w.Queue) : w.stepGame.Queue := by
  obtain ⟨hle, hroom, hread, hwrite, hslots, hgame, hcallback⟩ := h
  unfold AudioWorld.stepGame
  cases hg : w.game <;> simp only [hg, GamePc.Submits] at hgame <;> simp only
  case idle => exact ⟨hle, hroom, hread, hwrite, hslots, by simp [hg, GamePc.Submits], hcallback⟩
  case loadWrite => exact ⟨hle, hroom, hread, hwrite, hslots, hwrite, hcallback⟩
  case loadEnabled =>
    refine ⟨hle, hroom, hread, hwrite, hslots, ?_, hcallback⟩
    split
    · exact hgame
    · trivial
  case loadRead command write =>
    refine ⟨hle, hroom, hread, hwrite, hslots, ?_, hcallback⟩
    split
    · trivial
    · next hfull =>
      refine ⟨hgame, ?_⟩
      change w.accepted.length < w.received + 16
      simp only [hread, hgame, soundCommandSlots] at hfull
      omega
  case storeCommand command write =>
    obtain ⟨hw, hfree⟩ := hgame
    refine ⟨hle, hroom, hread, hwrite, fun i hi c hc => ?_, ?_, hcallback⟩
    · change w.received ≤ i at hi
      change w.accepted[i]? = some c at hc
      have hlt := (List.getElem?_eq_some_iff.mp hc).1
      have hne : i % soundCommandSlots ≠ write := by
        simp only [hw, soundCommandSlots]
        omega
      simp only [Function.update_of_ne hne]
      exact hslots i hi c hc
    · split <;> exact ⟨hw, hfree, Function.update_self ..⟩
  case publish command write =>
    obtain ⟨hw, hfree, hslot⟩ := hgame
    refine ⟨?_, ?_, hread, ?_, fun i hi c hc => ?_, trivial, ?_⟩
    · simp only [List.length_append]
      omega
    · simp only [List.length_append, List.length_singleton]
      omega
    · simp only [List.length_append, List.length_singleton, hw, soundCommandSlots]
      omega
    · simp only at hc
      rcases Nat.lt_or_ge i w.accepted.length with hlt | hge
      · rw [List.getElem?_append_left hlt] at hc
        exact hslots i hi c hc
      · obtain rfl : i = w.accepted.length := by
          have := (List.getElem?_eq_some_iff.mp hc).1
          simp only [List.length_append, List.length_singleton] at this
          omega
        rw [List.getElem?_append_right le_rfl, Nat.sub_self] at hc
        obtain rfl := Option.some.inj hc
        simp only
        rw [← hw, hslot]
    · simp only [List.length_append, List.length_singleton]
      cases hc : w.callback <;> simp only [hc, CallbackPc.Receives] at hcallback ⊢ <;> omega
  all_goals first
    | exact ⟨hle, hroom, hread, hwrite, hslots, hgame, hcallback⟩
    | exact ⟨hle, hroom, hread, hwrite, hslots, trivial, hcallback⟩
    | (unfold AudioWorld.report
       split <;> exact ⟨hle, hroom, hread, hwrite, hslots, trivial, hcallback⟩)

theorem Queue.stepCallback {w : AudioWorld} (h : w.Queue) : w.stepCallback.Queue := by
  obtain ⟨hle, hroom, hread, hwrite, hslots, hgame, hcallback⟩ := h
  unfold AudioWorld.stepCallback
  cases hc : w.callback <;> simp only [hc, CallbackPc.Receives] at hcallback <;> simp only
  case idle => exact ⟨hle, hroom, hread, hwrite, hslots, hgame, by simp [hc, CallbackPc.Receives]⟩
  case loadEnabled =>
    refine ⟨hle, hroom, hread, hwrite, hslots, hgame, ?_⟩
    split <;> trivial
  case loadRead => exact ⟨hle, hroom, hread, hwrite, hslots, hgame, hread, rfl⟩
  case loadWrite =>
    exact ⟨hle, hroom, hread, hwrite, hslots, hgame, hcallback.1, hwrite, hcallback.2, hle, le_rfl⟩
  case loadEpoch =>
    obtain ⟨hr, hf, hfirst, hlimit⟩ := hcallback
    exact ⟨hle, hroom, hread, hwrite, hslots, hgame, hr, hf, hfirst.le, hlimit⟩
  case receive count read finish epoch =>
    obtain ⟨hr, hf, hfirst, htaken, hlimit⟩ := hcallback
    -- the indices differ as long as the counts do, which are at most 16 apart
    have hiff : read = finish ↔ w.received = w.limit := by
      simp only [hr, hf, soundCommandSlots]
      omega
    split
    · next heq => exact ⟨hle, hroom, hread, hwrite, hslots, hgame, hfirst, hiff.mp heq, hlimit⟩
    · next hne =>
      refine ⟨hle, hroom, hread, hwrite, hslots, hgame, ?_, hf, hfirst, ?_, hlimit⟩
      · simp only [hr, soundCommandSlots]
        omega
      · have := mt hiff.mpr hne
        change w.received < w.limit
        omega
  case storeRead count read finish epoch =>
    obtain ⟨hr, hf, hfirst, htaken, hlimit⟩ := hcallback
    refine ⟨by simp only; omega, by simp only; omega, hr, hwrite, fun i hi c hc => ?_, ?_, hr, hf,
      by simp only; omega, by simp only; omega, hlimit⟩
    · simp only at hi
      exact hslots i (by omega) c hc
    · cases hg : w.game <;> simp only [hg, GamePc.Submits] at hgame ⊢ <;> first
        | exact hgame
        | exact ⟨hgame.1, by omega⟩
        | exact ⟨hgame.1, by omega, hgame.2.2⟩
  case checkStopped =>
    split
    · exact ⟨hle, hroom, hread, hwrite, hslots, hgame, trivial⟩
    · exact ⟨hle, hroom, hread, hwrite, hslots, hgame, hcallback⟩
  case checkEpoch => exact ⟨hle, hroom, hread, hwrite, hslots, hgame, trivial⟩
  case render left =>
    cases left with
    | zero => exact ⟨hle, hroom, hread, hwrite, hslots, hgame, trivial⟩
    | succ left =>
      simp only
      split <;> exact ⟨hle, hroom, hread, hwrite, hslots, hgame, trivial⟩
  case storePosition => exact ⟨hle, hroom, hread, hwrite, hslots, hgame, trivial⟩

section

variable [F32Primitives] {lookup : I32 → Option (Option Samples × ℕ)}

/-- A call begins before its first access to the queue. -/
theorem submits_beginCall (call : AudioCall) (slots : ℕ → SoundCommand) (sent taken : ℕ) :
    (beginCall lookup call).Submits slots sent taken := by
  cases call <;> simp only [beginCall] <;> first
    | trivial
    | (split <;> trivial)

theorem Queue.step {w : AudioWorld} (h : w.Queue) (action : AudioAction) :
    (w.step lookup action).Queue := by
  unfold AudioWorld.step
  cases action with
  | call call =>
    simp only
    split
    · exact h.withGame (submits_beginCall call _ _ _)
    · exact h
  | game => exact h.stepGame
  | begin count =>
    simp only
    split
    · exact { h with callback := trivial }
    · exact h
  | callback => exact h.stepCallback

end

/-! ## Eras and epochs -/

/-- The epoch of an era. -/
def epochOf (era : ℕ) : BitVec 32 := BitVec.ofNat 32 era

theorem epochOf_inj {era era' : ℕ} (h : era < 2 ^ 32) (h' : era' < 2 ^ 32)
    (heq : epochOf era = epochOf era') : era = era' := by
  have heq := congrArg BitVec.toNat heq
  simp only [epochOf, BitVec.toNat_ofNat] at heq
  omega

/-- Every epoch is the one of its era, which is not in the future. -/
structure Eras (w : AudioWorld) : Prop where
  epoch : w.soundEpoch = epochOf w.stops
  accepted : ∀ c ∈ w.accepted, c.epoch = epochOf c.era ∧ c.era ≤ w.stops
  submitting : ∀ c, w.game.submitting = some c → c.epoch = epochOf c.era ∧ c.era = w.stops
  returned : w.returned ≤ w.stops
  since : w.since ≤ w.stops
  track : w.backingTrack.epoch = epochOf w.backingTrack.era ∧ w.backingTrack.era ≤ w.stops

theorem eras_start (enabled : Bool) : (start enabled).Eras :=
  ⟨rfl, by simp [start], by simp [start, GamePc.submitting], le_rfl, le_rfl, rfl, le_rfl⟩

theorem Eras.stepGame {w : AudioWorld} (h : w.Eras) : w.stepGame.Eras := by
  obtain ⟨hepoch, haccepted, hsubmitting, hreturned, hsince, htrack⟩ := h
  unfold AudioWorld.stepGame
  cases hg : w.game <;> simp only [hg, GamePc.submitting] at hsubmitting <;> simp only
  case loadEpoch command =>
    refine ⟨hepoch, haccepted, fun c hc => ?_, hreturned, hsince, htrack⟩
    obtain rfl := Option.some.inj hc
    exact ⟨hepoch, rfl⟩
  case publish command write =>
    refine ⟨hepoch, List.forall_mem_append.mpr ⟨haccepted, ?_⟩, nofun, hreturned, hsince, htrack⟩
    obtain ⟨h1, h2⟩ := hsubmitting command rfl
    exact List.forall_mem_singleton.mpr ⟨h1, h2.le⟩
  case stopEpoch =>
    refine ⟨?_, fun c hc => ?_, nofun, Nat.le_succ_of_le hreturned, Nat.le_succ_of_le hsince,
      htrack.1, Nat.le_succ_of_le htrack.2⟩
    · simp only [hepoch, epochOf, BitVec.ofNat_add]
      rfl
    · exact ⟨(haccepted c hc).1, Nat.le_succ_of_le (haccepted c hc).2⟩
  case stopPosition => exact ⟨hepoch, haccepted, nofun, le_rfl, hsince, htrack⟩
  case loadEnabled | loadRead | storeCommand =>
    refine ⟨hepoch, haccepted, fun c hc => ?_, hreturned, hsince, htrack⟩
    split at hc <;> first
      | exact hsubmitting c hc
      | cases hc
  case positionEnabled | positionStopped =>
    unfold AudioWorld.report
    split <;> exact ⟨hepoch, haccepted, nofun, hreturned, hsince, htrack⟩
  all_goals first
    | exact ⟨hepoch, haccepted, hsubmitting, hreturned, hsince, htrack⟩
    | exact ⟨hepoch, haccepted, by simp [hg, GamePc.submitting], hreturned, hsince, htrack⟩

/-- The next command of a callback is the oldest one that was not received. -/
theorem Queue.next {w : AudioWorld} (h : w.Queue) {count read finish : ℕ} {epoch : BitVec 32}
    (hc : w.callback = .receive count read finish epoch) (hne : read ≠ finish) :
    ∃ c, w.accepted[w.received]? = some c ∧ w.soundCommands read = c := by
  have hcallback := h.callback
  simp only [hc, CallbackPc.Receives] at hcallback
  obtain ⟨hr, hf, -, htaken, hlimit⟩ := hcallback
  have hlt : w.received < w.limit := by
    rcases Nat.lt_or_ge w.received w.limit with hlt | hge
    · exact hlt
    · exact absurd (hr.trans ((congrArg (· % soundCommandSlots) (by omega)).trans hf.symm)) hne
  have hget := List.getElem?_eq_getElem (l := w.accepted) (i := w.received) (by omega)
  exact ⟨_, hget, by rw [hr]; exact h.slots _ le_rfl _ hget⟩

/-- A received command leaves the track with its epoch or keeps the track's. -/
theorem receive_track {track : BackingTrack} {epoch : BitVec 32} {command : SoundCommand}
    {stops : ℕ} (hcommand : command.epoch = epochOf command.era ∧ command.era ≤ stops)
    (htrack : track.epoch = epochOf track.era ∧ track.era ≤ stops) :
    (track.receive epoch command).epoch = epochOf (track.receive epoch command).era ∧
      (track.receive epoch command).era ≤ stops := by
  unfold BackingTrack.receive BackingTrack.applyCommand
  split
  · split
    · exact hcommand
    · split <;> exact htrack
  · exact htrack

theorem Eras.stepCallback {w : AudioWorld} (h : w.Eras) (hq : w.Queue) : w.stepCallback.Eras := by
  obtain ⟨hepoch, haccepted, hsubmitting, hreturned, hsince, htrack⟩ := h
  unfold AudioWorld.stepCallback
  cases hc : w.callback <;> simp only
  case receive count read finish epoch =>
    split
    · exact ⟨hepoch, haccepted, hsubmitting, hreturned, hsince, htrack⟩
    · next hne =>
      obtain ⟨c, hget, hslot⟩ := hq.next hc hne
      refine ⟨hepoch, haccepted, hsubmitting, hreturned, hsince, ?_⟩
      simp only [hslot]
      exact receive_track (haccepted c (List.mem_of_getElem? hget)) htrack
  case checkStopped =>
    split
    · exact ⟨hepoch, haccepted, hsubmitting, hreturned, hsince, rfl, Nat.zero_le _⟩
    · exact ⟨hepoch, haccepted, hsubmitting, hreturned, hsince, htrack⟩
  case checkEpoch =>
    unfold AudioWorld.endCommands
    split
    · exact ⟨hepoch, haccepted, hsubmitting, hreturned, hsince, htrack⟩
    · exact ⟨hepoch, haccepted, hsubmitting, hreturned, hsince, rfl, Nat.zero_le _⟩
  case render left =>
    cases left with
    | zero => exact ⟨hepoch, haccepted, hsubmitting, hreturned, hsince, htrack⟩
    | succ left =>
      simp only
      split <;> exact ⟨hepoch, haccepted, hsubmitting, hreturned, hsince, htrack⟩
  all_goals exact ⟨hepoch, haccepted, hsubmitting, hreturned, hsince, htrack⟩

/-! ## The command phase -/

/-- So many commands were received, the last ones by this callback, which compares them with
the epoch of an era. -/
def Received (w : AudioWorld) (taken : ℕ) (epoch : BitVec 32) : Prop :=
  ∃ era ≤ w.stops, epoch = epochOf era ∧ (∀ c ∈ w.accepted.take w.limit, c.era ≤ era) ∧
    ∃ track, w.backingTrack =
      ((w.accepted.take taken).drop w.first).foldl (BackingTrack.receive epoch) track

/-- What a callback received so far. -/
def InPhase (w : AudioWorld) : Prop :=
  match w.callback with
  | .receive _ _ _ epoch => w.Received w.received epoch
  | .storeRead _ _ _ epoch => w.Received (w.received + 1) epoch
  | .checkStopped _ | .checkEpoch _ => ∃ epoch, w.Received w.received epoch
  | _ => True

/-- The stopped flag is clear while a play of the last era is accepted. -/
structure Flag (w : AudioWorld) : Prop where
  accepted : ∀ c ∈ w.accepted, c.kind = .play → c.era = w.stops → w.soundStopped = false
  publishing : ∀ c write, w.game = .publish c write → c.kind = .play → w.soundStopped = false
  stopping : w.game = .stopFlag → ∀ c ∈ w.accepted, c.era < w.stops

theorem flag_start (enabled : Bool) : (start enabled).Flag :=
  ⟨by simp [start], nofun, nofun⟩

theorem Flag.stepGame {w : AudioWorld} (h : w.Flag) (he : w.Eras) : w.stepGame.Flag := by
  obtain ⟨haccepted, hpublishing, hstopping⟩ := h
  unfold AudioWorld.stepGame
  cases hg : w.game <;> simp only
  case idle => exact ⟨haccepted, by simp [hg], by simp [hg]⟩
  case loadEnabled | loadRead =>
    refine ⟨haccepted, ?_, ?_⟩ <;> split <;> nofun
  case storeCommand command write =>
    refine ⟨haccepted, fun c write' hc hplay => ?_, ?_⟩
    · split at hc
      · cases hc
      · next hkind =>
        cases hc
        exact absurd hplay hkind
    · split <;> nofun
  case clearStopped command write => exact ⟨fun _ _ _ _ => rfl, fun _ _ _ _ => rfl, nofun⟩
  case publish command write =>
    refine ⟨List.forall_mem_append.mpr ⟨haccepted, ?_⟩, nofun, nofun⟩
    exact List.forall_mem_singleton.mpr fun hplay _ => hpublishing command write hg hplay
  case stopEpoch =>
    have hlt : ∀ c ∈ w.accepted, c.era < w.stops + 1 :=
      fun c hc => Nat.lt_succ_of_le (he.accepted c hc).2
    exact ⟨fun c hc _ heq => absurd (hlt c hc) (by simp only at heq; omega), nofun, fun _ => hlt⟩
  case stopFlag =>
    refine ⟨fun c hc _ heq => absurd (hstopping hg c hc) (by simp only at heq; omega), nofun, nofun⟩
  case positionEnabled | positionStopped =>
    unfold AudioWorld.report
    split <;> exact ⟨haccepted, nofun, nofun⟩
  all_goals exact ⟨haccepted, nofun, nofun⟩

theorem Flag.stepCallback {w : AudioWorld} (h : w.Flag) : w.stepCallback.Flag := by
  obtain ⟨haccepted, hpublishing, hstopping⟩ := h
  unfold AudioWorld.stepCallback
  cases hc : w.callback <;> simp only
  case receive | checkStopped =>
    split <;> exact ⟨haccepted, hpublishing, hstopping⟩
  case render left =>
    cases left with
    | zero => exact ⟨haccepted, hpublishing, hstopping⟩
    | succ left =>
      simp only
      split <;> exact ⟨haccepted, hpublishing, hstopping⟩
  all_goals exact ⟨haccepted, hpublishing, hstopping⟩

/-- The game thread keeps what a callback received. -/
theorem Received.stepGame {w : AudioWorld} {taken : ℕ} {epoch : BitVec 32}
    (h : w.Received taken epoch) (htaken : taken ≤ w.accepted.length)
    (hlimit : w.limit ≤ w.accepted.length) : w.stepGame.Received taken epoch := by
  obtain ⟨era, hera, hepoch, hlimits, track, htrack⟩ := h
  unfold AudioWorld.stepGame
  cases hg : w.game <;> simp only
  case publish command write =>
    refine ⟨era, hera, hepoch, ?_, track, ?_⟩
    · simp only [List.take_append_of_le_length hlimit]
      exact hlimits
    · simp only [List.take_append_of_le_length htaken]
      exact htrack
  case stopEpoch => exact ⟨era, Nat.le_succ_of_le hera, hepoch, hlimits, track, htrack⟩
  case positionEnabled | positionStopped =>
    unfold AudioWorld.report
    split <;> exact ⟨era, hera, hepoch, hlimits, track, htrack⟩
  all_goals exact ⟨era, hera, hepoch, hlimits, track, htrack⟩

theorem callback_stepGame (w : AudioWorld) : w.stepGame.callback = w.callback := by
  unfold AudioWorld.stepGame
  cases w.game <;> simp only
  case positionEnabled | positionStopped =>
    unfold AudioWorld.report
    split <;> rfl
  all_goals rfl

theorem received_stepGame (w : AudioWorld) : w.stepGame.received = w.received := by
  unfold AudioWorld.stepGame
  cases w.game <;> simp only
  case positionEnabled | positionStopped =>
    unfold AudioWorld.report
    split <;> rfl
  all_goals rfl

theorem InPhase.stepGame {w : AudioWorld} (h : w.InPhase) (hq : w.Queue) : w.stepGame.InPhase := by
  have hcallback := hq.callback
  unfold InPhase at h ⊢
  rw [callback_stepGame, received_stepGame]
  cases hc : w.callback <;> simp only [hc, CallbackPc.Receives] at hcallback h ⊢
  case receive => exact h.stepGame hq.received_le hcallback.2.2.2.2
  case storeRead => exact h.stepGame (by omega) hcallback.2.2.2.2
  case checkStopped | checkEpoch =>
    obtain ⟨epoch, h⟩ := h
    exact ⟨epoch, h.stepGame hq.received_le hcallback.2.2⟩

theorem InPhase.stepCallback {w : AudioWorld} (h : w.InPhase) (hq : w.Queue) (he : w.Eras) :
    w.stepCallback.InPhase := by
  have hcallback := hq.callback
  unfold InPhase at h
  unfold AudioWorld.stepCallback
  cases hc : w.callback <;> simp only [hc, CallbackPc.Receives] at hcallback h <;> simp only
  case idle => simp [InPhase, hc]
  case loadEnabled =>
    unfold InPhase
    split <;> first
      | trivial
      | (next heq =>
          simp only at heq
          split at heq <;> cases heq)
  case loadEpoch count read finish =>
    refine ⟨w.stops, le_rfl, he.epoch, fun c hmem => (he.accepted c (List.mem_of_mem_take hmem)).2,
      w.backingTrack, ?_⟩
    -- nothing was received yet
    rw [List.drop_eq_nil_of_le (by simp only [List.length_take]; omega), List.foldl_nil]
  case receive count read finish epoch =>
    split
    · exact ⟨epoch, h⟩
    · next hne =>
      obtain ⟨c, hget, hslot⟩ := hq.next hc hne
      obtain ⟨era, hera, hepoch, hlimits, track, htrack⟩ := h
      refine ⟨era, hera, hepoch, hlimits, track, ?_⟩
      have hbatch : (w.accepted.take (w.received + 1)).drop w.first =
          (w.accepted.take w.received).drop w.first ++ [c] := by
        rw [List.take_add_one, hget, List.drop_append_of_le_length]
        · rfl
        · rw [List.length_take]
          omega
      simp only [hslot, hbatch, List.foldl_append, List.foldl_cons, List.foldl_nil]
      rw [← htrack]
  case storeRead count read finish epoch => exact h
  case checkStopped =>
    split
    · trivial
    · exact h
  case render left =>
    cases left with
    | zero => trivial
    | succ left =>
      simp only
      split <;> trivial
  all_goals trivial

/-! ## What is played -/

end AudioWorld

/-- The track at the end of a command phase that received a play of the last era is the result
of the plays and seeks of that era. -/
def CommandPhase.Applies (phase : CommandPhase) : Prop :=
  (∃ c ∈ phase.batch, c.kind = .play ∧ c.era = phase.stops) →
    phase.track = ((phase.earlier ++ phase.batch).filter (·.era = phase.stops)).foldl
      BackingTrack.applyCommand .none

namespace AudioWorld

/-- Every command phase applied its commands, and only tracks of the callback's eras are
rendered. -/
structure Played (w : AudioWorld) : Prop where
  phases : ∀ phase ∈ w.phases, phase.Applies
  rendered : ∀ r ∈ w.rendered, r.since ≤ r.era
  rendering : ∀ left, w.callback = .render left →
    w.backingTrack.sampleCount = 0 ∨ w.since ≤ w.backingTrack.era

theorem played_start (enabled : Bool) : (start enabled).Played :=
  ⟨by simp [start], by simp [start], nofun⟩

theorem Played.stepGame {w : AudioWorld} (h : w.Played) : w.stepGame.Played := by
  obtain ⟨hphases, hrendered, hrendering⟩ := h
  unfold AudioWorld.stepGame
  cases hg : w.game <;> simp only
  case positionEnabled | positionStopped =>
    unfold AudioWorld.report
    split <;> exact ⟨hphases, hrendered, hrendering⟩
  all_goals exact ⟨hphases, hrendered, hrendering⟩

/-- The commands of the last era are those of its epoch. -/
theorem filter_epoch {commands : List SoundCommand} {era : ℕ} (hera : era < 2 ^ 32)
    (h : ∀ c ∈ commands, c.epoch = epochOf c.era ∧ c.era < 2 ^ 32) :
    commands.filter (·.epoch = epochOf era) = commands.filter (·.era = era) := by
  refine List.filter_congr fun c hc => decide_eq_decide.mpr ⟨fun heq => ?_, fun heq => ?_⟩
  · exact epochOf_inj (h c hc).2 hera ((h c hc).1.symm.trans heq)
  · rw [(h c hc).1, heq]

/-- A callback that received a play of the last era has applied the commands of that era, and
its track has the current epoch. -/
theorem Received.applies {w : AudioWorld} {epoch : BitVec 32} (h : w.Received w.received epoch)
    (he : w.Eras) (hlimit : w.received = w.limit)
    (hbound : w.stops < 2 ^ 32)
    (hplay : ∃ c ∈ (w.accepted.take w.received).drop w.first, c.kind = .play ∧ c.era = w.stops) :
    w.backingTrack = ((w.accepted.take w.received).filter (·.era = w.stops)).foldl
        BackingTrack.applyCommand .none ∧
      w.backingTrack.epoch = w.soundEpoch := by
  obtain ⟨era, hera, rfl, hlimits, track, htrack⟩ := h
  obtain ⟨c, hc, hkind, hcera⟩ := hplay
  -- the play was accepted before the callback loaded the epoch
  obtain rfl : era = w.stops := by
    have := hlimits c (hlimit ▸ List.mem_of_mem_drop hc)
    omega
  have heras : ∀ c ∈ w.accepted, c.epoch = epochOf c.era ∧ c.era < 2 ^ 32 :=
    fun c hc => ⟨(he.accepted c hc).1, lt_of_le_of_lt (he.accepted c hc).2 hbound⟩
  have hbatch : ∀ c ∈ (w.accepted.take w.received).drop w.first,
      c.epoch = epochOf c.era ∧ c.era < 2 ^ 32 :=
    fun c hc => heras c (List.mem_of_mem_take (List.mem_of_mem_drop hc))
  rw [BackingTrack.foldl_receive, filter_epoch hbound hbatch] at htrack
  have hmem : c ∈ ((w.accepted.take w.received).drop w.first).filter (·.era = w.stops) :=
    List.mem_filter.mpr ⟨hc, by simpa using hcera⟩
  refine ⟨?_, ?_⟩
  · rw [← List.take_append_drop w.first (w.accepted.take w.received), List.filter_append,
      List.foldl_append, htrack]
    exact BackingTrack.foldl_applyCommand_congr _ _ ⟨c, hmem, hkind⟩
  · rw [htrack, he.epoch]
    refine BackingTrack.epoch_foldl_applyCommand (fun c hc => ?_) (.inr ⟨c, hmem, hkind⟩)
    obtain ⟨hmem, heq⟩ := List.mem_filter.mp hc
    rw [(hbatch c hmem).1, of_decide_eq_true heq]

/-- A callback ends its command phase with a track of the last era, or with none. -/
theorem Played.endCommands {w : AudioWorld} (h : w.Played)
    (hfirst : w.first ≤ w.received) {track : BackingTrack} (count : ℕ)
    (htrack : track.sampleCount = 0 ∨ w.since ≤ track.era)
    (happlies : (∃ c ∈ (w.accepted.take w.received).drop w.first, c.kind = .play ∧ c.era = w.stops) →
      track = ((w.accepted.take w.received).filter (·.era = w.stops)).foldl
        BackingTrack.applyCommand .none) : (w.endCommands track count).Played := by
  refine ⟨List.forall_mem_append.mpr ⟨h.phases, ?_⟩, h.rendered, fun _ _ => htrack⟩
  refine List.forall_mem_singleton.mpr fun hplay => ?_
  have htake : w.accepted.take w.first ++ (w.accepted.take w.received).drop w.first =
      w.accepted.take w.received := by
    conv_rhs => rw [← List.take_append_drop w.first (w.accepted.take w.received)]
    rw [List.take_take, min_eq_left hfirst]
  simp only [htake]
  exact happlies hplay

theorem Played.stepCallback {w : AudioWorld} (h : w.Played) (hq : w.Queue) (he : w.Eras)
    (hf : w.Flag) (hp : w.InPhase) (hbound : w.stops < 2 ^ 32) : w.stepCallback.Played := by
  have hcallback := hq.callback
  unfold InPhase at hp
  unfold AudioWorld.stepCallback
  cases hc : w.callback <;> simp only [hc, CallbackPc.Receives] at hcallback hp <;> simp only
  case idle => exact h
  case loadEnabled =>
    refine ⟨h.phases, h.rendered, fun left hleft => ?_⟩
    simp only at hleft
    split at hleft <;> cases hleft
  case receive =>
    split <;> exact ⟨h.phases, h.rendered, nofun⟩
  case checkStopped count =>
    split
    · next hstopped =>
      refine h.endCommands hcallback.1 count (.inl rfl) ?_
      rintro ⟨c, hmem, hkind, hera⟩
      have hclear := hf.accepted c (List.mem_of_mem_take (List.mem_of_mem_drop hmem)) hkind hera
      rw [hclear] at hstopped
      cases hstopped
    · exact ⟨h.phases, h.rendered, nofun⟩
  case checkEpoch count =>
    obtain ⟨epoch, hp⟩ := hp
    refine h.endCommands hcallback.1 count ?_ fun hplay => ?_
    · split
      · next heq =>
        rw [he.track.1, he.epoch] at heq
        rw [epochOf_inj (lt_of_le_of_lt he.track.2 hbound) hbound heq]
        exact .inr he.since
      · exact .inl rfl
    · obtain ⟨htrack, hepoch⟩ := hp.applies he hcallback.2.1 hbound hplay
      rw [if_pos hepoch]
      exact htrack
  case render left =>
    cases left with
    | zero => exact ⟨h.phases, h.rendered, nofun⟩
    | succ left =>
      simp only
      have htrack := h.rendering _ hc
      split
      · next hsample =>
        have hlt : w.backingTrack.position < w.backingTrack.sampleCount := by
          simp only [Bool.and_eq_true, decide_eq_true_eq] at hsample
          exact hsample.2
        have hera : w.since ≤ w.backingTrack.era := htrack.resolve_left (by omega)
        refine ⟨h.phases, List.forall_mem_append.mpr ⟨h.rendered, ?_⟩, fun _ _ => .inr hera⟩
        exact List.forall_mem_singleton.mpr hera
      · exact ⟨h.phases, h.rendered, fun _ _ => htrack⟩
  all_goals exact ⟨h.phases, h.rendered, nofun⟩

/-! ## Runs -/

/-- The invariant of a run with fewer than `2 ^ 32` stops. -/
structure Safe (w : AudioWorld) : Prop where
  queue : w.Queue
  eras : w.Eras
  flag : w.Flag
  phase : w.InPhase
  played : w.Played

theorem safe_start (enabled : Bool) : (start enabled).Safe :=
  ⟨queue_start enabled, eras_start enabled, flag_start enabled, trivial, played_start enabled⟩

theorem Safe.stepGame {w : AudioWorld} (h : w.Safe) : w.stepGame.Safe :=
  ⟨h.queue.stepGame, h.eras.stepGame, h.flag.stepGame h.eras, h.phase.stepGame h.queue,
    h.played.stepGame⟩

theorem Safe.stepCallback {w : AudioWorld} (h : w.Safe) (hbound : w.stops < 2 ^ 32) :
    w.stepCallback.Safe :=
  ⟨h.queue.stepCallback, h.eras.stepCallback h.queue, h.flag.stepCallback,
    h.phase.stepCallback h.queue h.eras,
    h.played.stepCallback h.queue h.eras h.flag h.phase hbound⟩

theorem Safe.begin {w : AudioWorld} (h : w.Safe) (count : ℕ) :
    Safe { w with callback := .loadEnabled count, since := w.returned } := by
  refine ⟨{ h.queue with callback := trivial }, ?_, ⟨h.flag.accepted, h.flag.publishing,
    h.flag.stopping⟩, trivial, ⟨h.played.phases, h.played.rendered, nofun⟩⟩
  obtain ⟨hepoch, haccepted, hsubmitting, hreturned, -, htrack⟩ := h.eras
  exact ⟨hepoch, haccepted, hsubmitting, hreturned, hreturned, htrack⟩

theorem stops_le_stepGame (w : AudioWorld) : w.stops ≤ w.stepGame.stops := by
  unfold AudioWorld.stepGame
  cases w.game <;> simp only
  case stopEpoch => exact Nat.le_succ _
  case positionEnabled | positionStopped =>
    unfold AudioWorld.report
    split <;> exact le_rfl
  all_goals exact le_rfl

theorem stops_stepCallback (w : AudioWorld) : w.stepCallback.stops = w.stops := by
  unfold AudioWorld.stepCallback
  cases w.callback <;> simp only
  case receive | checkStopped => split <;> rfl
  case render left =>
    cases left with
    | zero => rfl
    | succ left =>
      simp only
      split <;> rfl
  all_goals rfl

section

variable [F32Primitives] {lookup : I32 → Option (Option Samples × ℕ)}

/-- A call starts before its first access. -/
theorem Safe.call {w : AudioWorld} (h : w.Safe) (call : AudioCall) :
    Safe { w with game := beginCall lookup call } := by
  have hpc : (beginCall lookup call).submitting = none ∧ (beginCall lookup call ≠ .stopFlag) ∧
      ∀ c write, beginCall lookup call ≠ .publish c write := by
    cases call <;> simp only [beginCall] <;> first
      | exact ⟨rfl, nofun, nofun⟩
      | (split <;> exact ⟨rfl, nofun, nofun⟩)
  refine ⟨h.queue.withGame (submits_beginCall call _ _ _), ?_, ?_, h.phase, ?_⟩
  · obtain ⟨hepoch, haccepted, -, hreturned, hsince, htrack⟩ := h.eras
    exact ⟨hepoch, haccepted, fun c hc => by simp [hpc.1] at hc, hreturned, hsince, htrack⟩
  · exact ⟨h.flag.accepted, fun c write hc => absurd hc (hpc.2.2 c write),
      fun hc => absurd hc hpc.2.1⟩
  · exact ⟨h.played.phases, h.played.rendered, h.played.rendering⟩

/-- Every step keeps the invariant. -/
theorem Safe.step {w : AudioWorld} (h : w.Safe) (hbound : w.stops < 2 ^ 32)
    (action : AudioAction) : (w.step lookup action).Safe := by
  unfold AudioWorld.step
  cases action with
  | call call =>
    simp only
    split
    · exact h.call call
    · exact h
  | game => exact h.stepGame
  | begin count =>
    simp only
    split
    · exact h.begin count
    · exact h
  | callback => exact h.stepCallback hbound

variable (lookup) in
/-- Stops are only added. -/
theorem stops_le_step (w : AudioWorld) (action : AudioAction) :
    w.stops ≤ (w.step lookup action).stops := by
  unfold AudioWorld.step
  cases action with
  | call call =>
    simp only
    split <;> exact le_rfl
  | game => exact w.stops_le_stepGame
  | begin count =>
    simp only
    split <;> exact le_rfl
  | callback => exact w.stops_stepCallback.ge

theorem run_concat (enabled : Bool) (actions : List AudioAction) (action : AudioAction) :
    run lookup enabled (actions ++ [action]) = (run lookup enabled actions).step lookup action := by
  simp [run]

theorem safe_run (enabled : Bool) (actions : List AudioAction)
    (hbound : (run lookup enabled actions).stops < 2 ^ 32) : (run lookup enabled actions).Safe := by
  induction actions using List.reverseRecOn with
  | nil => exact safe_start enabled
  | append_singleton actions action ih =>
    rw [run_concat] at hbound ⊢
    have hle := (run lookup enabled actions).stops_le_step lookup action
    have hprefix : (run lookup enabled actions).stops < 2 ^ 32 := lt_of_le_of_lt hle hbound
    exact (ih hprefix).step hprefix action

/-- Stopping a track is safe and loses no later play. With fewer than `2 ^ 32` stops, every
track sample rendered is of a track that was played after the stops that had returned when its
callback began; and a callback that received a play of the last era ends its command phase with
what the received plays and seeks of that era make, so with the play's track at sample 0 when
no command followed it. -/
theorem stop_is_safe (enabled : Bool) (actions : List AudioAction)
    (hbound : (run lookup enabled actions).stops < 2 ^ 32) :
    (∀ r ∈ (run lookup enabled actions).rendered, r.since ≤ r.era) ∧
      ∀ phase ∈ (run lookup enabled actions).phases, phase.Applies ∧
        ∀ commands play, phase.batch = commands ++ [play] → play.kind = .play →
          play.era = phase.stops →
            phase.track = ⟨play.samples, play.sampleCount, 0, play.epoch, play.volume, play.era⟩ := by
  have h := safe_run enabled actions hbound
  refine ⟨h.played.rendered, fun phase hphase => ?_⟩
  have happlies := h.played.phases phase hphase
  refine ⟨happlies, fun commands play hbatch hkind hera => ?_⟩
  rw [happlies ⟨play, by simp [hbatch], hkind, hera⟩, hbatch, ← List.append_assoc,
    List.filter_append, List.filter_cons_of_pos (by simpa using hera), List.filter_nil,
    List.foldl_append, List.foldl_cons, List.foldl_nil]
  simp only [BackingTrack.applyCommand, hkind]

end

namespace Sample

/-- One sound of two samples, at every handle. -/
def lookup (_ : I32) : Option (Option Samples × ℕ) := some (some [100, 200], 2)

/-- `crumb_sound_play(1, 1.0f)`, from its call to its return. -/
def play : List AudioAction := .call (.soundPlay 1 F32.unit) :: List.replicate 8 .game

def stop : List AudioAction := .call .soundStop :: List.replicate 3 .game

def position : List AudioAction := .call .soundPosition :: List.replicate 3 .game

/-- A callback up to its first rendered sample. -/
def render : List AudioAction := .begin 1 :: List.replicate 10 .callback

/-- The rest of the callback. -/
def finish : List AudioAction := List.replicate 2 .callback

end Sample

/-- A run that renders a sample and is stopped, and its second play is received. -/
theorem stop_is_safe_sample :
    (@run softFloat Sample.lookup true (Sample.play ++ Sample.render ++ Sample.stop ++
      Sample.finish ++ Sample.play ++ Sample.render)).rendered.map (·.era) = [0, 1] ∧
    ∀ r ∈ (@run softFloat Sample.lookup true (Sample.play ++ Sample.render ++ Sample.stop ++
      Sample.finish ++ Sample.play ++ Sample.render)).rendered, r.since ≤ r.era :=
  ⟨by decide, (@stop_is_safe softFloat Sample.lookup true _ (by decide)).1⟩

/-! ## The reported position -/

end AudioWorld

/-- A reported position is 0, or was computed for a track that was played after the last stop. -/
def PositionReport.Fresh (r : PositionReport) : Prop := r.position = 0 ∨ r.era = some r.stops

namespace AudioWorld

/-- A callback in flight over a stop and a following play stores the old track's position over
the one that the stop has reset. -/
theorem position_stale : ¬∀ r ∈ (@run softFloat Sample.lookup true
    (Sample.play ++ Sample.render ++ Sample.stop ++ Sample.play ++ Sample.finish ++
      Sample.position)).reports, r.Fresh := by
  unfold PositionReport.Fresh
  decide

/-- A callback is past its transport check. -/
def Rendering (w : AudioWorld) : Prop :=
  match w.callback with
  | .render _ | .storePosition => True
  | _ => False

/-- The stored position, and the one that a callback in flight is going to store, are 0 or of a
track of the last era. -/
structure PositionCurrent (w : AudioWorld) : Prop where
  stored : w.soundPosition = 0 ∨ w.positionEra = some w.stops
  rendering : w.Rendering →
    (w.backingTrack.position = 0 ∧ w.backingTrack.sampleCount = 0) ∨ w.backingTrack.era = w.stops

/-- A play clears the stopped flag only when no position of an older era is left. -/
def Meets (w : AudioWorld) (action : AudioAction) : Prop :=
  ∀ command write, action = .game → w.game = .clearStopped command write → w.PositionCurrent

instance (w : AudioWorld) : Decidable w.Rendering := by
  unfold Rendering
  split <;> infer_instance

instance (w : AudioWorld) : Decidable w.PositionCurrent :=
  decidable_of_iff
    ((w.soundPosition = 0 ∨ w.positionEra = some w.stops) ∧ (w.Rendering →
      (w.backingTrack.position = 0 ∧ w.backingTrack.sampleCount = 0) ∨
        w.backingTrack.era = w.stops))
    ⟨fun ⟨hstored, hrendering⟩ => ⟨hstored, hrendering⟩,
      fun ⟨hstored, hrendering⟩ => ⟨hstored, hrendering⟩⟩

instance (w : AudioWorld) (action : AudioAction) : Decidable (w.Meets action) :=
  match action, hg : w.game with
  | .game, .clearStopped _ _ =>
    decidable_of_iff w.PositionCurrent ⟨fun h _ _ _ _ => h, fun h => h _ _ rfl hg⟩
  | .call _, _ | .begin _, _ | .callback, _ => isTrue (fun _ _ h => nomatch h)
  | .game, .idle | .game, .loadEpoch _ | .game, .loadWrite _ | .game, .loadEnabled _ _
  | .game, .loadRead _ _ | .game, .storeCommand _ _ | .game, .clearPaused _ _
  | .game, .publish _ _ | .game, .setPaused _ | .game, .stopEpoch | .game, .stopFlag
  | .game, .stopPosition | .game, .positionEnabled | .game, .positionStopped
  | .game, .positionLoad => isTrue (fun _ _ _ h => by rw [hg] at h; cases h)

/-- While the stopped flag is clear, positions are current. -/
structure Reported (w : AudioWorld) : Prop where
  reports : ∀ r ∈ w.reports, r.Fresh
  current : w.soundStopped = false → w.game ≠ .stopFlag → w.PositionCurrent
  loading : w.game = .positionLoad → w.soundStopped = false
  stopping : w.game = .stopPosition → w.soundStopped = true

theorem reported_start (enabled : Bool) : (start enabled).Reported :=
  ⟨by simp [start], nofun, nofun, nofun⟩

/-- The game thread reports a position that is 0 or current. -/
theorem Reported.report {w : AudioWorld} (h : w.Reported) (hgame : w.game ≠ .stopFlag)
    {position : ℕ} {era : Option ℕ} (hr : position = 0 ∨ era = some w.stops) :
    (w.report position era).Reported := by
  refine ⟨List.forall_mem_append.mpr ⟨h.reports, ?_⟩, fun hstopped _ => ?_, nofun, nofun⟩
  · exact List.forall_mem_singleton.mpr hr
  · obtain ⟨hstored, hrendering⟩ := h.current hstopped hgame
    exact ⟨hstored, hrendering⟩

theorem Reported.stepGame {w : AudioWorld} (h : w.Reported) (hmeets : w.Meets .game) :
    w.stepGame.Reported := by
  have hpast : w.game ≠ .stopFlag → ∀ pc, w.soundStopped = false →
      PositionCurrent { w with game := pc } := fun hgame pc hstopped => by
    obtain ⟨hstored, hrendering⟩ := h.current hstopped hgame
    exact ⟨hstored, hrendering⟩
  unfold AudioWorld.stepGame
  cases hg : w.game <;> simp only
  case idle => exact h
  case loadEnabled | loadRead =>
    refine ⟨h.reports, fun hstopped _ => hpast (by simp [hg]) _ hstopped, ?_, ?_⟩ <;>
      split <;> nofun
  case storeCommand =>
    refine ⟨h.reports, fun hstopped _ => ?_, ?_, ?_⟩
    · obtain ⟨hstored, hrendering⟩ := h.current hstopped (by simp [hg])
      exact ⟨hstored, hrendering⟩
    all_goals split <;> nofun
  case clearStopped command write =>
    obtain ⟨hstored, hrendering⟩ := hmeets command write rfl hg
    exact ⟨h.reports, fun _ _ => ⟨hstored, hrendering⟩, nofun, nofun⟩
  case stopEpoch => exact ⟨h.reports, fun _ hne => absurd rfl hne, nofun, nofun⟩
  case stopFlag => exact ⟨h.reports, nofun, nofun, fun _ => rfl⟩
  case stopPosition =>
    refine ⟨h.reports, fun hstopped => ?_, nofun, nofun⟩
    have hstopping := h.stopping hg
    rw [hstopping] at hstopped
    cases hstopped
  case positionEnabled =>
    split
    · exact ⟨h.reports, fun hstopped _ => hpast (by simp [hg]) _ hstopped, nofun, nofun⟩
    · exact h.report (by simp [hg]) (.inl rfl)
  case positionStopped =>
    split
    · exact h.report (by simp [hg]) (.inl rfl)
    · next hstopped =>
      exact ⟨h.reports, fun hstopped _ => hpast (by simp [hg]) _ hstopped,
        fun _ => by simpa using hstopped, nofun⟩
  case positionLoad =>
    exact h.report (by simp [hg]) (h.current (h.loading hg) (by simp [hg])).stored
  case publish =>
    refine ⟨h.reports, fun hstopped _ => ?_, nofun, nofun⟩
    obtain ⟨hstored, hrendering⟩ := h.current hstopped (by simp [hg])
    exact ⟨hstored, hrendering⟩
  case clearPaused | setPaused =>
    refine ⟨h.reports, fun hstopped _ => ?_, nofun, nofun⟩
    obtain ⟨hstored, hrendering⟩ := h.current hstopped (by simp [hg])
    exact ⟨hstored, hrendering⟩
  all_goals
    exact ⟨h.reports, fun hstopped _ => hpast (by simp [hg]) _ hstopped, nofun, nofun⟩

/-- The callback keeps what the game thread relies on, if its positions stay current. -/
theorem Reported.of_current {w w' : AudioWorld} (h : w.Reported) (hreports : w'.reports = w.reports)
    (hstopped : w'.soundStopped = w.soundStopped) (hgame : w'.game = w.game)
    (hcurrent : w.PositionCurrent → w'.PositionCurrent) : w'.Reported := by
  refine ⟨hreports ▸ h.reports, fun hs hg => ?_, fun hg => ?_, fun hg => ?_⟩
  · exact hcurrent (h.current (hstopped ▸ hs) (hgame ▸ hg))
  · rw [hstopped]
    exact h.loading (hgame ▸ hg)
  · rw [hstopped]
    exact h.stopping (hgame ▸ hg)

theorem Reported.stepCallback {w : AudioWorld} (h : w.Reported) (he : w.Eras)
    (hbound : w.stops < 2 ^ 32) : w.stepCallback.Reported := by
  unfold AudioWorld.stepCallback
  cases hc : w.callback <;> simp only
  case idle => exact h
  case loadEnabled =>
    refine h.of_current rfl rfl rfl fun hcurrent => ⟨hcurrent.stored, fun hrendering => ?_⟩
    unfold Rendering at hrendering
    simp only at hrendering
    split at hrendering
    · next heq => split at heq <;> cases heq
    · next heq => split at heq <;> cases heq
    · exact hrendering.elim
  case receive =>
    split <;> exact h.of_current rfl rfl rfl fun hcurrent => ⟨hcurrent.stored, False.elim⟩
  case checkStopped =>
    split
    · exact h.of_current rfl rfl rfl fun hcurrent => ⟨hcurrent.stored, fun _ => .inl ⟨rfl, rfl⟩⟩
    · exact h.of_current rfl rfl rfl fun hcurrent => ⟨hcurrent.stored, False.elim⟩
  case checkEpoch =>
    refine h.of_current rfl rfl rfl fun hcurrent => ⟨hcurrent.stored, fun _ => ?_⟩
    simp only [AudioWorld.endCommands]
    split
    · next heq =>
      rw [he.track.1, he.epoch] at heq
      exact .inr (epochOf_inj (lt_of_le_of_lt he.track.2 hbound) hbound heq)
    · exact .inl ⟨rfl, rfl⟩
  case render left =>
    have hkeep : w.PositionCurrent → (w.backingTrack.position = 0 ∧ w.backingTrack.sampleCount = 0) ∨
        w.backingTrack.era = w.stops :=
      fun hcurrent => hcurrent.rendering (by simp [Rendering, hc])
    cases left with
    | zero => exact h.of_current rfl rfl rfl fun hcurrent => ⟨hcurrent.stored, fun _ => hkeep hcurrent⟩
    | succ left =>
      simp only
      split
      · next hsample =>
        refine h.of_current rfl rfl rfl fun hcurrent => ⟨hcurrent.stored, fun _ => .inr ?_⟩
        refine (hkeep hcurrent).resolve_left fun hnone => ?_
        simp [hnone] at hsample
      · exact h.of_current rfl rfl rfl fun hcurrent => ⟨hcurrent.stored, fun _ => hkeep hcurrent⟩
  case storePosition =>
    refine h.of_current rfl rfl rfl fun hcurrent => ⟨?_, False.elim⟩
    rcases hcurrent.rendering (by simp [Rendering, hc]) with hnone | hera
    · exact .inl hnone.1
    · exact .inr (congrArg some hera)
  all_goals exact h.of_current rfl rfl rfl fun hcurrent => ⟨hcurrent.stored, False.elim⟩

section

variable [F32Primitives] {lookup : I32 → Option (Option Samples × ℕ)}

theorem Reported.step {w : AudioWorld} (h : w.Reported) (he : w.Eras) (hbound : w.stops < 2 ^ 32)
    {action : AudioAction} (hmeets : w.Meets action) : (w.step lookup action).Reported := by
  unfold AudioWorld.step
  cases action with
  | call call =>
    simp only
    split
    · next hidle =>
      refine ⟨h.reports, fun hstopped _ => ?_, fun hpc => ?_, fun hpc => ?_⟩
      · obtain ⟨hstored, hrendering⟩ := h.current hstopped (by simp [hidle])
        exact ⟨hstored, hrendering⟩
      · cases call <;> simp only [beginCall] at hpc <;> first
          | cases hpc
          | (split at hpc <;> cases hpc)
      · cases call <;> simp only [beginCall] at hpc <;> first
          | cases hpc
          | (split at hpc <;> cases hpc)
    · exact h
  | game => exact h.stepGame hmeets
  | begin count =>
    simp only
    split
    · exact h.of_current rfl rfl rfl fun hcurrent => ⟨hcurrent.stored, False.elim⟩
    · exact h
  | callback => exact h.stepCallback he hbound

/-- In a run with fewer than `2 ^ 32` stops where no play clears the stopped flag over a position
of an older era, stored or on its way in a callback, every reported position is 0 or of a track
that was played after the last stop. -/
theorem position_fresh (enabled : Bool) (actions : List AudioAction)
    (hbound : (run lookup enabled actions).stops < 2 ^ 32)
    (hmeets : ∀ before action after, actions = before ++ action :: after →
      (run lookup enabled before).Meets action) :
    ∀ r ∈ (run lookup enabled actions).reports, r.Fresh := by
  suffices h : (run lookup enabled actions).Reported from h.reports
  induction actions using List.reverseRecOn with
  | nil => exact reported_start enabled
  | append_singleton actions action ih =>
    rw [run_concat] at hbound ⊢
    have hle := (run lookup enabled actions).stops_le_step lookup action
    have hprefix : (run lookup enabled actions).stops < 2 ^ 32 := lt_of_le_of_lt hle hbound
    have h := ih hprefix fun before a after heq =>
      hmeets before a (after ++ [action]) (by simp [heq])
    exact h.step (safe_run enabled actions hprefix).eras hprefix (hmeets actions action [] rfl)

end

/-- A callback that ends before the stop. -/
theorem position_fresh_sample :
    (@run softFloat Sample.lookup true
      (Sample.play ++ Sample.render ++ Sample.finish ++ Sample.stop ++ Sample.play ++
        Sample.position)).reports.map (·.position) = [0] ∧
    ∀ r ∈ (@run softFloat Sample.lookup true
      (Sample.play ++ Sample.render ++ Sample.finish ++ Sample.stop ++ Sample.play ++
        Sample.position)).reports, r.Fresh := by
  refine ⟨by decide,
    @position_fresh softFloat Sample.lookup true _ (by decide) fun before action after h => ?_⟩
  have hmeets : ∀ k : Fin (Sample.play ++ Sample.render ++ Sample.finish ++ Sample.stop ++
      Sample.play ++ Sample.position).length,
      (@run softFloat Sample.lookup true ((Sample.play ++ Sample.render ++ Sample.finish ++
        Sample.stop ++ Sample.play ++ Sample.position).take k)).Meets
        ((Sample.play ++ Sample.render ++ Sample.finish ++ Sample.stop ++ Sample.play ++
          Sample.position).get k) := by
    decide
  generalize Sample.play ++ Sample.render ++ Sample.finish ++ Sample.stop ++ Sample.play ++
    Sample.position = actions at h hmeets
  subst h
  simpa using hmeets ⟨before.length, by simp⟩

end AudioWorld

end Speck
