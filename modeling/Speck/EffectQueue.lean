import Speck.Bytes
import Speck.F32
import Speck.Ring

/-!
# Sound effects

The procedural effects of `runtime/crumb/audio.c` : the game thread submits tones and noises, and
the audio callback receives them into its voices and renders these. A step is one atomic access of
one thread, or one voice of one sample, so a run is a list of steps in any order. The sound
commands have their own queue and touch nothing here but the sample that the voices are mixed
into : what the backing track adds to it is an argument of the step that begins the sample.

The divisions and the unsigned differences of the envelope are checked, and a failed check ends
the run. What the code does not keep is ghost state : the accepted effects, a receipt for each
received one, the effects that were pending at each refusal for lack of room, and what each voice
has played.
-/

namespace Speck
namespace EffectQueue

/-! ## Effects and voices -/

/-- `CRUMB_AUDIO_SAMPLE_RATE`. -/
def sampleRate : ℕ := 48000

/-- `CRUMB_AUDIO_VOICES`. -/
def voiceCount : ℕ := 8

/-- `CRUMB_AUDIO_COMMANDS`. -/
def commandCount : ℕ := 32

/-- `COMMAND_SLOTS`. -/
def commandSlots : ℕ := commandCount + 1

structure Effect where
  frequency : F32
  volume : F32
  samples : ℕ
  deriving DecidableEq

structure Voice where
  effect : Effect
  position : ℕ
  phase : F32
  random : BitVec 32
  deriving DecidableEq

/-- A zeroed voice. -/
def Voice.zero : Voice := ⟨⟨.zero, .zero, 0⟩, 0, .zero, 0⟩

/-- The test of `receive_commands`. -/
def Voice.isFree (voice : Voice) : Bool := voice.effect.samples ≤ voice.position

namespace Voice

def setPosition (voice : Voice) (position : ℕ) : Voice := { voice with position := position }
def setPhase (voice : Voice) (phase : F32) : Voice := { voice with phase := phase }
def setRandom (voice : Voice) (random : BitVec 32) : Voice := { voice with random := random }

@[simp] theorem setPosition_effect (voice : Voice) (position : ℕ) :
    (voice.setPosition position).effect = voice.effect := rfl
@[simp] theorem setPosition_position (voice : Voice) (position : ℕ) :
    (voice.setPosition position).position = position := rfl
@[simp] theorem setPhase_effect (voice : Voice) (phase : F32) :
    (voice.setPhase phase).effect = voice.effect := rfl
@[simp] theorem setPhase_position (voice : Voice) (phase : F32) :
    (voice.setPhase phase).position = voice.position := rfl
@[simp] theorem setRandom_effect (voice : Voice) (random : BitVec 32) :
    (voice.setRandom random).effect = voice.effect := rfl
@[simp] theorem setRandom_position (voice : Voice) (random : BitVec 32) :
    (voice.setRandom random).position = voice.position := rfl

end Voice

/-- The next value of the noise generator. -/
def nextRandom (seed : BitVec 32) : BitVec 32 := seed * 1664525 + 1013904223

/-- `fminf`. -/
def fmin (x y : F32) : F32 := if x.lt y then x else y

/-- `1.0f`. -/
def one : F32 := ⟨0x3F800000#32⟩

/-- `6.2831853071795864769f`. -/
def tau : F32 := ⟨0x40C90FDB#32⟩

/-- What the envelope must not meet. -/
inductive Fault
  | divisionByZero
  | underflow

/-- A difference of two `unsigned int`. -/
def difference (a b : ℕ) : Except Fault ℕ := if b ≤ a then .ok (a - b) else .error .underflow

section

variable [F32Primitives] (sinf : F32 → F32)

/-- An `unsigned int` as a `float`. -/
def ofUnsigned (n : ℕ) : F32 := F32Primitives.ofI32 (BitVec.ofNat 32 n)

/-- A quotient of two `unsigned int` as `float`s. -/
def ratio (a b : ℕ) : Except Fault F32 :=
  if b = 0 then .error .divisionByZero
  else .ok (F32Primitives.div (ofUnsigned a) (ofUnsigned b))

/-- The upper 24 bits of the noise generator, between -1 and 1. -/
def noiseValue (random : BitVec 32) : F32 :=
  F32Primitives.sub (F32Primitives.div (F32Primitives.ofI32 (random >>> 8)) ⟨0x4AFFFFFF#32⟩) one

/-- The next value of a noise, and the voice with its generator moved on. -/
def noiseWave (voice : Voice) : F32 × Voice :=
  (noiseValue (nextRandom voice.random), voice.setRandom (nextRandom voice.random))

/-- The phase of a tone one sample later. -/
def nextPhase (voice : Voice) : F32 :=
  let phase := F32Primitives.add voice.phase
    (F32Primitives.div (F32Primitives.mul tau voice.effect.frequency) (ofUnsigned sampleRate))
  if tau.le phase then F32Primitives.sub phase tau else phase

/-- The next value of a tone, and the voice with its phase moved on. -/
def toneWave (voice : Voice) : F32 × Voice :=
  (sinf voice.phase, voice.setPhase (nextPhase voice))

def wave (voice : Voice) : F32 × Voice :=
  if voice.effect.frequency.eq .zero then noiseWave voice else toneWave sinf voice

/-- The onset and the decay of an effect of so many samples. -/
def envelope (length position : ℕ) : Except Fault (F32 × F32) := do
  let attack := if length / 2 < 96 then length / 2 else 96
  let onset ← ratio position attack
  let last ← difference length 1
  let left ← difference last position
  let decay ← ratio left last
  return (fmin onset one, decay)

/-- A sample under its envelope. -/
def shape (wave volume onset decay : F32) : F32 :=
  F32Primitives.mul
    (F32Primitives.mul (F32Primitives.mul (F32Primitives.mul wave volume) ⟨0x3E800000#32⟩) onset)
    decay

/-- `next_sample`. -/
def nextSample (voice : Voice) : Except Fault (F32 × Voice) := do
  let (onset, decay) ← envelope voice.effect.samples voice.position
  let (sample, next) := wave sinf (voice.setPosition (voice.position + 1))
  return (shape sample voice.effect.volume onset decay, next)

/-- A mixed sample as 16 bits. -/
def toPcm (mixed : F32) : BitVec 16 :=
  let bounded := fmin mixed one
  let bounded := if F32.lt ⟨0xBF800000#32⟩ bounded then bounded else ⟨0xBF800000#32⟩
  (F32Primitives.truncToI32 (F32Primitives.mul bounded ⟨0x46FFFE00#32⟩)).truncate 16

end

/-! ## Calls -/

inductive Call where
  | tone (frequency seconds volume : F32)
  | noise (seconds volume : F32)

/-- The arguments of `submit`. -/
structure Request where
  frequency : F32
  seconds : F32
  volume : F32

/-- What `crumb_tone` and `crumb_noise` submit. -/
def Call.request : Call → Option Request
  | .tone frequency seconds volume =>
    if frequency.isFinite && F32.le ⟨0x41A00000#32⟩ frequency &&
        frequency.le ⟨0x469C4000#32⟩ then
      some ⟨frequency, seconds, volume⟩
    else none
  | .noise seconds volume => some ⟨.zero, seconds, volume⟩

/-- The effect of valid arguments. -/
def Request.effect [F32Primitives] (request : Request) : Option Effect :=
  if !request.seconds.isFinite || !request.volume.isFinite || request.seconds.le .zero ||
      request.volume.le .zero then none
  else
    let seconds := fmin request.seconds ⟨0x40000000#32⟩
    let samples := (F32Primitives.truncToI32
      (F32Primitives.mul seconds (ofUnsigned sampleRate))).toNat
    if samples < 2 then none
    else some ⟨request.frequency, fmin request.volume one, samples⟩

/-! ## Threads -/

/-- Where the game thread is : before the access it is named after. -/
inductive GamePc where
  | idle
  | loadEnabled (request : Request)
  | loadWrite (effect : Effect)
  | loadRead (effect : Effect) (write : ℕ)
  | storeCommand (effect : Effect) (write : ℕ)
  | publish (effect : Effect) (write : ℕ)

/-- A received effect, the voice it was given, and the voices as they were then. -/
structure Receipt where
  effect : Effect
  voice : Option ℕ
  voices : ℕ → Voice

/-- Where the callback is. -/
inductive CallbackPc where
  | idle
  | loadEnabled (count : ℕ)
  | loadRead (count : ℕ)
  | loadWrite (count read : ℕ)
  | receive (count read finish : ℕ)
  | storeRead (count read finish : ℕ) (receipt : Receipt)
  | sample (left : ℕ)
  | voice (left voice : ℕ) (mixed : F32)

/-- What a voice has played : its effects, each with the positions that were rendered. -/
abbrev Played := List (Effect × List ℕ)

/-- A voice begins an effect. -/
def Played.begin (played : Played) (effect : Effect) : Played := played ++ [(effect, [])]

/-- A voice renders a position of its last effect. -/
def Played.render (played : Played) (position : ℕ) : Played :=
  match played.getLast? with
  | some (effect, positions) => played.dropLast ++ [(effect, positions ++ [position])]
  | none => []

structure World where
  enabled : Bool
  commands : ℕ → Effect
  readIndex : ℕ
  writeIndex : ℕ
  voices : ℕ → Voice
  noiseSeed : BitVec 32
  output : List (BitVec 16)
  game : GamePc
  callback : CallbackPc
  -- ghost state
  accepted : List Effect
  receipts : List Receipt
  refusals : List (List Effect)
  snapshot : ℕ
  snapshots : List (ℕ × ℕ)
  played : ℕ → Played

/-- One step of one thread. An idle thread may begin a call or a callback. The step that begins a
sample is told what the backing track adds to it. -/
inductive Action
  | enable (value : Bool)
  | call (call : Call)
  | game
  | begin (count : ℕ)
  | callback (track : Option F32)

namespace World

/-- After `crumb_audio_reset`. -/
def start : World where
  enabled := false
  commands := fun _ => Voice.zero.effect
  readIndex := 0
  writeIndex := 0
  voices := fun _ => .zero
  noiseSeed := 0x12345678#32
  output := []
  game := .idle
  callback := .idle
  accepted := []
  receipts := []
  refusals := []
  snapshot := 0
  snapshots := []
  played := fun _ => []

section

variable [F32Primitives] (sinf : F32 → F32)

/-- The effects that were accepted and not yet received. -/
def pending (w : World) : List Effect := w.accepted.drop w.receipts.length

/-- The next access of the game thread, in `submit`. -/
def stepGame (w : World) : World :=
  match w.game with
  | .idle => w
  | .loadEnabled request =>
    { w with
      game :=
        if w.enabled then
          match request.effect with
          | some effect => .loadWrite effect
          | none => .idle
        else .idle }
  | .loadWrite effect => { w with game := .loadRead effect w.writeIndex }
  | .loadRead effect write =>
    if (write + 1) % commandSlots = w.readIndex then
      { w with game := .idle, refusals := w.refusals ++ [w.pending] }
    else { w with game := .storeCommand effect write }
  | .storeCommand effect write =>
    { w with
      commands := Function.update w.commands write effect
      game := .publish effect write }
  | .publish effect write =>
    { w with
      writeIndex := (write + 1) % commandSlots
      game := .idle
      accepted := w.accepted ++ [effect] }

/-- The first free voice. -/
def freeVoice (w : World) : Option ℕ := (List.range voiceCount).find? fun i => (w.voices i).isFree

/-- The loop over the voices for the effect in a slot. -/
def receive (w : World) (count read finish : ℕ) : World :=
  let effect := w.commands read
  let next := (read + 1) % commandSlots
  match w.freeVoice with
  | some i =>
    let seed := nextRandom w.noiseSeed
    { w with
      voices := Function.update w.voices i ⟨effect, 0, .zero, seed⟩
      noiseSeed := seed
      callback := .storeRead count next finish ⟨effect, some i, w.voices⟩
      played := Function.update w.played i ((w.played i).begin effect) }
  | none => { w with callback := .storeRead count next finish ⟨effect, none, w.voices⟩ }

/-- One voice of a sample. -/
def mixVoice (w : World) (left i : ℕ) (mixed : F32) : Except Fault World := do
  let voice := w.voices i
  if voice.isFree then
    return { w with callback := .voice left (i + 1) mixed }
  else
    let (sample, next) ← nextSample sinf voice
    return { w with
      voices := Function.update w.voices i next
      callback := .voice left (i + 1) (F32Primitives.add mixed sample)
      played := Function.update w.played i ((w.played i).render voice.position) }

/-- The next access of the callback, in `crumb_audio_render`. -/
def stepCallback (w : World) (track : Option F32) : Except Fault World :=
  match w.callback with
  | .idle => .ok w
  | .loadEnabled count =>
    if w.enabled then .ok { w with callback := .loadRead count }
    else .ok { w with callback := .idle, output := w.output ++ List.replicate count 0 }
  -- `receive_commands`
  | .loadRead count => .ok { w with callback := .loadWrite count w.readIndex }
  | .loadWrite count read =>
    .ok { w with
      callback := .receive count read w.writeIndex
      snapshot := w.accepted.length }
  | .receive count read finish =>
    if read = finish then
      .ok { w with
        callback := .sample count
        snapshots := w.snapshots ++ [(w.snapshot, w.receipts.length)] }
    else .ok (w.receive count read finish)
  | .storeRead count read finish receipt =>
    .ok { w with
      readIndex := read
      callback := .receive count read finish
      receipts := w.receipts ++ [receipt] }
  -- the loop over the samples
  | .sample left =>
    if left = 0 then .ok { w with callback := .idle }
    else
      let mixed := match track with
        | some sample => F32Primitives.add .zero sample
        | none => .zero
      .ok { w with callback := .voice (left - 1) 0 mixed }
  | .voice left i mixed =>
    if i < voiceCount then w.mixVoice sinf left i mixed
    else .ok { w with callback := .sample left, output := w.output ++ [toPcm mixed] }

def step (w : World) : Action → Except Fault World
  | .enable value => .ok { w with enabled := value }
  | .call call =>
    match w.game, call.request with
    | .idle, some request => .ok { w with game := .loadEnabled request }
    | _, _ => .ok w
  | .game => .ok w.stepGame
  | .begin count =>
    match w.callback with
    | .idle => .ok { w with callback := .loadEnabled count }
    | _ => .ok w
  | .callback track => w.stepCallback sinf track

/-- A run, by its steps. -/
def run (w : World) : List Action → Except Fault World
  | [] => .ok w
  | action :: rest => do (← w.step sinf action).run rest

end

end World

/-! ## The envelope -/

section

variable [F32Primitives] (sinf : F32 → F32) {voice : Voice}

theorem ratio_eq {a b : ℕ} (h : b ≠ 0) :
    ratio a b = .ok (F32Primitives.div (ofUnsigned a) (ofUnsigned b)) := if_neg h

omit [F32Primitives] in
theorem difference_eq_ok {a b : ℕ} (h : b ≤ a) : difference a b = .ok (a - b) := if_pos h

theorem wave_kept : (wave sinf voice).2.effect = voice.effect ∧
    (wave sinf voice).2.position = voice.position := by
  unfold wave
  split
  · rw [noiseWave]
    exact ⟨Voice.setRandom_effect .., Voice.setRandom_position ..⟩
  · rw [toneWave]
    exact ⟨Voice.setPhase_effect .., Voice.setPhase_position ..⟩

/-- The differences of an effect that is not over do not underflow, and its divisors are not
zero. -/
theorem envelope_ok {length position : ℕ} (hlength : 2 ≤ length) (hposition : position < length) :
    ∃ onset decay, envelope length position = .ok (onset, decay) := by
  have hattack : (if length / 2 < 96 then length / 2 else 96) ≠ 0 := by
    split <;> omega
  have hlast : length - 1 ≠ 0 := by omega
  unfold envelope
  dsimp only
  generalize (if length / 2 < 96 then length / 2 else 96) = attack at hattack ⊢
  rw [ratio_eq hattack, ok_bind, difference_eq_ok (by omega), ok_bind,
    difference_eq_ok (by omega), ok_bind, ratio_eq hlast, ok_bind]
  exact ⟨_, _, rfl⟩

/-- A busy voice has an envelope, and moves on by one position. -/
theorem nextSample_ok (hsamples : 2 ≤ voice.effect.samples) (hbusy : voice.isFree = false) :
    ∃ sample next, nextSample sinf voice = .ok (sample, next) ∧ next.effect = voice.effect ∧
      next.position = voice.position + 1 := by
  have hposition : voice.position < voice.effect.samples := by
    simpa [Voice.isFree] using hbusy
  obtain ⟨onset, decay, henvelope⟩ := envelope_ok hsamples hposition
  obtain ⟨heffect, hmoved⟩ := @wave_kept _ sinf (voice.setPosition (voice.position + 1))
  rw [nextSample, henvelope, ok_bind]
  exact ⟨_, _, rfl, heffect, hmoved⟩

end

/-! ## What a run keeps -/

/-- A received effect is given a free voice, and none only if there is none. -/
def Receipt.Fair (receipt : Receipt) : Prop :=
  match receipt.voice with
  | some i => i < voiceCount ∧ (receipt.voices i).isFree = true
  | none => ∀ i < voiceCount, (receipt.voices i).isFree = false

/-- The effects that a voice was given. -/
def given (i : ℕ) (receipts : List Receipt) : List Effect :=
  receipts.filterMap fun receipt => if receipt.voice = some i then some receipt.effect else none

/-- The receipt of the effect that is being received. -/
def CallbackPc.inFlight : CallbackPc → List Receipt
  | .storeRead _ _ _ receipt => [receipt]
  | _ => []

/-- A voice is at the next position of its last effect, and has played the ones before in full. -/
structure Playing (voice : Voice) (played : Played) : Prop where
  finished : ∀ p ∈ played.dropLast, p.2 = List.range p.1.samples
  silent : played = [] → voice.effect.samples = 0
  current : ∀ p ∈ played.getLast?, voice.effect = p.1 ∧ 2 ≤ p.1.samples ∧
    p.2 = List.range voice.position ∧ voice.position ≤ p.1.samples

/-- What the game thread knows : its slot is free and not published. -/
def GameOk (commands : ℕ → Effect) (write taken sent : ℕ) : GamePc → Prop
  | .idle | .loadEnabled _ => True
  | .loadWrite effect => 2 ≤ effect.samples
  | .loadRead effect slot => 2 ≤ effect.samples ∧ slot = write
  | .storeCommand effect slot =>
    2 ≤ effect.samples ∧ slot = write ∧ sent + 1 < taken + commandSlots
  | .publish effect slot =>
    2 ≤ effect.samples ∧ slot = write ∧ sent + 1 < taken + commandSlots ∧ commands slot = effect

/-- What the callback knows : the effects before its snapshot are published. -/
def CallbackOk (accepted : List Effect) (read limit taken : ℕ) : CallbackPc → Prop
  | .loadWrite _ slot => slot = read
  | .receive _ slot finish =>
    slot = read ∧ finish = limit % commandSlots ∧ taken ≤ limit ∧ limit ≤ accepted.length
  | .storeRead _ next finish receipt =>
    next = (read + 1) % commandSlots ∧ finish = limit % commandSlots ∧ taken < limit ∧
      limit ≤ accepted.length ∧ accepted[taken]? = some receipt.effect ∧ receipt.Fair
  | _ => True

structure Safe (w : World) : Prop where
  ring : Ring commandSlots w.commands w.readIndex w.writeIndex w.receipts.length w.accepted
  game : GameOk w.commands w.writeIndex w.receipts.length w.accepted.length w.game
  callback : CallbackOk w.accepted w.readIndex w.snapshot w.receipts.length w.callback
  received : w.receipts.map (·.effect) = w.accepted.take w.receipts.length
  admitted : ∀ effect ∈ w.accepted, 2 ≤ effect.samples
  refused : ∀ pending ∈ w.refusals, pending.length = commandCount
  drained : ∀ p ∈ w.snapshots, p.1 = p.2
  fair : ∀ receipt ∈ w.receipts, receipt.Fair
  playing : ∀ i, Playing (w.voices i) (w.played i)
  shared : ∀ i, (w.played i).map (·.1) = given i (w.receipts ++ w.callback.inFlight)

/-! ### Voices -/

section

variable {voice : Voice} {played : Played}

/-- A free voice has played its effect in full, and may begin another one. -/
theorem Playing.begin (h : Playing voice played) (hfree : voice.isFree = true) (next : Voice)
    (hsamples : 2 ≤ next.effect.samples) (hposition : next.position = 0) :
    Playing next (played.begin next.effect) where
  finished := by
    rw [Played.begin, List.dropLast_concat]
    have hover : voice.effect.samples ≤ voice.position := by simpa [Voice.isFree] using hfree
    intro p hp
    rcases List.eq_nil_or_concat played with rfl | ⟨front, last, rfl⟩
    · cases hp
    · rw [List.concat_eq_append] at *
      rcases List.mem_append.mp hp with hp | hp
      · exact h.finished p (by rwa [List.dropLast_concat])
      · obtain rfl := List.mem_singleton.mp hp
        obtain ⟨heffect, -, hpositions, hle⟩ := h.current p (by simp)
        rw [hpositions, le_antisymm hle (heffect ▸ hover)]
  silent := by simp [Played.begin]
  current := by
    intro p hp
    rw [Played.begin, List.getLast?_concat] at hp
    obtain rfl := Option.some.inj hp
    exact ⟨rfl, hsamples, by rw [hposition, List.range_zero], by omega⟩

/-- A busy voice plays the next position of its effect. -/
theorem Playing.render (h : Playing voice played) (hbusy : voice.isFree = false) {next : Voice}
    (heffect : next.effect = voice.effect) (hposition : next.position = voice.position + 1) :
    Playing next (played.render voice.position) ∧
      (played.render voice.position).map (·.1) = played.map (·.1) := by
  have hleft : voice.position < voice.effect.samples := by simpa [Voice.isFree] using hbusy
  rcases List.eq_nil_or_concat played with rfl | ⟨front, ⟨effect, positions⟩, rfl⟩
  · have hsilent := h.silent rfl
    omega
  rw [List.concat_eq_append] at *
  obtain ⟨hcurrent, hsamples, hpositions, hle⟩ := h.current (effect, positions) (by simp)
  have hrender : Played.render (front ++ [(effect, positions)]) voice.position =
      front ++ [(effect, positions ++ [voice.position])] := by
    simp [Played.render]
  rw [hrender]
  refine ⟨⟨?_, by simp, ?_⟩, by simp⟩
  · intro p hp
    rw [List.dropLast_concat] at hp
    exact h.finished p (by rwa [List.dropLast_concat])
  · intro p hp
    rw [List.getLast?_concat] at hp
    obtain rfl := Option.some.inj hp
    refine ⟨heffect.trans hcurrent, hsamples, ?_, ?_⟩
    · rw [hposition, List.range_succ]
      exact congrArg (· ++ _) hpositions
    · rw [hposition]
      exact hcurrent ▸ hleft

/-- A busy voice has an effect. -/
theorem Playing.admitted (h : Playing voice played) (hbusy : voice.isFree = false) :
    2 ≤ voice.effect.samples := by
  have hleft : voice.position < voice.effect.samples := by simpa [Voice.isFree] using hbusy
  rcases List.eq_nil_or_concat played with rfl | ⟨front, last, rfl⟩
  · have hsilent := h.silent rfl
    omega
  · obtain ⟨heffect, hsamples, -⟩ := h.current last (by simp)
    rwa [heffect]

end

/-! ### Threads -/

section

variable {w : World}

theorem GameOk.mono {commands : ℕ → Effect} {write taken taken' sent : ℕ} {pc : GamePc}
    (h : GameOk commands write taken sent pc) (hle : taken ≤ taken') :
    GameOk commands write taken' sent pc := by
  cases pc with
  | idle | loadEnabled | loadWrite | loadRead => exact h
  | storeCommand effect slot => exact ⟨h.1, h.2.1, by have := h.2.2; omega⟩
  | publish effect slot => exact ⟨h.1, h.2.1, by have := h.2.2.1; omega, h.2.2.2⟩

theorem CallbackOk.append {accepted : List Effect} {read limit taken : ℕ} {pc : CallbackPc}
    (h : CallbackOk accepted read limit taken pc) (effect : Effect) :
    CallbackOk (accepted ++ [effect]) read limit taken pc := by
  have hle {n : ℕ} (hn : n ≤ accepted.length) : n ≤ (accepted ++ [effect]).length := by
    rw [List.length_append]
    omega
  cases pc with
  | receive count slot finish => exact ⟨h.1, h.2.1, h.2.2.1, hle h.2.2.2⟩
  | storeRead count next finish receipt =>
    obtain ⟨hnext, hfinish, hlt, hlimit, hfront, hfair⟩ := h
    refine ⟨hnext, hfinish, hlt, hle hlimit, ?_, hfair⟩
    rwa [List.getElem?_append_left (by omega)]
  | idle | loadEnabled | loadRead | loadWrite | sample | voice => exact h

theorem World.freeVoice_some {i : ℕ} (h : w.freeVoice = some i) :
    i < voiceCount ∧ (w.voices i).isFree = true := by
  unfold World.freeVoice at h
  obtain ⟨hfree, hi, -⟩ := List.find?_range_eq_some.mp h
  exact ⟨List.mem_range.mp hi, hfree⟩

theorem World.freeVoice_none (h : w.freeVoice = none) :
    ∀ i < voiceCount, (w.voices i).isFree = false := by
  intro i hi
  have hnot := List.find?_eq_none.mp h i (List.mem_range.mpr hi)
  simpa using hnot

theorem given_append (i : ℕ) (receipts more : List Receipt) :
    given i (receipts ++ more) = given i receipts ++ given i more := List.filterMap_append

/-- The loop over the voices. -/
theorem Safe.receive (h : Safe w) {count read finish : ℕ}
    (hpc : w.callback = .receive count read finish) (hne : read ≠ finish) :
    Safe (w.receive count read finish) := by
  have hcallback := h.callback
  have hshared := h.shared
  rw [hpc] at hcallback
  obtain ⟨rfl, rfl, hle, hlimit⟩ := hcallback
  have hlt : w.receipts.length < w.snapshot := by
    refine lt_of_le_of_ne hle fun heq => hne ?_
    rw [h.ring.read_eq, heq]
  have hfront := h.ring.front (by omega)
  have hsamples : 2 ≤ (w.commands w.readIndex).samples :=
    h.admitted _ (List.mem_of_getElem? hfront)
  have hgiven (i : ℕ) : (w.played i).map (·.1) = given i w.receipts := by
    rw [hshared i, hpc]
    simp only [CallbackPc.inFlight, List.append_nil]
  unfold World.receive
  dsimp only
  split
  · next i hvoice =>
    obtain ⟨hi, hfree⟩ := World.freeVoice_some hvoice
    refine { h with
      callback := ⟨rfl, rfl, hlt, hlimit, hfront, hi, hfree⟩
      playing := ?_
      shared := ?_ }
    · intro j
      by_cases hj : j = i
      · subst hj
        have hbegin := (h.playing j).begin hfree ⟨w.commands w.readIndex, 0, .zero,
          nextRandom w.noiseSeed⟩ hsamples rfl
        dsimp only
        rw [Function.update_self, Function.update_self]
        exact hbegin
      · dsimp only
        rw [Function.update_of_ne hj, Function.update_of_ne hj]
        exact h.playing j
    · intro j
      dsimp only [CallbackPc.inFlight]
      rw [given_append]
      by_cases hj : j = i
      · subst hj
        rw [Function.update_self, Played.begin, List.map_append, hgiven]
        simp [given]
      · have hnot : i ≠ j := fun heq => hj heq.symm
        rw [Function.update_of_ne hj, hgiven]
        simp [given, hnot]
  · next hvoice =>
    refine { h with
      callback := ⟨rfl, rfl, hlt, hlimit, hfront, World.freeVoice_none hvoice⟩
      shared := ?_ }
    intro j
    dsimp only [CallbackPc.inFlight]
    rw [given_append, hgiven]
    simp [given]

/-- The step that gives the slot back. -/
theorem Safe.storeRead (h : Safe w) {count next finish : ℕ} {receipt : Receipt}
    (hpc : w.callback = .storeRead count next finish receipt) :
    Safe { w with
      readIndex := next
      callback := .receive count next finish
      receipts := w.receipts ++ [receipt] } := by
  have hcallback := h.callback
  have hshared := h.shared
  rw [hpc] at hcallback hshared
  obtain ⟨rfl, rfl, hlt, hlimit, hfront, hfair⟩ := hcallback
  have hlength : (w.receipts ++ [receipt]).length = w.receipts.length + 1 := by
    rw [List.length_append, List.length_singleton]
  have htaken : w.receipts.length < w.accepted.length := by omega
  refine { h with
    ring := ?_
    game := h.game.mono ?_
    callback := ⟨rfl, rfl, ?_, hlimit⟩
    received := ?_
    fair := ?_
    shared := ?_ }
  · rw [hlength]
    exact h.ring.pop htaken
  · rw [hlength]
    exact Nat.le_succ _
  · rw [hlength]
    exact hlt
  · rw [hlength, List.take_add_one, hfront, List.map_append, h.received]
    rfl
  · intro other hother
    rcases List.mem_append.mp hother with hother | hother
    · exact h.fair other hother
    · obtain rfl := List.mem_singleton.mp hother
      exact hfair
  · intro i
    have hi := hshared i
    dsimp only [CallbackPc.inFlight] at hi ⊢
    rw [List.append_nil]
    exact hi

variable [F32Primitives]

theorem Request.effect_samples {request : Request} {effect : Effect}
    (h : request.effect = some effect) : 2 ≤ effect.samples := by
  unfold Request.effect at h
  split at h
  · cases h
  · dsimp only at h
    split at h
    · cases h
    · next hsamples =>
      obtain rfl := Option.some.inj h
      exact not_lt.mp hsamples

theorem Safe.stepGame (h : Safe w) : Safe w.stepGame := by
  have hgame := h.game
  unfold World.stepGame
  split
  · exact h
  · next request hpc =>
    refine { h with game := ?_ }
    dsimp only
    split
    · split
      · next effect heffect => exact Request.effect_samples heffect
      · trivial
    · trivial
  · next effect hpc =>
    rw [hpc] at hgame
    exact { h with game := ⟨hgame, rfl⟩ }
  · next effect slot hpc =>
    rw [hpc] at hgame
    obtain ⟨hsamples, rfl⟩ := hgame
    split
    · next hfull =>
      have hlength := h.ring.full_iff.mp hfull
      refine { h with game := trivial, refused := ?_ }
      intro pending hpending
      rcases List.mem_append.mp hpending with hpending | hpending
      · exact h.refused pending hpending
      · obtain rfl := List.mem_singleton.mp hpending
        rw [World.pending, List.length_drop]
        unfold commandSlots at hlength
        omega
    · next hroom =>
      have hne := mt h.ring.full_iff.mpr hroom
      have hle := h.ring.room
      have hfree : w.accepted.length + 1 < w.receipts.length + commandSlots := by omega
      exact { h with game := ⟨hsamples, rfl, hfree⟩ }
  · next effect slot hpc =>
    rw [hpc] at hgame
    obtain ⟨hsamples, rfl, hroom⟩ := hgame
    exact { h with
      ring := h.ring.put effect
      game := ⟨hsamples, rfl, hroom, Function.update_self ..⟩ }
  · next effect slot hpc =>
    rw [hpc] at hgame
    obtain ⟨hsamples, rfl, hroom, rfl⟩ := hgame
    have hle := h.ring.taken_le
    refine { h with
      ring := h.ring.publish hroom
      game := trivial
      callback := h.callback.append _
      received := ?_
      admitted := ?_ }
    · rw [List.take_append_of_le_length hle]
      exact h.received
    · intro effect heffect
      rcases List.mem_append.mp heffect with heffect | heffect
      · exact h.admitted effect heffect
      · obtain rfl := List.mem_singleton.mp heffect
        exact hsamples

/-- One voice of a sample. -/
theorem Safe.mixVoice (sinf : F32 → F32) (h : Safe w) {left i : ℕ} {mixed : F32}
    (hpc : w.callback = .voice left i mixed) :
    ∃ w', w.mixVoice sinf left i mixed = .ok w' ∧ Safe w' := by
  have hshared := h.shared
  rw [hpc] at hshared
  unfold World.mixVoice
  dsimp only
  split
  · exact ⟨_, rfl, { h with callback := trivial, shared := hshared }⟩
  · next hbusy =>
    have hbusy : (w.voices i).isFree = false := by simpa using hbusy
    obtain ⟨sample, next, hsample, heffect, hposition⟩ :=
      nextSample_ok sinf ((h.playing i).admitted hbusy) hbusy
    obtain ⟨hplaying, heffects⟩ := (h.playing i).render hbusy heffect hposition
    rw [hsample, ok_bind]
    refine ⟨_, rfl, { h with callback := trivial, playing := ?_, shared := ?_ }⟩
    · intro j
      dsimp only
      by_cases hj : j = i
      · subst hj
        rw [Function.update_self, Function.update_self]
        exact hplaying
      · rw [Function.update_of_ne hj, Function.update_of_ne hj]
        exact h.playing j
    · intro j
      dsimp only
      by_cases hj : j = i
      · subst hj
        rw [Function.update_self, heffects]
        exact hshared j
      · rw [Function.update_of_ne hj]
        exact hshared j

/-- The callback keeps the invariant, and its envelopes have no fault. -/
theorem Safe.stepCallback (sinf : F32 → F32) (h : Safe w) (track : Option F32) :
    ∃ w', w.stepCallback sinf track = .ok w' ∧ Safe w' := by
  have hcallback := h.callback
  have hshared := h.shared
  unfold World.stepCallback
  split
  · exact ⟨w, rfl, h⟩
  · next count hpc =>
    rw [hpc] at hshared
    split
    · exact ⟨_, rfl, { h with callback := trivial, shared := hshared }⟩
    · exact ⟨_, rfl, { h with callback := trivial, shared := hshared }⟩
  · next count hpc =>
    rw [hpc] at hshared
    exact ⟨_, rfl, { h with callback := rfl, shared := hshared }⟩
  · next count read hpc =>
    rw [hpc] at hcallback hshared
    exact ⟨_, rfl, { h with
      callback := ⟨hcallback, h.ring.write_eq, h.ring.taken_le, le_rfl⟩
      shared := hshared }⟩
  · next count read finish hpc =>
    rw [hpc] at hcallback hshared
    split
    · next heq =>
      obtain ⟨hread, hfinish, hle, hlimit⟩ := hcallback
      refine ⟨_, rfl, { h with callback := trivial, drained := ?_, shared := hshared }⟩
      intro p hp
      rcases List.mem_append.mp hp with hp | hp
      · exact h.drained p hp
      · obtain rfl := List.mem_singleton.mp hp
        have hroom := h.ring.room
        have hmod : w.receipts.length % commandSlots = w.snapshot % commandSlots := by
          rw [← h.ring.read_eq, ← hread, heq, hfinish]
        exact (eq_of_mod_eq hle (by omega) hmod).symm
    · next hne => exact ⟨_, rfl, h.receive hpc hne⟩
  · next count read finish receipt hpc => exact ⟨_, rfl, h.storeRead hpc⟩
  · next left hpc =>
    rw [hpc] at hshared
    split
    · exact ⟨_, rfl, { h with callback := trivial, shared := hshared }⟩
    · exact ⟨_, rfl, { h with callback := trivial, shared := hshared }⟩
  · next left i mixed hpc =>
    rw [hpc] at hshared
    split
    · exact h.mixVoice sinf hpc
    · exact ⟨_, rfl, { h with callback := trivial, shared := hshared }⟩

theorem Safe.step (sinf : F32 → F32) (h : Safe w) (action : Action) :
    ∃ w', w.step sinf action = .ok w' ∧ Safe w' := by
  cases action with
  | enable value => exact ⟨_, rfl, { h with }⟩
  | game => exact ⟨_, rfl, h.stepGame⟩
  | callback track => exact h.stepCallback sinf track
  | call call =>
    unfold World.step
    dsimp only
    split
    · exact ⟨_, rfl, { h with game := trivial }⟩
    · exact ⟨w, rfl, h⟩
  | begin count =>
    have hshared := h.shared
    unfold World.step
    dsimp only
    split
    · next hpc =>
      rw [hpc] at hshared
      exact ⟨_, rfl, { h with callback := trivial, shared := hshared }⟩
    · exact ⟨w, rfl, h⟩

theorem Safe.run (sinf : F32 → F32) (h : Safe w) (actions : List Action) :
    ∃ w', w.run sinf actions = .ok w' ∧ Safe w' := by
  induction actions generalizing w with
  | nil => exact ⟨w, rfl, h⟩
  | cons action rest ih =>
    obtain ⟨next, hstep, hnext⟩ := h.step sinf action
    rw [World.run, hstep, ok_bind]
    exact ih hnext

end

theorem safe_start : Safe World.start where
  ring := Ring.start _ (by decide)
  game := trivial
  callback := trivial
  received := rfl
  admitted := nofun
  refused := nofun
  drained := nofun
  fair := nofun
  playing := fun _ => ⟨nofun, fun _ => rfl, nofun⟩
  shared := fun _ => rfl

/-! ## Runs -/

end EffectQueue
end Speck
