import Mathlib.Algebra.Group.Fin.Basic
import Speck.Audio
import Speck.EffectQueue

/-!
# Rendering in chunks

`crumb_audio_render` between two steps of the game thread : it receives what is pending, drops a
track that was stopped, and then mixes the track and the voices sample by sample. After a render the
queues are empty and the track is not one that would be dropped, and no sample changes that
(`Settled`), so the samples and the state after two renders are those of one that is as long as both
(`render_add`). A read past the samples of a track and a failed check of an envelope end the render;
in a state that is `Valid` there are none (`render_total`).
-/

namespace Speck

/-! ## Rings that are emptied -/

section Drain

variable {σ : Type*} {slots : ℕ} [NeZero slots]

/-- `while (read != end)` over the slots of a ring. A turn is enough fuel. -/
def drain (finish : Fin slots) (body : Fin slots → σ → σ) : ℕ → Fin slots → σ → Fin slots × σ
  | 0, read, state => (read, state)
  | fuel + 1, read, state =>
    if read = finish then (read, state) else drain finish body fuel (read + 1) (body read state)

variable {finish : Fin slots} {body : Fin slots → σ → σ}

theorem drain_of_le {fuel : ℕ} {read : Fin slots} (state : σ) (h : (finish - read).val ≤ fuel) :
    (drain finish body fuel read state).1 = finish := by
  induction fuel generalizing read state with
  | zero =>
    have hzero : finish - read = 0 := Fin.ext (Nat.le_zero.mp h)
    exact (sub_eq_zero.mp hzero).symm
  | succ fuel ih =>
    rw [drain]
    split
    · next hread => exact hread
    · next hread =>
      have hne : finish - read ≠ 0 := fun hzero => hread (sub_eq_zero.mp hzero).symm
      refine ih _ ?_
      rw [← sub_sub, Fin.val_sub_one_of_ne_zero hne]
      omega

/-- The loop ends at the end of the ring. -/
theorem drain_fst (read : Fin slots) (state : σ) :
    (drain finish body slots read state).1 = finish :=
  drain_of_le state (Nat.le_of_lt (finish - read).isLt)

theorem drain_self (fuel : ℕ) (state : σ) :
    drain finish body fuel finish state = (finish, state) := by
  cases fuel with
  | zero => rfl
  | succ fuel => exact if_pos rfl

/-- What the body keeps. -/
theorem drain_invariant {P : σ → Prop} (hbody : ∀ read state, P state → P (body read state))
    (fuel : ℕ) (read : Fin slots) {state : σ} (h : P state) :
    P (drain finish body fuel read state).2 := by
  induction fuel generalizing read state with
  | zero => exact h
  | succ fuel ih =>
    rw [drain]
    split
    · exact h
    · exact ih _ (hbody read state h)

end Drain

namespace AudioRender

open EffectQueue

/-! ## The code -/

/-- The cells of `audio.c`. -/
structure State where
  enabled : Bool
  commands : Fin commandSlots → Effect
  readIndex : Fin commandSlots
  writeIndex : Fin commandSlots
  voices : Vector Voice voiceCount
  noiseSeed : BitVec 32
  soundCommands : Fin soundCommandSlots → SoundCommand
  soundReadIndex : Fin soundCommandSlots
  soundWriteIndex : Fin soundCommandSlots
  soundEpoch : BitVec 32
  soundPosition : ℕ
  soundPaused : Bool
  soundStopped : Bool
  backingTrack : BackingTrack

instance : NeZero commandSlots := ⟨by decide⟩
instance : NeZero soundCommandSlots := ⟨by decide⟩

/-- The loop over the voices for one effect. -/
def receiveEffect (effect : Effect) (state : Vector Voice voiceCount × BitVec 32) :
    Vector Voice voiceCount × BitVec 32 :=
  match (List.finRange voiceCount).find? fun i => state.1[i].isFree with
  | some i =>
    let seed := nextRandom state.2
    (state.1.set i ⟨effect, 0, .zero, seed⟩, seed)
  | none => state

/-- `receive_commands`. -/
def receiveCommands (state : State) : State :=
  let received := drain state.writeIndex (fun read => receiveEffect (state.commands read))
    commandSlots state.readIndex (state.voices, state.noiseSeed)
  { state with
    readIndex := received.1
    voices := received.2.1
    noiseSeed := received.2.2 }

/-- `receive_sound_commands`. -/
def receiveSoundCommands (state : State) : State :=
  let received := drain state.soundWriteIndex
    (fun read track => track.receive state.soundEpoch (state.soundCommands read))
    soundCommandSlots state.soundReadIndex state.backingTrack
  { state with soundReadIndex := received.1, backingTrack := received.2 }

/-- A track that was stopped, or is of a play before the last stop, is dropped. -/
def dropStopped (state : State) : State :=
  if state.soundStopped = true ∨ state.backingTrack.epoch ≠ state.soundEpoch then
    { state with backingTrack := .none }
  else state

section

variable [F32Primitives] (sinf : F32 → F32)

/-- What a sample of the track adds. -/
def trackValue (sample : BitVec 16) (volume : F32) : F32 :=
  F32Primitives.mul
    (F32Primitives.div (F32Primitives.ofI32 (sample.signExtend 32)) ⟨0x47000000#32⟩) volume

/-- What the track adds to a sample, and the track after it. -/
def mixTrack (paused : Bool) (track : BackingTrack) : Option (F32 × BackingTrack) :=
  if !paused && decide (track.position < track.sampleCount) then do
    let samples ← track.samples
    let sample ← samples[track.position]?
    pure (F32Primitives.add .zero (trackValue sample track.volume),
      { track with position := track.position + 1 })
  else some (.zero, track)

/-- What a voice adds to a sample. -/
def mixVoice (mixed : F32 × Vector Voice voiceCount) (i : Fin voiceCount) :
    Option (F32 × Vector Voice voiceCount) :=
  if mixed.2[i].isFree then some mixed
  else do
    let (sample, next) ← (nextSample sinf mixed.2[i]).toOption
    pure (F32Primitives.add mixed.1 sample, mixed.2.set i next)

/-- What the samples are mixed from. -/
structure Mixer where
  track : BackingTrack
  voices : Vector Voice voiceCount

/-- One iteration of the loop over the samples. -/
def renderSample (paused : Bool) (mixer : Mixer) : Option (BitVec 16 × Mixer) := do
  let (mixed, track) ← mixTrack paused mixer.track
  let (mixed, voices) ← (List.finRange voiceCount).foldlM (mixVoice sinf) (mixed, mixer.voices)
  pure (toPcm mixed, ⟨track, voices⟩)

/-- The loop over the samples. -/
def renderSamples (paused : Bool) : ℕ → Mixer → Option (List (BitVec 16) × Mixer)
  | 0, mixer => some ([], mixer)
  | count + 1, mixer => do
    let (sample, mixer) ← renderSample sinf paused mixer
    let (samples, mixer) ← renderSamples paused count mixer
    pure (sample :: samples, mixer)

/-- The state after the samples. -/
def State.finish (state : State) (mixer : Mixer) : State :=
  { state with
    backingTrack := mixer.track
    voices := mixer.voices
    soundPosition := mixer.track.position }

/-- `crumb_audio_render`. -/
def render (count : ℕ) (state : State) : Option (List (BitVec 16) × State) :=
  if !state.enabled then some (List.replicate count 0, state)
  else do
    let state := dropStopped (receiveSoundCommands (receiveCommands state))
    let (samples, mixer) ←
      renderSamples sinf state.soundPaused count ⟨state.backingTrack, state.voices⟩
    pure (samples, state.finish mixer)

end

/-! ## The commands -/

/-- The track is not to be dropped. -/
def Current (state : State) : Prop :=
  state.backingTrack = .none ∨ state.soundStopped = false ∧
    state.backingTrack.epoch = state.soundEpoch

/-- A state in which nothing is pending. -/
structure Settled (state : State) : Prop where
  read : state.readIndex = state.writeIndex
  soundRead : state.soundReadIndex = state.soundWriteIndex
  current : Current state

variable {state : State}

theorem current_dropStopped (state : State) : Current (dropStopped state) := by
  unfold dropStopped
  split
  · exact .inl rfl
  · next h =>
    rw [not_or, not_not, Bool.not_eq_true] at h
    exact .inr h

theorem dropStopped_of_current (h : Current state) : dropStopped state = state := by
  unfold dropStopped
  split
  · next hdrop =>
    rcases h with h | ⟨hstopped, hepoch⟩
    · exact congrArg (fun track => { state with backingTrack := track }) h.symm
    · rw [hstopped, hepoch] at hdrop
      simp at hdrop
  · rfl

theorem settled_received (state : State) :
    Settled (dropStopped (receiveSoundCommands (receiveCommands state))) where
  read := by
    have hread : (receiveCommands state).readIndex = state.writeIndex := drain_fst _ _
    unfold dropStopped
    split <;> exact hread
  soundRead := by
    have hread : ∀ s : State, (receiveSoundCommands s).soundReadIndex = s.soundWriteIndex :=
      fun s => drain_fst _ _
    unfold dropStopped
    split <;> exact hread _
  current := current_dropStopped _

/-- What is received is received once. -/
theorem Settled.received (h : Settled state) :
    dropStopped (receiveSoundCommands (receiveCommands state)) = state := by
  have hcommands : receiveCommands state = state := by
    rw [receiveCommands, h.read, drain_self]
    exact congrArg (fun index => { state with readIndex := index }) h.read.symm
  have hsounds : receiveSoundCommands state = state := by
    rw [receiveSoundCommands, h.soundRead, drain_self]
    exact congrArg (fun index => { state with soundReadIndex := index }) h.soundRead.symm
  rw [hcommands, hsounds, dropStopped_of_current h.current]

/-! ## Valid states -/

/-- Samples that can be played to their end. -/
def Playable (samples : Option Samples) (sampleCount : ℕ) : Prop :=
  sampleCount = 0 ∨ ∃ values, samples = some values ∧ sampleCount ≤ values.length

/-- No effect of a voice or a slot has exactly one sample, and tracks have their samples. -/
structure Valid (state : State) : Prop where
  voices : ∀ i : Fin voiceCount, state.voices[i].effect.samples ≠ 1
  commands : ∀ i, (state.commands i).samples ≠ 1
  track : Playable state.backingTrack.samples state.backingTrack.sampleCount
  soundCommands : ∀ i, (state.soundCommands i).kind = .play →
    Playable (state.soundCommands i).samples (state.soundCommands i).sampleCount

theorem Valid.receiveCommands (h : Valid state) : Valid (receiveCommands state) := by
  refine ⟨?_, h.commands, h.track, h.soundCommands⟩
  refine @drain_invariant _ commandSlots _ _ _ (fun s : Vector Voice voiceCount × BitVec 32 =>
    ∀ i : Fin voiceCount, s.1[i].effect.samples ≠ 1) ?_ _ _ (state.voices, state.noiseSeed) h.voices
  intro read s hs i
  rw [receiveEffect]
  split
  · next j _ =>
    by_cases hij : j = i
    · subst hij
      simpa using h.commands read
    · have hne : (j : ℕ) ≠ i := fun heq => hij (Fin.ext heq)
      simpa [Vector.getElem_set_ne, hne] using hs i
  · exact hs i

theorem Valid.receiveSoundCommands (h : Valid state) : Valid (receiveSoundCommands state) := by
  refine ⟨h.voices, h.commands, ?_, h.soundCommands⟩
  refine @drain_invariant _ soundCommandSlots _ _ _ (fun track : BackingTrack =>
    Playable track.samples track.sampleCount) ?_ _ _ state.backingTrack h.track
  intro read track htrack
  rw [BackingTrack.receive]
  split
  · rw [BackingTrack.applyCommand]
    split
    · next hplay => exact h.soundCommands read hplay
    · split
      · exact htrack
      · exact htrack
  · exact htrack

theorem Valid.dropStopped (h : Valid state) : Valid (dropStopped state) := by
  unfold AudioRender.dropStopped
  split
  · exact ⟨h.voices, h.commands, .inl rfl, h.soundCommands⟩
  · exact h

/-! ## The samples -/

section

variable [F32Primitives] {sinf : F32 → F32} {paused : Bool}

/-- A sample keeps the play that the track is of. -/
theorem mixTrack_kept {track track' : BackingTrack} {mixed : F32}
    (h : mixTrack paused track = some (mixed, track')) :
    track'.epoch = track.epoch ∧ (track = .none → track' = .none) := by
  unfold mixTrack at h
  split at h
  · next hplays =>
    obtain ⟨samples, -, h⟩ := Option.bind_eq_some_iff.mp h
    obtain ⟨sample, -, h⟩ := Option.bind_eq_some_iff.mp h
    cases h
    refine ⟨rfl, ?_⟩
    rintro rfl
    simp [BackingTrack.none] at hplays
  · cases h
    exact ⟨rfl, id⟩

theorem renderSamples_kept {count : ℕ} {mixer mixer' : Mixer} {samples : List (BitVec 16)}
    (h : renderSamples sinf paused count mixer = some (samples, mixer')) :
    mixer'.track.epoch = mixer.track.epoch ∧
      (mixer.track = .none → mixer'.track = .none) := by
  induction count generalizing mixer samples with
  | zero =>
    cases h
    exact ⟨rfl, id⟩
  | succ count ih =>
    obtain ⟨⟨sample, next⟩, hsample, h⟩ := Option.bind_eq_some_iff.mp h
    obtain ⟨⟨rest, last⟩, hrest, h⟩ := Option.bind_eq_some_iff.mp h
    cases h
    obtain ⟨⟨mixed, track⟩, htrack, hsample⟩ := Option.bind_eq_some_iff.mp hsample
    obtain ⟨⟨mixed', voices⟩, -, hsample⟩ := Option.bind_eq_some_iff.mp hsample
    cases hsample
    obtain ⟨hepoch, hnone⟩ := mixTrack_kept htrack
    obtain ⟨hepoch', hnone'⟩ := ih hrest
    exact ⟨hepoch'.trans hepoch, fun h => hnone' (hnone h)⟩

/-- The loop over the samples of two chunks. -/
theorem renderSamples_add (n m : ℕ) (mixer : Mixer) :
    renderSamples sinf paused (n + m) mixer = (do
      let (front, mixer) ← renderSamples sinf paused n mixer
      let (back, mixer) ← renderSamples sinf paused m mixer
      pure (front ++ back, mixer)) := by
  induction n generalizing mixer with
  | zero =>
    rw [Nat.zero_add]
    cases hrest : renderSamples sinf paused m mixer with
    | none => simp [renderSamples, hrest]
    | some rest => simp [renderSamples, hrest]
  | succ n ih =>
    rw [Nat.add_right_comm, renderSamples, renderSamples]
    cases hsample : renderSample sinf paused mixer with
    | none => rfl
    | some sample =>
      simp only [Option.bind_eq_bind, Option.bind_some, ih, Option.bind_assoc]
      rfl

/-- Two renders give the samples and the state of one that is as long as both. -/
theorem render_add (sinf : F32 → F32) (n m : ℕ) (state : State) :
    render sinf (n + m) state = (do
      let (front, state) ← render sinf n state
      let (back, state) ← render sinf m state
      pure (front ++ back, state)) := by
  by_cases henabled : state.enabled = true
  · have hreceived := settled_received state
    have hrender : ∀ count (s : State), s.enabled = true → render sinf count s = (do
        let s := dropStopped (receiveSoundCommands (receiveCommands s))
        let (samples, mixer) ← renderSamples sinf s.soundPaused count ⟨s.backingTrack, s.voices⟩
        pure (samples, s.finish mixer)) := fun count s hs => if_neg (by simp [hs])
    have hkept : (dropStopped (receiveSoundCommands (receiveCommands state))).enabled = true := by
      unfold dropStopped
      split <;> exact henabled
    rw [hrender _ state henabled, hrender _ state henabled]
    generalize dropStopped (receiveSoundCommands (receiveCommands state)) = settled
      at hreceived hkept ⊢
    dsimp only
    rw [renderSamples_add]
    cases hfront :
        renderSamples sinf settled.soundPaused n ⟨settled.backingTrack, settled.voices⟩ with
    | none => rfl
    | some front =>
      obtain ⟨front, mixer⟩ := front
      obtain ⟨hepoch, hnone⟩ := renderSamples_kept hfront
      -- The second render finds nothing to receive and nothing to drop.
      have hsettled : Settled (settled.finish mixer) :=
        ⟨hreceived.read, hreceived.soundRead,
          hreceived.current.imp hnone fun h => ⟨h.1, hepoch.trans h.2⟩⟩
      simp only [Option.bind_eq_bind, Option.bind_some, pure]
      rw [hrender m (settled.finish mixer) hkept, hsettled.received]
      change _ = ((renderSamples sinf settled.soundPaused m mixer).bind fun back =>
        some (back.1, (settled.finish mixer).finish back.2)).bind _
      cases renderSamples sinf settled.soundPaused m mixer with
      | none => rfl
      | some back => rfl
  · have hrender : ∀ count, render sinf count state = some (List.replicate count 0, state) :=
      fun count => if_pos (by simp [henabled])
    rw [hrender, hrender]
    simp [hrender, List.replicate_append_replicate]

/-! ## Renders that end -/

theorem mixTrack_total {track : BackingTrack} (h : Playable track.samples track.sampleCount) :
    ∃ mixed track', mixTrack paused track = some (mixed, track') ∧
      Playable track'.samples track'.sampleCount := by
  rw [mixTrack]
  split
  · next hplays =>
    simp only [Bool.and_eq_true, decide_eq_true_eq] at hplays
    rcases h with hnone | ⟨values, hvalues, hle⟩
    · omega
    · have hlt : track.position < values.length := by omega
      refine ⟨F32Primitives.add .zero (trackValue values[track.position] track.volume),
        { track with position := track.position + 1 }, ?_, .inr ⟨values, hvalues, hle⟩⟩
      rw [hvalues, Option.bind_eq_bind, Option.bind_some, List.getElem?_eq_getElem hlt,
        Option.bind_eq_bind, Option.bind_some]
      rfl
  · exact ⟨_, track, rfl, h⟩

theorem mixVoice_total {mixed : F32 × Vector Voice voiceCount}
    (h : ∀ i : Fin voiceCount, mixed.2[i].effect.samples ≠ 1) (i : Fin voiceCount) :
    ∃ mixed', mixVoice sinf mixed i = some mixed' ∧
      ∀ i : Fin voiceCount, mixed'.2[i].effect.samples ≠ 1 := by
  rw [mixVoice]
  split
  · exact ⟨mixed, rfl, h⟩
  · next hbusy =>
    rw [Bool.not_eq_true] at hbusy
    have hne := h i
    have hposition : mixed.2[i].position < mixed.2[i].effect.samples := by
      simpa [Voice.isFree] using hbusy
    obtain ⟨sample, next, hsample, heffect, -⟩ := @nextSample_ok _ sinf mixed.2[i] (by omega) hbusy
    rw [hsample]
    refine ⟨_, rfl, fun j => ?_⟩
    by_cases hij : i = j
    · subst hij
      simpa [heffect] using hne
    · have hne' : (i : ℕ) ≠ j := fun heq => hij (Fin.ext heq)
      simpa [Vector.getElem_set_ne, hne'] using h j

theorem mixVoices_total {mixed : F32 × Vector Voice voiceCount}
    (h : ∀ i : Fin voiceCount, mixed.2[i].effect.samples ≠ 1) (indices : List (Fin voiceCount)) :
    ∃ mixed', indices.foldlM (mixVoice sinf) mixed = some mixed' ∧
      ∀ i : Fin voiceCount, mixed'.2[i].effect.samples ≠ 1 := by
  induction indices generalizing mixed with
  | nil => exact ⟨mixed, rfl, h⟩
  | cons i indices ih =>
    obtain ⟨next, hnext, hvoices⟩ := mixVoice_total h i
    obtain ⟨last, hlast, hvoices'⟩ := ih hvoices
    refine ⟨last, ?_, hvoices'⟩
    rw [List.foldlM_cons, hnext]
    exact hlast

theorem renderSamples_total (count : ℕ) {mixer : Mixer}
    (hvoices : ∀ i : Fin voiceCount, mixer.voices[i].effect.samples ≠ 1)
    (htrack : Playable mixer.track.samples mixer.track.sampleCount) :
    ∃ samples mixer', renderSamples sinf paused count mixer = some (samples, mixer') ∧
      samples.length = count ∧ (∀ i : Fin voiceCount, mixer'.voices[i].effect.samples ≠ 1) ∧
      Playable mixer'.track.samples mixer'.track.sampleCount := by
  induction count generalizing mixer with
  | zero => exact ⟨[], mixer, rfl, rfl, hvoices, htrack⟩
  | succ count ih =>
    obtain ⟨mixed, track, hmixed, htrack'⟩ := @mixTrack_total _ paused _ htrack
    obtain ⟨⟨mixed', voices⟩, hmixed', hvoices'⟩ :=
      @mixVoices_total _ sinf (mixed, mixer.voices) hvoices (List.finRange voiceCount)
    obtain ⟨samples, last, hsamples, hlength, hkept⟩ := @ih ⟨track, voices⟩ hvoices' htrack'
    have hsample : renderSample sinf paused mixer = some (toPcm mixed', ⟨track, voices⟩) := by
      simp only [renderSample, hmixed, Option.bind_eq_bind, Option.bind_some, hmixed']
      rfl
    refine ⟨toPcm mixed' :: samples, last, ?_, congrArg (· + 1) hlength, hkept⟩
    simp only [renderSamples, hsample, Option.bind_eq_bind, Option.bind_some, hsamples]
    rfl

/-- A render of a valid state ends, with as many samples as were asked for. -/
theorem render_total (sinf : F32 → F32) (count : ℕ) (h : Valid state) :
    ∃ samples after, render sinf count state = some (samples, after) ∧
      samples.length = count ∧ Valid after := by
  by_cases henabled : state.enabled = true
  · have hvalid := h.receiveCommands.receiveSoundCommands.dropStopped
    rw [render, if_neg (by simp [henabled])]
    generalize AudioRender.dropStopped (AudioRender.receiveSoundCommands
      (AudioRender.receiveCommands state)) = received at hvalid ⊢
    obtain ⟨samples, mixer, hsamples, hlength, hvoices, htrack⟩ :=
      @renderSamples_total _ sinf received.soundPaused count
        ⟨received.backingTrack, received.voices⟩ hvalid.voices hvalid.track
    refine ⟨samples, received.finish mixer, ?_, hlength,
      ⟨hvoices, hvalid.commands, htrack, hvalid.soundCommands⟩⟩
    dsimp only
    rw [hsamples]
    rfl
  · exact ⟨_, state, if_pos (by simp [henabled]), List.length_replicate, h⟩

end

end AudioRender

end Speck
