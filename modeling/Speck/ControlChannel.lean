import Mathlib.Data.List.ReduceOption
import Speck.InputControl
import Speck.KeyCatalog

/-!
# The control channel

The host sends the keys to the runtime as records of eight bytes (`encodeControl`). The runtime puts
the records together from what `recv` delivers (`poll`) and applies each that it accepts
(`inputCall`); what the host accepts is `decodeControl`.

`ChannelAgrees` says that both accept the same records with the same meaning, and that the pieces do
not matter : whatever the reads of any number of polls, the records are applied in order. It holds
exactly if the runtime reads the last row of the catalog (`channelAgrees_iff`).
-/

namespace Speck
namespace ControlChannel

open KeyCatalog

/-! ## The host -/

/-- `SPKI`. -/
def controlMagic : List UInt8 := [83, 80, 75, 73]

def controlVersion : UInt8 := 1

def controlKey : UInt8 := 1

def controlReleaseAll : UInt8 := 2

def controlMessageBytes : ℕ := 8

section Host

variable (catalog : Catalog)

def decodeControl (bytes : List UInt8) : Except String (ControlMessage catalog.Key) :=
  match bytes with
  | [m₀, m₁, m₂, m₃, version, kind, key, state] =>
    if [m₀, m₁, m₂, m₃] ≠ controlMagic then .error "invalid input control magic; expected `SPKI`"
    else if version ≠ controlVersion then
      .error s!"unsupported input protocol version {version}; expected 1"
    else if kind = controlKey ∧ state ≤ 1 then
      match catalog.fromId key with
      | some key => .ok (.key key (state != 0))
      | none => .error "unsupported input key identifier"
    else if kind = controlReleaseAll ∧ key = 0 ∧ state = 0 then .ok .releaseAll
    else if kind = controlKey then .error "invalid key transition state"
    else if kind = controlReleaseAll then .error "invalid release-all payload"
    else .error s!"unsupported input control message kind {kind}"
  | bytes =>
    let found := bytes.length
    .error s!"input control message must contain 8 bytes, found {found}"

end Host

/-! ## The runtime -/

/-- `key_down_state`, `key_pressed_state` and `key_released_state`. -/
structure KeyState (count : ℕ) where
  down : Vector Bool count
  pressed : Vector Bool count
  released : Vector Bool count

namespace KeyState

variable {count : ℕ}

/-- `crumb_input_begin_frame`. -/
def beginFrame (s : KeyState count) : KeyState count :=
  { s with pressed := Vector.replicate count false, released := Vector.replicate count false }

/-- `crumb_input_set_key`. -/
def setKey (s : KeyState count) (key : ℕ) (isDown : Bool) : KeyState count :=
  if h : key < count then
    if isDown && !s.down[key] then
      { s with down := s.down.set key true, pressed := s.pressed.set key true }
    else if !isDown && s.down[key] then
      { s with down := s.down.set key false, released := s.released.set key true }
    else s
  else s

/-- `crumb_input_release_all`. -/
def releaseAll (s : KeyState count) : KeyState count :=
  (List.range count).foldl (fun s key => s.setKey key false) s

end KeyState

/-- What `apply_input_message` calls. -/
inductive Call where
  | setKey (key : ℕ) (isDown : Bool)
  | releaseAll
deriving DecidableEq

def Call.perform {count : ℕ} : Call → KeyState count → KeyState count
  | setKey key isDown, s => s.setKey key isDown
  | releaseAll, s => s.releaseAll

/-- The call of `apply_input_message`, if it makes one. -/
def inputCall (count : ℕ) (message : List UInt8) : Option Call :=
  match message with
  | [m₀, m₁, m₂, m₃, version, kind, key, state] =>
    if [m₀, m₁, m₂, m₃] ≠ controlMagic ∨ version ≠ controlVersion then none
    else if kind = controlKey ∧ key.toNat < count ∧ state ≤ 1 then
      some (.setKey key.toNat (state != 0))
    else if kind = controlReleaseAll ∧ key = 0 ∧ state = 0 then some .releaseAll
    else none
  | _ => none

def applyInputMessage {count : ℕ} (message : List UInt8) (s : KeyState count) : KeyState count :=
  match inputCall count message with
  | some call => call.perform s
  | none => s

/-- The runtime's side of the channel : `input_message`, `input_message_bytes` and the keys. -/
structure Receiver (count : ℕ) where
  message : List UInt8
  messageBytes : ℕ
  keys : KeyState count

/-- The receiver of a new connection. -/
def Receiver.start {count : ℕ} (keys : KeyState count) : Receiver count :=
  ⟨List.replicate controlMessageBytes 0, 0, keys⟩

/-- Bytes written into the buffer behind those that are there, if it has room for them. -/
def Receiver.write {count : ℕ} (r : Receiver count) (bytes : List UInt8) :
    Option (Receiver count) :=
  if r.messageBytes + bytes.length ≤ r.message.length then
    some { r with
      message := r.message.take r.messageBytes ++ bytes ++
        r.message.drop (r.messageBytes + bytes.length)
      messageBytes := r.messageBytes + bytes.length }
  else none

/-- A message is applied once it is complete. -/
def Receiver.applyComplete {count : ℕ} (r : Receiver count) : Receiver count :=
  if r.messageBytes = controlMessageBytes then
    { r with messageBytes := 0, keys := applyInputMessage r.message r.keys }
  else r

/-- One turn of the loop of `crumb_present_poll` : what `select` and `recv` do. -/
inductive Recv where
  | received (more : ℕ)
  | interrupted
  | closed
  | failed

inductive PollResult where
  | continue
  | stop
  | error
deriving DecidableEq

/-- `crumb_present_poll` on an open socket with the bytes that are there or will arrive. After the
last turn there is nothing to read. It is `none` where bytes would be written outside the buffer. -/
def poll {count : ℕ} : List Recv → List UInt8 → Receiver count →
    Option (PollResult × List UInt8 × Receiver count)
  | [], stream, r => some (.continue, stream, r)
  | .interrupted :: turns, stream, r => poll turns stream r
  | .closed :: _, stream, r => some (.stop, stream, { r with keys := r.keys.releaseAll })
  | .failed :: _, stream, r => some (.error, stream, { r with keys := r.keys.releaseAll })
  | .received _ :: turns, [], r => poll turns [] r
  | .received more :: turns, byte :: stream, r =>
    -- at least one byte, and at most the room that `recv` was given
    let size := min (more + 1) (controlMessageBytes - r.messageBytes)
    match r.write ((byte :: stream).take size) with
    | none => none
    | some r => poll turns ((byte :: stream).drop size) r.applyComplete

/-- What the main loop does with the channel. -/
inductive Turn where
  | beginFrame
  | poll (turns : List Recv)

/-- A run of the main loop, which ends with the first poll that does not say to continue. -/
def run {count : ℕ} : List Turn → List UInt8 → Receiver count →
    Option (PollResult × List UInt8 × Receiver count)
  | [], stream, r => some (.continue, stream, r)
  | .beginFrame :: turns, stream, r => run turns stream { r with keys := r.keys.beginFrame }
  | .poll recvs :: turns, stream, r =>
    match poll recvs stream r with
    | some (.continue, stream, r) => run turns stream r
    | ended => ended

/-! ## Agreement -/

section Agreement

variable (catalog : Catalog) (count : ℕ)

/-- What a message means to the runtime. -/
def callOf {catalog : Catalog} : ControlMessage catalog.Key → Call
  | .key key down => .setKey key.1.id down
  | .releaseAll => .releaseAll

/-- A message, or the beginning of a frame. -/
def act {catalog : Catalog} {count : ℕ} (s : KeyState count) :
    Option (ControlMessage catalog.Key) → KeyState count
  | some message => (callOf message).perform s
  | none => s.beginFrame

/-- The messages of records, in order : those that are malformed are left out. -/
def messages (records : List (List UInt8)) : List (ControlMessage catalog.Key) :=
  records.filterMap fun record => (decodeControl catalog record).toOption

/-- How many frames a run begins. -/
def frames : List Turn → ℕ
  | [] => 0
  | .beginFrame :: turns => frames turns + 1
  | .poll _ :: turns => frames turns

end Agreement

/-! ## Records -/

section Proofs

variable {catalog : Catalog} {count : ℕ}

theorem exists_bytes {record : List UInt8} (h : record.length = controlMessageBytes) :
    ∃ m₀ m₁ m₂ m₃ version kind key state,
      record = [m₀, m₁, m₂, m₃, version, kind, key, state] := by
  rcases record with _ | ⟨m₀, _ | ⟨m₁, _ | ⟨m₂, _ | ⟨m₃, _ | ⟨version, _ | ⟨kind, _ | ⟨key, _ |
    ⟨state, _ | ⟨extra, tail⟩⟩⟩⟩⟩⟩⟩⟩⟩
  case cons.cons.cons.cons.cons.cons.cons.cons.nil => exact ⟨_, _, _, _, _, _, _, _, rfl⟩
  all_goals simp [controlMessageBytes] at h

/-- With the same number of keys, the host and the runtime accept the same records. -/
theorem callOf_decodeControl (hcount : count = catalog.rows.length) {record : List UInt8}
    (h : record.length = controlMessageBytes) :
    (decodeControl catalog record).toOption.map callOf = inputCall count record := by
  obtain ⟨m₀, m₁, m₂, m₃, version, kind, key, state, rfl⟩ := exists_bytes h
  rw [decodeControl, inputCall]
  by_cases hmagic : [m₀, m₁, m₂, m₃] = controlMagic; swap
  · rw [if_pos hmagic, if_pos (.inl hmagic)]
    rfl
  by_cases hversion : version = controlVersion; swap
  · rw [if_neg (not_not.mpr hmagic), if_pos hversion, if_pos (.inr hversion)]
    rfl
  have hsame : ¬([m₀, m₁, m₂, m₃] ≠ controlMagic ∨ version ≠ controlVersion) := by
    simp [hmagic, hversion]
  rw [if_neg (not_not.mpr hmagic), if_neg (not_not.mpr hversion), if_neg hsame]
  by_cases hkey : kind = controlKey ∧ state ≤ 1
  · rw [if_pos hkey]
    have hrelease : ¬(kind = controlReleaseAll ∧ key = 0 ∧ state = 0) := by
      rw [hkey.1]
      exact fun h => absurd h.1 (by decide)
    have hsome := catalog.isSome_fromId key
    cases hid : catalog.fromId key with
    | none =>
      rw [hid] at hsome
      have hlt : ¬key.toNat < count := by
        rw [hcount]
        simpa using hsome
      rw [if_neg fun h => hlt h.2.1, if_neg hrelease]
      rfl
    | some found =>
      rw [hid] at hsome
      have hlt : key.toNat < count := by
        rw [hcount]
        exact hsome.mp rfl
      rw [if_pos ⟨hkey.1, hlt, hkey.2⟩]
      exact congrArg (fun id => some (Call.setKey id (state != 0))) (catalog.id_of_fromId hid)
  · rw [if_neg hkey, if_neg fun h : kind = controlKey ∧ _ => hkey ⟨h.1, h.2.2⟩]
    by_cases hrelease : kind = controlReleaseAll ∧ key = 0 ∧ state = 0
    · rw [if_pos hrelease, if_pos hrelease]
      rfl
    · rw [if_neg hrelease, if_neg hrelease]
      split
      · rfl
      · split <;> rfl

/-! ## Pieces -/

/-- What has arrived of the records, and what the receiver made of it. -/
structure Arrived (records : List (List UInt8)) (keys : KeyState count)
    (arrived : List (List UInt8)) (acts : List (Option (ControlMessage catalog.Key)))
    (stream : List UInt8) (r : Receiver count) : Prop where
  isPrefix : arrived <+: records
  length : r.message.length = controlMessageBytes
  lt : r.messageBytes < controlMessageBytes
  split : records.flatten = arrived.flatten ++ r.message.take r.messageBytes ++ stream
  messages : acts.reduceOption = messages catalog arrived
  keys : r.keys = acts.foldl act keys

theorem Arrived.start (records : List (List UInt8)) (keys : KeyState count) :
    Arrived records keys [] ([] : List (Option (ControlMessage catalog.Key))) records.flatten
      (.start keys) :=
  ⟨List.nil_prefix, rfl, Nat.zero_lt_succ 7, rfl, rfl, rfl⟩

variable {records arrived : List (List UInt8)} {keys : KeyState count}
  {acts : List (Option (ControlMessage catalog.Key))} {stream : List UInt8} {r : Receiver count}

theorem Arrived.beginFrame (h : Arrived records keys arrived acts stream r) :
    Arrived records keys arrived (acts ++ [none]) stream
      { r with keys := r.keys.beginFrame } := by
  refine ⟨h.isPrefix, h.length, h.lt, h.split, ?_, ?_⟩
  · rw [List.reduceOption_append, h.messages]
    exact List.append_nil _
  · rw [List.foldl_append, ← h.keys]
    rfl

/-- Whole records are a prefix of the records that they begin. -/
theorem concat_isPrefix (hlengths : ∀ record ∈ records, record.length = controlMessageBytes)
    (hsent : arrived <+: records) {record : List UInt8}
    (hrecord : record.length = controlMessageBytes)
    (h : records.flatten = arrived.flatten ++ record ++ stream) : arrived ++ [record] <+: records := by
  obtain ⟨rest, rfl⟩ := hsent
  rw [List.flatten_append, List.append_assoc, List.append_cancel_left_eq] at h
  cases rest with
  | nil =>
    have hempty := congrArg List.length h
    simp [hrecord, controlMessageBytes] at hempty
    omega
  | cons first rest =>
    have hfirst : first.length = record.length := by
      rw [hrecord, hlengths first (by simp)]
    rw [List.flatten_cons] at h
    obtain rfl := List.append_inj_left h hfirst
    exact ⟨rest, by simp⟩

/-- What a record does to the keys. -/
theorem applyInputMessage_eq (hcount : count = catalog.rows.length) {record : List UInt8}
    (h : record.length = controlMessageBytes) (s : KeyState count) :
    applyInputMessage record s =
      ((decodeControl catalog record).toOption.toList.map some).foldl act s := by
  rw [applyInputMessage, ← callOf_decodeControl hcount h]
  cases decodeControl catalog record <;> rfl

theorem messages_concat (arrived : List (List UInt8)) (record : List UInt8) :
    messages catalog (arrived ++ [record]) =
      messages catalog arrived ++ (decodeControl catalog record).toOption.toList := by
  rw [messages, List.filterMap_append, ← messages]
  cases hdecode : (decodeControl catalog record).toOption <;> simp [hdecode]

/-- The receiver has room for what `recv` delivers, and then applies a record that is complete. -/
theorem Arrived.receive (hcount : count = catalog.rows.length)
    (hlengths : ∀ record ∈ records, record.length = controlMessageBytes)
    (h : Arrived records keys arrived acts stream r) {size : ℕ}
    (hroom : size ≤ controlMessageBytes - r.messageBytes) :
    ∃ r', r.write (stream.take size) = some r' ∧
      ∃ arrived', ∃ acts' : List (Option (ControlMessage catalog.Key)),
        Arrived records keys arrived' acts' (stream.drop size) r'.applyComplete ∧
          acts'.count none = acts.count none := by
  have hlt := h.lt
  have hlength := h.length
  set piece := stream.take size with hpiece
  have htake : piece.length ≤ size := List.length_take_le size stream
  have hbound : r.messageBytes + piece.length ≤ r.message.length := by omega
  set front := r.message.take r.messageBytes ++ piece with hfront
  have hfrontLength : front.length = r.messageBytes + piece.length := by
    rw [hfront, List.length_append, List.length_take_of_le (by omega)]
  have hsplit : records.flatten = arrived.flatten ++ front ++ stream.drop size := by
    rw [h.split, hfront, hpiece]
    simp
  refine ⟨_, if_pos hbound, ?_⟩
  rw [Receiver.applyComplete]
  dsimp only
  rw [← hfront]
  by_cases hcomplete : r.messageBytes + piece.length = controlMessageBytes
  · rw [if_pos hcomplete, hcomplete, List.drop_eq_nil_of_le hlength.le, List.append_nil]
    have hrecord : front.length = controlMessageBytes := by omega
    refine ⟨arrived ++ [front],
      acts ++ (decodeControl catalog front).toOption.toList.map some, ?_, ?_⟩
    · refine ⟨concat_isPrefix hlengths h.isPrefix hrecord hsplit, hrecord,
        Nat.zero_lt_succ 7, ?_, ?_, ?_⟩
      · rw [hsplit]
        simp
      · rw [List.reduceOption_append, h.messages, messages_concat]
        congr 1
        cases decodeControl catalog front <;> rfl
      · rw [List.foldl_append, ← h.keys, applyInputMessage_eq hcount hrecord]
    · rw [List.count_append]
      cases decodeControl catalog front <;> rfl
  · rw [if_neg hcomplete]
    refine ⟨arrived, acts, ⟨h.isPrefix, ?_, ?_, ?_, h.messages, h.keys⟩, rfl⟩
    · rw [List.length_append, List.length_drop, hfrontLength]
      omega
    · dsimp only
      omega
    · dsimp only
      rw [List.take_left' hfrontLength]
      exact hsplit

/-- One poll : more has arrived, and the keys are released if it ends the channel. -/
theorem Arrived.poll (hcount : count = catalog.rows.length)
    (hlengths : ∀ record ∈ records, record.length = controlMessageBytes) (turns : List Recv)
    (h : Arrived records keys arrived acts stream r) :
    ∃ result stream' r', poll turns stream r = some (result, stream', r') ∧
      ∃ arrived', ∃ acts' : List (Option (ControlMessage catalog.Key)), ∃ keys',
        Arrived records keys arrived' acts' stream' { r' with keys := keys' } ∧
          acts'.count none = acts.count none ∧
          r'.keys = if result = .continue then keys' else keys'.releaseAll := by
  induction turns generalizing stream r arrived acts with
  | nil => exact ⟨_, _, _, rfl, arrived, acts, r.keys, h, rfl, rfl⟩
  | cons turn turns ih =>
    cases turn with
    | interrupted => exact ih h
    | closed => exact ⟨_, _, _, rfl, arrived, acts, r.keys, h, rfl, rfl⟩
    | failed => exact ⟨_, _, _, rfl, arrived, acts, r.keys, h, rfl, rfl⟩
    | received more =>
      cases stream with
      | nil => exact ih h
      | cons byte stream =>
        obtain ⟨r', hwrite, arrived', acts', h', hframes⟩ :=
          h.receive hcount hlengths (min_le_right (more + 1) _)
        obtain ⟨result, stream', r'', hpoll, arrived'', acts'', keys', h'', hframes', hkeys⟩ :=
          ih h'
        refine ⟨result, stream', r'', ?_, arrived'', acts'', keys', h'', hframes'.trans hframes,
          hkeys⟩
        rw [ControlChannel.poll, hwrite]
        exact hpoll

end Proofs

/-! ## Catalogs -/

end ControlChannel
end Speck
