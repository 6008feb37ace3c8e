import Mathlib.Data.List.Induction
import Mathlib.Tactic.Common

/-!
# Input ownership

`InputControl` of `dev/server.rs` : browser clients share the control of one running game.
Every operation holds the same lock, so a run is a sequence of events in some order, each
with what its environment decides : the clock it reads and whether a write succeeds. A
failed write ends the connection, and no complete record of it arrives.

`World` adds what the code does not keep : the generation each connection was made for and
every record written, with the request it serves and the owner at that moment.
`input_ownership` is the safety of every run.
-/

namespace Speck

variable {Key : Type}

inductive ControlMessage (Key : Type) where
  | key (key : Key) (down : Bool)
  | releaseAll
  deriving DecidableEq

inductive BrowserInput (Key : Type) where
  | key (client : String) (key : Key) (down : Bool)
  | releaseAll (client : String)
  | heartbeat (client : String)
  | unsupportedKey (client : String)

def BrowserInput.client : BrowserInput Key → String
  | key client _ _ => client
  | releaseAll client | heartbeat client | unsupportedKey client => client

/-- The record of an input; a heartbeat has none. -/
def BrowserInput.message : BrowserInput Key → Option (ControlMessage Key)
  | key _ pressed down => some (.key pressed down)
  | releaseAll _ => some .releaseAll
  | heartbeat _ | unsupportedKey _ => none

inductive InputResult where
  | accepted
  | ignored
  | busy
  | gameUnavailable
  | staleGeneration
  deriving DecidableEq, Repr

/-- `INPUT_LEASE_TIMEOUT`, in milliseconds. -/
def inputLeaseTimeout : ℕ := 1000

/-- The state behind the lock. A connection is the number of the connections before it. -/
structure InputControlState where
  generation : ℕ
  game : Option ℕ
  owner : Option String
  lastSeen : Option ℕ

def InputControlState.disconnect (state : InputControlState) : InputControlState :=
  { state with game := none, owner := none, lastSeen := none }

/-- A record written to a connection, the request it serves and the owner at that moment. -/
structure Record (Key : Type) where
  connection : ℕ
  message : ControlMessage Key
  request : Option (String × ℕ)
  owner : Option String

structure World (Key : Type) where
  state : InputControlState
  generations : List ℕ
  written : List (Record Key)

namespace World

def start : World Key := ⟨⟨0, none, none, none⟩, [], []⟩

/-- `send_control` : write one record, or give the connection up. -/
def sendControl (w : World Key) (message : ControlMessage Key) (request : Option (String × ℕ))
    (delivered : Bool) : World Key × Bool :=
  match w.state.game with
  | some connection =>
    if delivered then
      ({ w with written := w.written ++ [⟨connection, message, request, w.state.owner⟩] }, true)
    else ({ w with state := w.state.disconnect }, false)
  | none => ({ w with state := w.state.disconnect }, false)

def connectGame (w : World Key) (configured : Bool) (generation : ℕ) : World Key :=
  if configured then
    { w with
      state := ⟨generation, some w.generations.length, none, none⟩
      generations := w.generations ++ [generation] }
  else w

def disconnectGame (w : World Key) : World Key := { w with state := w.state.disconnect }

def apply (w : World Key) (input : BrowserInput Key) (generation now : ℕ) (delivered : Bool) :
    World Key × InputResult :=
  if w.state.game = none then (w, .gameUnavailable)
  else if generation ≠ w.state.generation then (w, .staleGeneration)
  else
    match input with
    | .unsupportedKey _ => (w, .ignored)
    | _ =>
      if w.state.owner.any (· != input.client) then (w, .busy)
      else
        let owner := match w.state.owner with
          | none => some input.client
          | owner => owner
        let w := { w with state := { w.state with owner, lastSeen := some now } }
        let (w, sent) := match input.message with
          | some message => w.sendControl message (some (input.client, generation)) delivered
          | none => (w, true)
        if !sent then (w, .gameUnavailable)
        else
          match input with
          | .releaseAll _ =>
            ({ w with state := { w.state with owner := none, lastSeen := none } }, .accepted)
          | _ => (w, .accepted)

def expireLease (w : World Key) (now : ℕ) (delivered : Bool) : World Key :=
  if w.state.owner.isSome && w.state.lastSeen.any (fun seen => inputLeaseTimeout ≤ now - seen) then
    let (w, _) := w.sendControl .releaseAll none delivered
    { w with state := { w.state with owner := none, lastSeen := none } }
  else w

def releaseAndDisconnect (w : World Key) (delivered : Bool) : World Key :=
  let (w, _) := w.sendControl .releaseAll none delivered
  w.disconnectGame

end World

/-- One operation, with its environment's choices. -/
inductive Event (Key : Type) where
  | connectGame (configured : Bool) (generation : ℕ)
  | disconnectGame
  | apply (input : BrowserInput Key) (generation now : ℕ) (delivered : Bool)
  | expireLease (now : ℕ) (delivered : Bool)
  | releaseAndDisconnect (delivered : Bool)

namespace World

def step (w : World Key) : Event Key → World Key
  | .connectGame configured generation => w.connectGame configured generation
  | .disconnectGame => w.disconnectGame
  | .apply input generation now delivered => (w.apply input generation now delivered).1
  | .expireLease now delivered => w.expireLease now delivered
  | .releaseAndDisconnect delivered => w.releaseAndDisconnect delivered

/-- Any interleaving of operations, from the first one on. -/
def run (events : List (Event Key)) : World Key := events.foldl step start

/-- The records of one connection. -/
def recordsOn (w : World Key) (connection : ℕ) : List (Record Key) :=
  w.written.filter fun r => r.connection == connection

end World

/-! ## Records -/

/-- What the game makes of the records : is the key held? -/
def held [DecidableEq Key] (records : List (Record Key)) (key : Key) : Bool :=
  records.foldl (fun held r =>
    match r.message with
    | .key k down => if k = key then down else held
    | .releaseAll => false) false

/-- The records since the last release-all. -/
def sinceRelease (records : List (Record Key)) : List (Record Key) :=
  records.foldl (fun recent r =>
    match r.message with
    | .key _ _ => recent ++ [r]
    | .releaseAll => []) []

def Record.isKey (r : Record Key) : Prop := ∃ key down, r.message = .key key down

theorem sinceRelease_concat (records : List (Record Key)) (r : Record Key) :
    sinceRelease (records ++ [r]) = match r.message with
      | .key _ _ => sinceRelease records ++ [r]
      | .releaseAll => [] := by
  simp [sinceRelease]

/-- A held key was pressed since the last release-all. -/
theorem sinceRelease_ne_nil_of_held [DecidableEq Key] {records : List (Record Key)} {key : Key}
    (h : held records key = true) : sinceRelease records ≠ [] := by
  induction records using List.reverseRecOn with
  | nil => simp [held] at h
  | append_singleton records r ih =>
    rw [sinceRelease_concat]
    cases hm : r.message with
    | key k down => simp
    | releaseAll => simp [held, hm] at h

theorem mem_sinceRelease {pre mid : List (Record Key)} {r : Record Key} (hr : r.isKey)
    (hmid : ∀ m ∈ mid, m.message ≠ .releaseAll) : r ∈ sinceRelease (pre ++ r :: mid) := by
  induction mid using List.reverseRecOn with
  | nil =>
    obtain ⟨key, down, hm⟩ := hr
    rw [sinceRelease_concat, hm]
    simp
  | append_singleton mid m ih =>
    rw [← List.cons_append, ← List.append_assoc, sinceRelease_concat]
    cases hm : m.message with
    | key k down =>
      exact List.mem_append_left _ (ih fun m' hm' => hmid m' (List.mem_append_left _ hm'))
    | releaseAll => exact absurd hm (hmid m (by simp))

/-! ## The invariant -/

/-- A key record serves a request of the connection's generation, whose client owns the
input. -/
def Attributed (generations : List ℕ) (r : Record Key) : Prop :=
  ∃ client generation, r.request = some (client, generation) ∧ r.owner = some client ∧
    generations[r.connection]? = some generation

/-- No key record has one of another owner before it since the last release-all. -/
def Separated (records : List (Record Key)) : Prop :=
  ∀ pre r, (pre ++ [r]) <+: records → r.isKey → ∀ a ∈ sinceRelease pre, a.owner = r.owner

structure Owned (w : World Key) : Prop where
  live : ∀ c, w.state.game = some c → w.generations[c]? = some w.state.generation
  lease : w.state.owner.isSome = w.state.lastSeen.isSome
  known : ∀ r ∈ w.written, r.connection < w.generations.length
  attributed : ∀ r ∈ w.written, r.isKey → Attributed w.generations r
  recent : ∀ c, w.state.game = some c → ∀ r ∈ sinceRelease (w.recordsOn c),
    w.state.owner.isSome ∧ r.owner = w.state.owner
  separated : ∀ c, Separated (w.recordsOn c)

theorem Separated.concat {records : List (Record Key)} (h : Separated records) {r : Record Key}
    (hr : r.isKey → ∀ a ∈ sinceRelease records, a.owner = r.owner) : Separated (records ++ [r]) := by
  intro pre b hprefix hkey a ha
  rcases List.prefix_concat_iff.mp hprefix with heq | hprefix
  · obtain ⟨rfl, rfl⟩ := List.append_singleton_inj.mp heq
    exact hr hkey a ha
  · exact h pre b hprefix hkey a ha

namespace Owned

variable {w : World Key}

theorem start : Owned (World.start : World Key) := by
  constructor <;> simp [World.start, World.recordsOn, sinceRelease, Separated]

/-- Giving the connection up keeps the invariant. -/
theorem disconnect (h : Owned w) : Owned { w with state := w.state.disconnect } :=
  ⟨fun _ hc => (nomatch hc), rfl, h.known, h.attributed, fun _ hc => (nomatch hc), h.separated⟩

/-- A record written on behalf of the owner keeps the invariant. -/
theorem sendControl (h : Owned w) (message : ControlMessage Key) (request : Option (String × ℕ))
    (hkey : ∀ key down, message = .key key down →
      ∃ client, request = some (client, w.state.generation) ∧ w.state.owner = some client)
    (delivered : Bool) : Owned (w.sendControl message request delivered).1 := by
  unfold World.sendControl
  cases hgame : w.state.game with
  | none => exact h.disconnect
  | some c =>
    cases delivered with
    | false => exact h.disconnect
    | true =>
      have hlive := h.live c hgame
      have hon : ∀ c', World.recordsOn { w with
          written := w.written ++ [⟨c, message, request, w.state.owner⟩] } c' =
          if c' = c then w.recordsOn c ++ [⟨c, message, request, w.state.owner⟩]
          else w.recordsOn c' := by
        intro c'
        by_cases hc : c' = c
        · simp [World.recordsOn, hc]
        · simp [World.recordsOn, hc, Ne.symm hc]
      refine ⟨h.live, h.lease, ?_, ?_, fun c' hc' r hr => ?_, fun c' => ?_⟩
      · simp only [if_true, List.forall_mem_append, List.forall_mem_singleton]
        exact ⟨h.known, (List.getElem?_eq_some_iff.mp hlive).1⟩
      · simp only [if_true, List.forall_mem_append, List.forall_mem_singleton]
        refine ⟨h.attributed, fun ⟨key, down, hm⟩ => ?_⟩
        obtain ⟨client, hreq, howner⟩ := hkey key down hm
        exact ⟨client, _, hreq, howner, hlive⟩
      · obtain rfl : c = c' := Option.some.inj (hgame.symm.trans hc')
        simp only [if_true, hon, sinceRelease_concat] at hr
        cases hm : message with
        | releaseAll => simp [hm] at hr
        | key key down =>
          simp only [hm, List.mem_append, List.mem_singleton] at hr
          obtain ⟨client, -, howner⟩ := hkey key down hm
          rcases hr with hr | rfl
          · exact h.recent c hgame r hr
          · exact ⟨by simp [howner], rfl⟩
      · simp only [if_true, hon]
        split
        · next hc =>
          subst hc
          exact (h.separated c').concat fun _ a ha => (h.recent c' hgame a ha).2
        · exact h.separated c'

theorem connectGame (h : Owned w) (configured : Bool) (generation : ℕ) :
    Owned (w.connectGame configured generation) := by
  cases configured with
  | false => exact h
  | true =>
    -- the new connection has no records yet
    have hnew : World.recordsOn w w.generations.length = [] := by
      rw [World.recordsOn, List.filter_eq_nil_iff]
      intro r hr
      have := h.known r hr
      simp only [beq_iff_eq]
      omega
    refine ⟨fun c hc => ?_, rfl, fun r hr => ?_, fun r hr hkey => ?_, fun c hc r hr => ?_,
      h.separated⟩
    · obtain rfl : w.generations.length = c := Option.some.inj hc
      simp [World.connectGame]
    · have := h.known r hr
      simp only [World.connectGame, if_true, List.length_append, List.length_singleton]
      omega
    · obtain ⟨client, generation', hreq, howner, hgen⟩ := h.attributed r hr hkey
      refine ⟨client, generation', hreq, howner, ?_⟩
      simp only [World.connectGame, if_true]
      rw [List.getElem?_append_left (h.known r hr), hgen]
    · obtain rfl : w.generations.length = c := Option.some.inj hc
      have hr : r ∈ sinceRelease (World.recordsOn w w.generations.length) := hr
      simp [hnew, sinceRelease] at hr

/-- Claiming or renewing the lease keeps the invariant, for a client that may own it. -/
theorem claim (h : Owned w) {client : String}
    (hclient : w.state.owner.any (· != client) = false) (now : ℕ) :
    Owned { w with state := { w.state with owner := some client, lastSeen := some now } } := by
  refine ⟨h.live, rfl, h.known, h.attributed, fun c hc r hr => ⟨rfl, ?_⟩, h.separated⟩
  obtain ⟨hsome, howner⟩ := h.recent c hc r hr
  obtain ⟨owner, heq⟩ := Option.isSome_iff_exists.mp hsome
  rw [howner]
  simpa [heq] using hclient

/-- Giving the lease up keeps the invariant once a release-all was written, or the
connection was lost. -/
theorem release (h : Owned w)
    (hnone : ∀ c, w.state.game = some c → sinceRelease (w.recordsOn c) = []) :
    Owned { w with state := { w.state with owner := none, lastSeen := none } } := by
  refine ⟨h.live, rfl, h.known, h.attributed, fun c hc r hr => ?_, h.separated⟩
  have hr : r ∈ sinceRelease (w.recordsOn c) := hr
  rw [hnone c hc] at hr
  simp at hr

end Owned

/-- After a release-all was sent, no key is pressed on the live connection. -/
theorem sinceRelease_sendControl (w : World Key) (request : Option (String × ℕ))
    (delivered : Bool) (c : ℕ) (h : (w.sendControl .releaseAll request delivered).1.state.game = some c) :
    sinceRelease ((w.sendControl .releaseAll request delivered).1.recordsOn c) = [] := by
  unfold World.sendControl at h ⊢
  cases hgame : w.state.game with
  | none => simp [hgame, InputControlState.disconnect] at h
  | some c' =>
    cases delivered with
    | false => simp [hgame, InputControlState.disconnect] at h
    | true =>
      simp only [hgame, if_true, Option.some.injEq] at h
      subst h
      simp [World.recordsOn, sinceRelease_concat]

namespace Owned

variable {w : World Key}

theorem apply (h : Owned w) (input : BrowserInput Key) (generation now : ℕ) (delivered : Bool) :
    Owned (w.apply input generation now delivered).1 := by
  unfold World.apply
  split
  · exact h
  split
  · exact h
  next hgen =>
  obtain rfl : generation = w.state.generation := not_not.mp hgen
  by_cases hany : w.state.owner.any (· != input.client) = true
  · cases input <;> simp only [hany, if_true] <;> exact h
  have hclaim := h.claim (by simpa using hany) now
  have howner : (match w.state.owner with
      | none => some input.client
      | owner => owner) = some input.client := by
    cases ho : w.state.owner with
    | none => rfl
    | some owner => simpa [ho] using hany
  cases input with
  | unsupportedKey client => exact h
  | key client key down =>
    simp only [hany, Bool.false_eq_true, if_false, howner, BrowserInput.message]
    have hsend := hclaim.sendControl (.key key down) (some (client, w.state.generation))
      (fun _ _ _ => ⟨client, rfl, rfl⟩) delivered
    split <;> exact hsend
  | heartbeat client =>
    simp only [hany, Bool.false_eq_true, if_false, howner, BrowserInput.message]
    exact hclaim
  | releaseAll client =>
    simp only [hany, Bool.false_eq_true, if_false, howner, BrowserInput.message]
    have hsend := hclaim.sendControl .releaseAll (some (client, w.state.generation))
      (fun _ _ hm => nomatch hm) delivered
    split
    · exact hsend
    · exact hsend.release fun c hc => sinceRelease_sendControl _ _ _ c hc

theorem expireLease (h : Owned w) (now : ℕ) (delivered : Bool) :
    Owned (w.expireLease now delivered) := by
  unfold World.expireLease
  split
  · have hsend := h.sendControl .releaseAll none
      (fun _ _ hm => nomatch hm) delivered
    exact hsend.release fun c hc => sinceRelease_sendControl _ _ _ c hc
  · exact h

/-- Every operation keeps the invariant. -/
theorem step (h : Owned w) (event : Event Key) : Owned (w.step event) := by
  cases event with
  | connectGame configured generation => exact h.connectGame configured generation
  | disconnectGame => exact h.disconnect
  | apply input generation now delivered => exact h.apply input generation now delivered
  | expireLease now delivered => exact h.expireLease now delivered
  | releaseAndDisconnect delivered =>
    exact (h.sendControl .releaseAll none
      (fun _ _ hm => nomatch hm) delivered).disconnect

theorem run (events : List (Event Key)) : Owned (World.run events) := by
  induction events using List.reverseRecOn with
  | nil => exact .start
  | append_singleton events event ih =>
    rw [World.run, List.foldl_append]
    exact ih.step event

end Owned

/-- Input ownership is safe in every order of events. A key record serves a request of the
generation its connection was made for, whose client is the owner at that moment; key
records of two clients on one connection have a release-all between them; and while a key
is held on the live connection there is a lease, whose expiry releases every key or gives
the connection up. -/
theorem input_ownership [DecidableEq Key] (events : List (Event Key)) :
    (∀ r ∈ (World.run events).written, r.isKey → Attributed (World.run events).generations r) ∧
    (∀ c pre a mid b post, (World.run events).recordsOn c = pre ++ a :: mid ++ b :: post →
      a.isKey → b.isKey → a.owner ≠ b.owner → ∃ r ∈ mid, r.message = .releaseAll) ∧
    ∀ c key, (World.run events).state.game = some c →
      held ((World.run events).recordsOn c) key = true →
      ∃ client seen, (World.run events).state.owner = some client ∧
        (World.run events).state.lastSeen = some seen ∧
        ∀ now delivered, seen + inputLeaseTimeout ≤ now →
          let w := (World.run events).step (.expireLease now delivered)
          if delivered then
            w.recordsOn c =
                (World.run events).recordsOn c ++ [⟨c, .releaseAll, none, some client⟩] ∧
              ∀ key, held (w.recordsOn c) key = false
          else w.state.game = none := by
  have h := Owned.run events
  refine ⟨h.attributed, fun c pre a mid b post heq ha hb hne => ?_, fun c key hc hheld => ?_⟩
  · by_contra hno
    push Not at hno
    refine hne (h.separated c (pre ++ a :: mid) b ?_ hb a (mem_sinceRelease ha hno))
    exact ⟨post, by simp [heq]⟩
  · obtain ⟨r, hr⟩ := List.exists_mem_of_ne_nil _ (sinceRelease_ne_nil_of_held hheld)
    obtain ⟨hsome, -⟩ := h.recent c hc r hr
    obtain ⟨client, howner⟩ := Option.isSome_iff_exists.mp hsome
    obtain ⟨seen, hseen⟩ := Option.isSome_iff_exists.mp (h.lease ▸ hsome)
    refine ⟨client, seen, howner, hseen, fun now delivered hnow => ?_⟩
    have hexpired : inputLeaseTimeout ≤ now - seen := by omega
    cases delivered with
    | true =>
      have hrecords : ((World.run events).step (.expireLease now true)).recordsOn c =
          (World.run events).recordsOn c ++ [⟨c, .releaseAll, none, some client⟩] := by
        simp [World.step, World.expireLease, World.sendControl, World.recordsOn, howner, hseen,
          hexpired, hc]
      refine ⟨hrecords, fun key => ?_⟩
      rw [hrecords]
      simp [held]
    | false =>
      simp [World.step, World.expireLease, World.sendControl, InputControlState.disconnect,
        howner, hseen, hexpired, hc]

end Speck
