import Speck.Bytes
import Speck.KeyCatalog
import Speck.SlotRecord

/-!
# HTTP requests

`read_request` of the development server. The connection hands its bytes over in pieces, each of
which a read takes as far as its buffer goes, and then ends or fails. A run returns the result and
what had been received at each read. `requestOf` is the result as a function of all bytes. Every run
returns it (`readRequest_fst`), so the cuts do not matter, and no read is asked for once the
request has arrived (`readRequest_asks`).
-/

namespace Speck
namespace Http

open KeyCatalog (isWhitespace trim)

/-! ## Steps -/

inductive Halt
  | rejected (message : String)
  | panicked
  deriving DecidableEq, Repr

def reject {α : Type} (message : String) : Except Halt α := .error (.rejected message)

/-- `&bytes[start..stop]`. -/
def slice (bytes : Bytes) (start stop : ℕ) : Except Halt Bytes :=
  if start ≤ stop ∧ stop ≤ bytes.length then .ok ((bytes.drop start).take (stop - start))
  else .error .panicked

/-! ## Text -/

/-- `str::from_utf8`. -/
def fromUtf8 (bytes : Bytes) : Option Text :=
  (ByteArray.mk bytes.toArray).utf8Decode?.map Array.toList

/-- A line without the carriage return before its line feed. -/
def withoutReturn (line : Text) : Text := if line.getLast? = some '\r' then line.dropLast else line

/-- `str::lines`. -/
def lines (text : Text) : List Text :=
  let parts := text.splitOn '\n'
  let rest := parts.getLast?.getD []
  parts.dropLast.map withoutReturn ++ if rest = [] then [] else [rest]

/-- `str::split_whitespace`. -/
def splitWhitespace (text : Text) : List Text := (text.splitOnP isWhitespace).filter (· ≠ [])

/-- `split_once(':')`. -/
def splitColon : Text → Option (Text × Text)
  | [] => none
  | c :: rest =>
    if c = ':' then some ([], rest)
    else (splitColon rest).map fun (front, back) => (c :: front, back)

def toAsciiLowercase (c : Char) : Char :=
  if isAsciiUppercase c then Char.ofNat (c.toNat + 32) else c

/-- `eq_ignore_ascii_case`. -/
def eqIgnoreAsciiCase (a b : Text) : Bool := a.map toAsciiLowercase = b.map toAsciiLowercase

/-- `str::parse` for `usize`. -/
def parseUsize (text : Text) : Option ℕ :=
  let digits := match text with
    | '+' :: rest => rest
    | _ => text
  if digits = [] || !digits.all isAsciiDigit then none
  else if decimalValue digits < 2 ^ 64 then some (decimalValue digits)
  else none

/-! ## The head of a request -/

/-- `HTTP_HEADER_MAX_BYTES`. -/
def headerMaxBytes : ℕ := 8192

/-- `BROWSER_INPUT_MAX_BYTES`. -/
def browserInputMaxBytes : ℕ := 128

def headersExceeded : String := "HTTP request headers exceeded 8192 bytes"

/-- The position of the first empty line. -/
def terminator (bytes : Bytes) : Option ℕ :=
  (List.range (bytes.length - 3)).find? fun i => (bytes.drop i).take 4 = [13, 10, 13, 10]

structure Head where
  method : Text
  path : Text
  contentLength : ℕ

/-- The loop over the headers. -/
def contentLengthOf : List Text → ℕ → Except Halt ℕ
  | [], length => .ok length
  | line :: rest, length =>
    match splitColon line with
    | some (name, value) =>
      if eqIgnoreAsciiCase name "Content-Length".toList then
        match parseUsize (trim value) with
        | some length => contentLengthOf rest length
        | none => reject "HTTP Content-Length was not an unsigned integer"
      else contentLengthOf rest length
    | none => contentLengthOf rest length

/-- What `read_request` makes of the headers. -/
def parseHead (headers : Text) : Except Halt Head :=
  match lines headers with
  | [] => reject "HTTP request was empty"
  | first :: rest =>
    match splitWhitespace first with
    | [] => reject "HTTP request did not include a method"
    | method :: parts =>
      if method ≠ "GET".toList ∧ method ≠ "POST".toList then
        reject "development viewer only accepts GET and POST requests"
      else
        match parts with
        | [] => reject "HTTP request did not include a path"
        | path :: _ => do
          let length ← contentLengthOf rest 0
          if browserInputMaxBytes < length then reject "HTTP request body exceeded 128 bytes"
          else return ⟨method, path, length⟩

/-- The head of what was received, up to the end of the headers. -/
def readHead (request : Bytes) (headerEnd : ℕ) : Except Halt Head := do
  if headerMaxBytes < headerEnd then reject headersExceeded
  else
    match fromUtf8 (← slice request 0 headerEnd) with
    | none => reject "HTTP request headers were not UTF-8"
    | some headers => parseHead headers

/-! ## Reading -/

/-- One read : a part of the first piece, or the end of the connection. -/
def read (ending : Option String) (capacity : ℕ) : List Bytes → Except String (Bytes × List Bytes)
  | [] =>
    match ending with
    | none => .ok ([], [])
    | some error => .error error
  | piece :: more =>
    .ok (piece.take capacity,
      if piece.length ≤ capacity then more else piece.drop capacity :: more)

/-- The result of a run, and what had been received at each of its reads. -/
abbrev Run (α : Type) := Except Halt α × List Bytes

/-- A read before the rest of a run. -/
def Run.after {α : Type} (request : Bytes) (run : Run α) : Run α := (run.1, request :: run.2)

/-- The loop that receives the headers. It returns their end, with what is received and what is
not. -/
def readHeaders (ending : Option String) : ℕ → Bytes → List Bytes → Run (ℕ × Bytes × List Bytes)
  | 0, _, _ => (.error .panicked, [])
  | fuel + 1, request, unread =>
    match terminator request with
    | some position => (.ok (position + 4, request, unread), [])
    | none =>
      if headerMaxBytes ≤ request.length then (reject headersExceeded, [])
      else
        match read ending 1024 unread with
        | .error error => (reject ("could not read HTTP request: " ++ error), [request])
        | .ok (piece, unread) =>
          if piece.length = 0 then
            (reject "HTTP request ended before its headers were complete", [request])
          else (readHeaders ending fuel (request ++ piece) unread).after request

/-- The loop that receives the body. -/
def readBody (ending : Option String) (stop : ℕ) : ℕ → Bytes → List Bytes → Run Bytes
  | 0, _, _ => (.error .panicked, [])
  | fuel + 1, request, unread =>
    if request.length < stop then
      match read ending (min (stop - request.length) 1024) unread with
      | .error error => (reject ("could not read HTTP request body: " ++ error), [request])
      | .ok (piece, unread) =>
        if piece.length = 0 then (reject "HTTP request body was truncated", [request])
        else (readBody ending stop fuel (request ++ piece) unread).after request
    else (.ok request, [])

structure HttpRequest where
  method : Text
  path : Text
  body : Bytes

/-- `read_request`, on a connection that delivers pieces. -/
def readRequest (ending : Option String) (pieces : List Bytes) : Run HttpRequest :=
  match readHeaders ending (pieces.flatten.length + 1) [] pieces with
  | (.error halt, asked) => (.error halt, asked)
  | (.ok (headerEnd, request, unread), asked) =>
    match readHead request headerEnd with
    | .error halt => (.error halt, asked)
    | .ok head =>
      let stop := headerEnd + head.contentLength
      match readBody ending stop (unread.flatten.length + 1) request unread with
      | (.error halt, more) => (.error halt, asked ++ more)
      | (.ok request, more) =>
        ((slice request headerEnd stop).map fun body => ⟨head.method, head.path, body⟩,
          asked ++ more)

/-! ## The result as a function of the bytes -/

/-- What `read_request` returns for all bytes of a connection and its end. -/
def requestOf (bytes : Bytes) (ending : Option String) : Except Halt HttpRequest :=
  match terminator bytes with
  | none =>
    if headerMaxBytes ≤ bytes.length then reject headersExceeded
    else
      match ending with
      | none => reject "HTTP request ended before its headers were complete"
      | some error => reject ("could not read HTTP request: " ++ error)
  | some position =>
    match readHead bytes (position + 4) with
    | .error halt => .error halt
    | .ok head =>
      if bytes.length < position + 4 + head.contentLength then
        match ending with
        | none => reject "HTTP request body was truncated"
        | some error => reject ("could not read HTTP request body: " ++ error)
      else .ok ⟨head.method, head.path, (bytes.drop (position + 4)).take head.contentLength⟩

/-- The whole request has been received, or enough of it to reject it. -/
def Arrived (received : Bytes) : Prop :=
  ∃ position, terminator received = some position ∧
    ∀ head, readHead received (position + 4) = .ok head →
      position + 4 + head.contentLength ≤ received.length

/-! ## The end of the headers -/

section

variable {bytes received : Bytes} {position : ℕ}

theorem terminator_eq_some : terminator bytes = some position ↔
    (bytes.drop position).take 4 = [13, 10, 13, 10] ∧ position + 4 ≤ bytes.length ∧
      ∀ j < position, (bytes.drop j).take 4 ≠ [13, 10, 13, 10] := by
  unfold terminator
  rw [List.find?_range_eq_some]
  simp only [decide_eq_true_eq, List.mem_range, Bool.not_eq_true', decide_eq_false_iff_not]
  constructor
  · rintro ⟨hat, hlt, hbefore⟩
    exact ⟨hat, by omega, hbefore⟩
  · rintro ⟨hat, hle, hbefore⟩
    exact ⟨hat, by omega, hbefore⟩

/-- Four bytes that were received are those of the stream. -/
theorem window_eq (h : received <+: bytes) {i : ℕ} (hi : i + 4 ≤ received.length) :
    (bytes.drop i).take 4 = (received.drop i).take 4 := by
  obtain ⟨rest, rfl⟩ := h
  rw [List.drop_append_of_le_length (by omega), List.take_append_of_le_length]
  rw [List.length_drop]
  omega

/-- The first empty line that was received is the first one of the stream. -/
theorem terminator_mono (h : received <+: bytes) (hposition : terminator received = some position) :
    terminator bytes = some position := by
  obtain ⟨hat, hle, hbefore⟩ := terminator_eq_some.mp hposition
  have hlength := h.length_le
  refine terminator_eq_some.mpr ⟨?_, by omega, fun j hj => ?_⟩
  · rwa [window_eq h hle]
  · rw [window_eq h (by omega)]
    exact hbefore j hj

/-- Without an empty line received, the first one of the stream ends later. -/
theorem length_lt_of_terminator (h : received <+: bytes) (hnone : terminator received = none)
    (hposition : terminator bytes = some position) : received.length < position + 4 := by
  by_contra hle
  obtain ⟨hat, -, hbefore⟩ := terminator_eq_some.mp hposition
  have hreceived : terminator received = some position := by
    refine terminator_eq_some.mpr ⟨?_, by omega, fun j hj => ?_⟩
    · rwa [← window_eq h (by omega)]
    · rw [← window_eq h (by omega)]
      exact hbefore j hj
  rw [hnone] at hreceived
  cases hreceived

/-- The head depends on the headers only. -/
theorem readHead_eq (h : received <+: bytes) {headerEnd : ℕ} (hle : headerEnd ≤ received.length) :
    readHead received headerEnd = readHead bytes headerEnd := by
  have hlength := h.length_le
  have hslice : slice received 0 headerEnd = slice bytes 0 headerEnd := by
    obtain ⟨rest, rfl⟩ := h
    rw [slice, slice, if_pos ⟨Nat.zero_le _, hle⟩, if_pos ⟨Nat.zero_le _, by omega⟩,
      List.drop_zero, List.drop_zero, List.take_append_of_le_length (by omega)]
  rw [readHead, readHead, hslice]

/-- The checks of a head that was accepted. -/
theorem parseHead_ok {headers : Text} {head : Head} (h : parseHead headers = .ok head) :
    head.contentLength ≤ browserInputMaxBytes := by
  unfold parseHead at h
  split at h
  · cases h
  split at h
  · cases h
  split at h
  · cases h
  split at h
  · cases h
  obtain ⟨length, -, h⟩ := bind_ok_iff.mp h
  split at h
  · cases h
  · next hlength =>
    obtain rfl := Except.ok.inj h
    exact not_lt.mp hlength

theorem readHead_ok {headerEnd : ℕ} {head : Head} (h : readHead bytes headerEnd = .ok head) :
    headerEnd ≤ headerMaxBytes ∧ head.contentLength ≤ browserInputMaxBytes := by
  unfold readHead at h
  split at h
  · cases h
  · next hend =>
    obtain ⟨text, -, h⟩ := bind_ok_iff.mp h
    split at h
    · cases h
    · exact ⟨not_lt.mp hend, parseHead_ok h⟩

theorem contentLengthOf_ne_panicked (headers : List Text) (length : ℕ) :
    contentLengthOf headers length ≠ .error .panicked := by
  induction headers generalizing length with
  | nil => exact nofun
  | cons line rest ih =>
    unfold contentLengthOf
    split
    · split
      · split
        · exact ih _
        · exact nofun
      · exact ih _
    · exact ih _

theorem parseHead_ne_panicked (headers : Text) : parseHead headers ≠ .error .panicked := by
  unfold parseHead
  split
  · exact nofun
  split
  · exact nofun
  split
  · exact nofun
  split
  · exact nofun
  generalize hcontent : contentLengthOf _ 0 = content
  have hlength : content ≠ .error .panicked := hcontent ▸ contentLengthOf_ne_panicked _ 0
  cases content with
  | error halt => exact fun h => hlength (congrArg Except.error (Except.error.inj h))
  | ok length =>
    rw [ok_bind]
    split
    · exact nofun
    · exact nofun

/-- The slice of the headers is in range. -/
theorem readHead_ne_panicked {headerEnd : ℕ} (h : headerEnd ≤ bytes.length) :
    readHead bytes headerEnd ≠ .error .panicked := by
  unfold readHead
  split
  · exact nofun
  · rw [slice, if_pos ⟨Nat.zero_le _, h⟩, ok_bind]
    split
    · exact nofun
    · exact parseHead_ne_panicked _

end

/-! ## Runs -/

/-- What is received, with what is not, is the stream, and no piece is empty. -/
structure Receiving (bytes request : Bytes) (unread : List Bytes) : Prop where
  pieces : request ++ unread.flatten = bytes
  nonempty : ∀ piece ∈ unread, piece ≠ []

section

variable {bytes request : Bytes} {unread : List Bytes} {ending : Option String}

theorem Receiving.isPrefix (h : Receiving bytes request unread) : request <+: bytes :=
  ⟨_, h.pieces⟩

/-- A read returns a part of what is left, or meets the end when nothing is left. -/
theorem Receiving.read {capacity : ℕ} (hcapacity : 0 < capacity)
    (h : Receiving bytes request unread) :
    (request = bytes ∧ read ending capacity unread =
      (match ending with
        | none => .ok ([], [])
        | some error => .error error)) ∨
    ∃ piece rest, read ending capacity unread = .ok (piece, rest) ∧ 0 < piece.length ∧
      piece.length ≤ capacity ∧ Receiving bytes (request ++ piece) rest ∧
      rest.flatten.length < unread.flatten.length := by
  obtain ⟨hpieces, hnonempty⟩ := h
  cases unread with
  | nil =>
    refine .inl ⟨by simpa using hpieces, ?_⟩
    cases ending <;> rfl
  | cons first more =>
    have hfirst : 0 < first.length := List.length_pos_iff.mpr (hnonempty _ List.mem_cons_self)
    have hmore : ∀ piece ∈ more, piece ≠ [] := fun piece hpiece =>
      hnonempty piece (List.mem_cons_of_mem _ hpiece)
    rw [List.flatten_cons] at hpieces
    refine .inr ⟨_, _, rfl, ?_, ?_, ⟨?_, ?_⟩, ?_⟩
    · rw [List.length_take]
      omega
    · rw [List.length_take]
      exact Nat.min_le_left ..
    · rw [← hpieces]
      split
      · next hle => rw [List.take_of_length_le hle, List.append_assoc]
      · rw [List.flatten_cons, List.append_assoc, ← List.append_assoc (first.take capacity),
          List.take_append_drop]
    · split
      · exact hmore
      · next hle =>
        refine List.forall_mem_cons.mpr ⟨?_, hmore⟩
        rw [← List.length_pos_iff, List.length_drop]
        omega
    · split
      · rw [List.flatten_cons, List.length_append]
        omega
      · rw [List.flatten_cons, List.flatten_cons, List.length_append, List.length_append,
          List.length_drop]
        omega

theorem requestOf_exceeded (h : request <+: bytes) (hnone : terminator request = none)
    (hlength : headerMaxBytes ≤ request.length) : requestOf bytes ending = reject headersExceeded := by
  have hle := h.length_le
  unfold requestOf
  split
  · exact if_pos (by omega)
  · next position hposition =>
    have hlt := length_lt_of_terminator h hnone hposition
    rw [readHead, if_pos (by omega)]
    rfl

/-- The loop receives the headers up to the first empty line of the stream, or rejects the stream
as a whole would be. It reads while it has no empty line. -/
theorem readHeaders_spec {fuel : ℕ} (h : Receiving bytes request unread)
    (hfuel : unread.flatten.length < fuel) :
    ((∃ position request' unread', terminator bytes = some position ∧
        (readHeaders ending fuel request unread).1 = .ok (position + 4, request', unread') ∧
        position + 4 ≤ request'.length ∧ Receiving bytes request' unread') ∨
      ∃ message, (readHeaders ending fuel request unread).1 = reject message ∧
        requestOf bytes ending = reject message) ∧
    ∀ received ∈ (readHeaders ending fuel request unread).2,
      received <+: bytes ∧ terminator received = none := by
  induction fuel generalizing request unread with
  | zero => cases hfuel
  | succ fuel ih =>
    rw [readHeaders]
    split
    · next position hposition =>
      obtain ⟨-, hle, -⟩ := terminator_eq_some.mp hposition
      have hstream := terminator_mono h.isPrefix hposition
      exact ⟨.inl ⟨position, request, unread, hstream, rfl, hle, h⟩, nofun⟩
    next hnone =>
    split
    · next hlength =>
      exact ⟨.inr ⟨_, rfl, requestOf_exceeded h.isPrefix hnone hlength⟩, nofun⟩
    next hlength =>
    have hasked : ∀ received ∈ [request], received <+: bytes ∧ terminator received = none := by
      intro received hreceived
      obtain rfl := List.mem_singleton.mp hreceived
      exact ⟨h.isPrefix, hnone⟩
    rcases h.read (by norm_num : 0 < 1024) with
      ⟨rfl, hread⟩ | ⟨piece, rest, hread, hpos, -, hnext, hless⟩
    · rw [hread]
      cases ending with
      | none =>
        refine ⟨.inr ⟨_, rfl, ?_⟩, hasked⟩
        rw [requestOf, hnone]
        exact if_neg hlength
      | some error =>
        refine ⟨.inr ⟨_, rfl, ?_⟩, hasked⟩
        rw [requestOf, hnone]
        exact if_neg hlength
    · rw [hread]
      dsimp only
      rw [if_neg (by omega)]
      obtain ⟨hresult, hrest⟩ := ih hnext (by omega)
      refine ⟨hresult, List.forall_mem_cons.mpr ⟨⟨h.isPrefix, hnone⟩, hrest⟩⟩

/-- The loop receives the body, or the stream ends before. It reads while the body is not
complete. -/
theorem readBody_spec {fuel stop : ℕ} (h : Receiving bytes request unread)
    (hfuel : unread.flatten.length < fuel) :
    ((∃ request', (readBody ending stop fuel request unread).1 = .ok request' ∧
        stop ≤ request'.length ∧ request' <+: bytes) ∨
      bytes.length < stop ∧ (readBody ending stop fuel request unread).1 =
        (match ending with
          | none => reject "HTTP request body was truncated"
          | some error => reject ("could not read HTTP request body: " ++ error))) ∧
    ∀ received ∈ (readBody ending stop fuel request unread).2,
      request <+: received ∧ received <+: bytes ∧ received.length < stop := by
  induction fuel generalizing request unread with
  | zero => cases hfuel
  | succ fuel ih =>
    rw [readBody]
    split
    · next hlength =>
      have hasked : ∀ received ∈ [request],
          request <+: received ∧ received <+: bytes ∧ received.length < stop := by
        intro received hreceived
        obtain rfl := List.mem_singleton.mp hreceived
        exact ⟨List.prefix_rfl, h.isPrefix, hlength⟩
      have hcapacity : 0 < min (stop - request.length) 1024 := by omega
      rcases h.read hcapacity with ⟨rfl, hread⟩ | ⟨piece, rest, hread, hpos, -, hnext, hless⟩
      · rw [hread]
        cases ending with
        | none => exact ⟨.inr ⟨hlength, rfl⟩, hasked⟩
        | some error => exact ⟨.inr ⟨hlength, rfl⟩, hasked⟩
      · rw [hread]
        dsimp only
        rw [if_neg (by omega)]
        obtain ⟨hresult, hrest⟩ := ih hnext (by omega)
        refine ⟨hresult, List.forall_mem_cons.mpr ⟨hasked _ List.mem_cons_self, ?_⟩⟩
        intro received hreceived
        obtain ⟨hmore, hstream⟩ := hrest received hreceived
        exact ⟨(List.prefix_append request piece).trans hmore, hstream⟩
    · next hlength =>
      exact ⟨.inl ⟨request, rfl, not_lt.mp hlength, h.isPrefix⟩, nofun⟩

end

/-! ## Segmentations -/

/-- A stream of bytes in pieces that are not empty. -/
structure Segmentation (bytes : Bytes) where
  pieces : List Bytes
  nonempty : ∀ piece ∈ pieces, piece ≠ []
  flatten_eq : pieces.flatten = bytes

section

variable {bytes : Bytes} (cut : Segmentation bytes) (ending : Option String)

theorem Segmentation.receiving : Receiving bytes [] cut.pieces := ⟨cut.flatten_eq, cut.nonempty⟩

/-- A run returns what the bytes of the stream say. -/
theorem readRequest_spec : (readRequest ending cut.pieces).1 = requestOf bytes ending ∧
    ∀ received ∈ (readRequest ending cut.pieces).2, received <+: bytes ∧ ¬Arrived received := by
  obtain ⟨hheaders, hasked⟩ :=
    @readHeaders_spec _ _ _ ending (cut.pieces.flatten.length + 1) cut.receiving
      (Nat.lt_succ_self _)
  have hunfinished : ∀ received ∈ (readHeaders ending (cut.pieces.flatten.length + 1) []
      cut.pieces).2, received <+: bytes ∧ ¬Arrived received := by
    intro received hreceived
    obtain ⟨hmore, hnone⟩ := hasked received hreceived
    refine ⟨hmore, ?_⟩
    rintro ⟨position, hposition, -⟩
    rw [hnone] at hposition
    cases hposition
  unfold readRequest
  generalize readHeaders ending (cut.pieces.flatten.length + 1) [] cut.pieces = run at *
  obtain ⟨result, asked⟩ := run
  rcases hheaders with ⟨position, request, unread, hposition, rfl, hle, hreceiving⟩ |
    ⟨message, rfl, hrequest⟩
  · have hhead := readHead_eq hreceiving.isPrefix hle
    have hlength := hreceiving.isPrefix.length_le
    have hpanic := readHead_ne_panicked (hle.trans hlength)
    unfold requestOf
    rw [hposition]
    dsimp only
    rw [hhead]
    cases hreadHead : readHead bytes (position + 4) with
    | error halt => exact ⟨rfl, hunfinished⟩
    | ok head =>
      dsimp only
      obtain ⟨hbody, hbodyAsked⟩ := @readBody_spec _ _ _ ending (unread.flatten.length + 1)
        (position + 4 + head.contentLength) hreceiving (Nat.lt_succ_self _)
      generalize readBody ending (position + 4 + head.contentLength) (unread.flatten.length + 1)
        request unread = run at *
      obtain ⟨result, more⟩ := run
      have hall : ∀ received ∈ asked ++ more, received <+: bytes ∧ ¬Arrived received := by
        intro received hreceived
        rcases List.mem_append.mp hreceived with hreceived | hreceived
        · exact hunfinished received hreceived
        · obtain ⟨hfrom, hstream, hshort⟩ := hbodyAsked received hreceived
          refine ⟨hstream, ?_⟩
          rintro ⟨other, hother, harrived⟩
          have hsame := terminator_mono hstream hother
          rw [hposition] at hsame
          obtain rfl := Option.some.inj hsame
          have hreceivedHead := readHead_eq hstream (hle.trans hfrom.length_le)
          have harrived := harrived head (hreceivedHead.trans hreadHead)
          omega
      rcases hbody with ⟨full, rfl, hstop, hfull⟩ | ⟨hshort, rfl⟩
      · have hfullLength := hfull.length_le
        refine ⟨?_, hall⟩
        rw [if_neg (by omega)]
        dsimp only
        rw [slice, if_pos ⟨Nat.le_add_right _ _, hstop⟩, Nat.add_sub_cancel_left]
        obtain ⟨rest, rfl⟩ := hfull
        rw [List.drop_append_of_le_length (by omega), List.take_append_of_le_length]
        · rfl
        · rw [List.length_drop]
          omega
      · rw [if_pos hshort]
        cases ending with
        | none => exact ⟨rfl, hall⟩
        | some error => exact ⟨rfl, hall⟩
  · exact ⟨hrequest.symm, hunfinished⟩

end

theorem requestOf_ne_panicked (bytes : Bytes) (ending : Option String) :
    requestOf bytes ending ≠ .error .panicked := by
  unfold requestOf
  split
  · split
    · exact nofun
    · split <;> exact nofun
  · next position hposition =>
    obtain ⟨-, hle, -⟩ := terminator_eq_some.mp hposition
    have hhead := readHead_ne_panicked hle
    split
    · next halt hread => exact fun h => hhead (hread.trans (congrArg _ (Except.error.inj h)))
    · split
      · split <;> exact nofun
      · exact nofun

/-- A request that is accepted : its headers end within the limit, and its body is what its length
says, right after them. -/
theorem requestOf_ok {bytes : Bytes} {ending : Option String} {request : HttpRequest}
    (h : requestOf bytes ending = .ok request) :
    ∃ position head, terminator bytes = some position ∧
      readHead bytes (position + 4) = .ok head ∧ position + 4 ≤ headerMaxBytes ∧
      head.contentLength ≤ browserInputMaxBytes ∧
      position + 4 + head.contentLength ≤ bytes.length ∧
      request = ⟨head.method, head.path,
        (bytes.drop (position + 4)).take head.contentLength⟩ := by
  unfold requestOf at h
  split at h
  · split at h
    · cases h
    · split at h <;> cases h
  · next position hposition =>
    split at h
    · cases h
    · next head hread =>
      obtain ⟨hend, hbody⟩ := readHead_ok hread
      split at h
      · split at h <;> cases h
      · next hlength =>
        obtain rfl := Except.ok.inj h
        exact ⟨position, head, hposition, hread, hend, hbody, not_lt.mp hlength, rfl⟩

/-- Two cuts of a stream give the same request, or the same rejection, and no slice is out of
range. The body of an accepted request is the bytes that its length counts, after the first empty
line, and both are within their limits. No read is asked for when the request has arrived. -/
theorem readRequest_segmentation (bytes : Bytes) (ending : Option String)
    (cut other : Segmentation bytes) :
    (readRequest ending cut.pieces).1 = (readRequest ending other.pieces).1 ∧
    (readRequest ending cut.pieces).1 ≠ .error .panicked ∧
    (∀ request, (readRequest ending cut.pieces).1 = .ok request →
      ∃ position head, terminator bytes = some position ∧
        readHead bytes (position + 4) = .ok head ∧ position + 4 ≤ 8192 ∧
        head.contentLength ≤ 128 ∧ position + 4 + head.contentLength ≤ bytes.length ∧
        request = ⟨head.method, head.path,
          (bytes.drop (position + 4)).take head.contentLength⟩) ∧
    ∀ received ∈ (readRequest ending cut.pieces).2, received <+: bytes ∧ ¬Arrived received := by
  obtain ⟨hresult, hasked⟩ := readRequest_spec cut ending
  obtain ⟨hother, -⟩ := readRequest_spec other ending
  refine ⟨hresult.trans hother.symm, ?_, ?_, hasked⟩
  · rw [hresult]
    exact requestOf_ne_panicked bytes ending
  · intro request hrequest
    exact requestOf_ok (hresult.symm.trans hrequest)

end Http
end Speck
