import Speck.FrameProtocol

/-!
# Reading a frame piece by piece

`read_frame` makes one read after the other. `Progress` is where it is between two of them, `feed`
what it does with the bytes of one. Run over what a reader delivers, it is `readFrame`
(`resume_firstByte`). Fed with the encoding of a frame in any pieces, it goes on until it has the
whole encoding and then returns the frame (`Progress.On.feed`).
-/

namespace Speck.FrameProtocol

/-- The next read is for the first byte, the rest of the header or the rest of the pixels. -/
inductive Progress where
  | firstByte
  | header (bytes : List UInt8)
  | payload (sequence : BitVec 64) (resolution : Resolution) (pixels : List UInt8)

namespace Progress

/-- The size of the buffer that the next read has. -/
def wanted : Progress → ℕ
  | firstByte => 1
  | header bytes => headerBytes - bytes.length
  | payload _ resolution pixels => resolution.payloadBytes - pixels.length

/-- The bytes of a read : the frame goes on, or is complete. -/
def feed (bytes : List UInt8) : Progress → Except String (Progress ⊕ Frame)
  | firstByte => .ok (.inl (header bytes))
  | header read =>
    if (read ++ bytes).length < headerBytes then .ok (.inl (header (read ++ bytes)))
    else
      match validateHeader (read ++ bytes) with
      | .error message => .error message
      | .ok (sequence, resolution) => .ok (.inl (payload sequence resolution []))
  | payload sequence resolution read =>
    if (read ++ bytes).length < resolution.payloadBytes then
      .ok (.inl (payload sequence resolution (read ++ bytes)))
    else .ok (.inr ⟨sequence, resolution, read ++ bytes⟩)

/-- A read that fails ends the frame. A reset before the first byte is the end of the stream. -/
def failed (error : ReadError) : Progress → Except String (Option Frame)
  | firstByte =>
    match error with
    | ⟨.connectionReset, _⟩ => .ok none
    | ⟨_, text⟩ => .error s!"could not read frame header: {text}"
  | header _ => .error (truncated "frame header" error)
  | payload _ _ _ => .error (truncated "frame payload" error)

/-- A read at the end of the stream. -/
def closed : Progress → Except String (Option Frame)
  | firstByte => .ok none
  | header _ => .error (truncated "frame header" .unexpectedEof)
  | payload _ _ _ => .error (truncated "frame payload" .unexpectedEof)

/-! ## The run of a reader -/

/-- A bound on the reads that a reader allows. -/
def reads : Reader → ℕ
  | [] => 0
  | .bytes _ rest :: r => rest.length + 2 + reads r
  | _ :: r => reads r + 1

theorem reads_pushBack_drop (first : UInt8) (rest : List UInt8) (n : ℕ) (r : Reader) :
    reads (pushBack (rest.drop n) r) < reads (.bytes first rest :: r) := by
  rcases hleft : rest.drop n with _ | ⟨next, left⟩
  · simp only [pushBack, reads]
    omega
  · have hlength := congrArg List.length hleft
    rw [List.length_drop, List.length_cons] at hlength
    simp only [pushBack, reads]
    omega

/-- The reads of one frame, as long as it goes on. -/
def resume (p : Progress) : Reader → Except String (Option Frame) × Reader
  | [] => (p.closed, [])
  | .interrupted :: r => p.resume r
  | .failed error :: r => (p.failed error, r)
  | .bytes first rest :: r =>
    match p.feed (first :: rest.take (p.wanted - 1)) with
    | .error message => (.error message, pushBack (rest.drop (p.wanted - 1)) r)
    | .ok (.inr frame) => (.ok (some frame), pushBack (rest.drop (p.wanted - 1)) r)
    | .ok (.inl p') => p'.resume (pushBack (rest.drop (p.wanted - 1)) r)
termination_by r => reads r
decreasing_by
  · simp only [reads]
    omega
  · exact reads_pushBack_drop first rest _ r

/-- What `read_exact` does for a phase that collects `total` bytes. -/
theorem resume_exact (phase : List UInt8 → Progress) {total : ℕ} {part : String}
    (hwanted : ∀ read, (phase read).wanted = total - read.length)
    (hjoin : ∀ read bytes more, (phase (read ++ bytes)).feed more = (phase read).feed (bytes ++ more))
    (hmore : ∀ read bytes, (read ++ bytes).length < total →
      (phase read).feed bytes = .ok (.inl (phase (read ++ bytes))))
    (hclosed : ∀ read, (phase read).closed = .error (truncated part .unexpectedEof))
    (hfailed : ∀ read error, (phase read).failed error = .error (truncated part error))
    {read : List UInt8} (hread : read.length < total) (r : Reader) :
    (phase read).resume r =
      match readExact (total - read.length) r with
      | (.error error, r) => (.error (truncated part error), r)
      | (.ok bytes, r) =>
        match (phase read).feed bytes with
        | .error message => (.error message, r)
        | .ok (.inr frame) => (.ok (some frame), r)
        | .ok (.inl p) => p.resume r := by
  obtain ⟨n, hn⟩ : ∃ n, total - read.length = n + 1 := ⟨total - read.length - 1, by omega⟩
  rw [hn]
  induction r generalizing read n with
  | nil => rw [resume, readExact, hclosed]
  | cons delivery r ih =>
    cases delivery with
    | interrupted =>
      rw [resume, readExact]
      exact ih hread n hn
    | failed error => rw [resume, readExact, hfailed]
    | bytes first rest =>
      rw [resume, hwanted, hn, Nat.add_sub_cancel]
      rcases Nat.lt_or_ge rest.length n with hless | hfull
      · -- the whole piece is taken, and bytes are still missing
        have hlength : (read ++ first :: rest).length < total := by
          rw [List.length_append, List.length_cons]
          omega
        have hn' : total - (read ++ first :: rest).length = n - rest.length - 1 + 1 := by
          rw [List.length_append, List.length_cons]
          omega
        have hrest : n - rest.length - 1 + 1 = n - rest.length := by omega
        rw [List.take_of_length_le hless.le, List.drop_of_length_le hless.le, hmore _ _ hlength,
          readExact, if_pos hless.le]
        refine (ih hlength _ hn').trans ?_
        rw [hrest]
        rcases readExact (n - rest.length) r with ⟨error | bytes, r'⟩
        · rfl
        · simp only [hjoin]
      · -- the piece completes the buffer
        rw [readExact]
        by_cases hle : rest.length ≤ n
        · obtain rfl : rest.length = n := le_antisymm hle hfull
          rw [if_pos le_rfl, List.take_length, List.drop_length, Nat.sub_self, readExact]
          simp only [List.append_nil, pushBack]
        · rw [if_neg hle]

theorem payloadBytes_pos (resolution : Resolution) : 0 < resolution.payloadBytes :=
  Nat.mul_pos (Nat.mul_pos resolution.width_mem.1 resolution.height_mem.1) (by decide)

/-- The pixels are what `read_exact` reads. -/
theorem resume_payload (sequence : BitVec 64) (resolution : Resolution) (r : Reader) :
    (payload sequence resolution []).resume r =
      match readExact resolution.payloadBytes r with
      | (.error error, r) => (.error (truncated "frame payload" error), r)
      | (.ok pixels, r) => (.ok (some ⟨sequence, resolution, pixels⟩), r) := by
  have hempty : ([] : List UInt8).length < resolution.payloadBytes := payloadBytes_pos resolution
  refine (resume_exact (payload sequence resolution) (fun _ => rfl)
    (fun read bytes more => ?_) (fun read bytes hlength => if_pos hlength) (fun _ => rfl)
    (fun _ _ => rfl) hempty r).trans ?_
  · simp only [feed, List.append_assoc]
  rcases hexact : readExact resolution.payloadBytes r with ⟨error | pixels, r'⟩
  · rfl
  · have hlength := (pending_of_readExact hexact).1
    simp [feed, hlength]

/-- Piece by piece, a frame is read as a whole. -/
theorem resume_firstByte (r : Reader) : firstByte.resume r = readFrame r := by
  induction r with
  | nil =>
    rw [resume]
    rfl
  | cons delivery r ih =>
    cases delivery with
    | interrupted =>
      rw [resume, ih]
      rfl
    | failed error =>
      rw [resume]
      obtain ⟨_ | _ | _, text⟩ := error <;> rfl
    | bytes first rest =>
      rw [resume]
      simp only [wanted, Nat.sub_self, List.take_zero, List.drop_zero, feed]
      have hone : [first].length < headerBytes := Nat.lt_of_sub_eq_succ rfl
      refine (resume_exact header (fun _ => rfl) (fun read bytes more => ?_)
        (fun read bytes hlength => if_pos hlength) (fun _ => rfl) (fun _ _ => rfl) hone _).trans ?_
      · simp only [feed, List.append_assoc]
      simp only [readFrame, readFirstByte, List.length_singleton]
      rcases hexact : readExact (headerBytes - 1) (pushBack rest r) with ⟨error | bytes, r'⟩
      · rfl
      · have hlength : ¬(first :: bytes).length < headerBytes := by
          rw [List.length_cons, (pending_of_readExact hexact).1]
          decide
        simp only [feed, List.singleton_append, if_neg hlength]
        rcases validateHeader (first :: bytes) with message | ⟨sequence, resolution⟩
        · rfl
        · exact resume_payload sequence resolution r'

/-! ## The encoding of a frame -/

/-- The bytes of a frame that were taken. -/
def taken : Progress → List UInt8
  | firstByte => []
  | header bytes => bytes
  | payload sequence resolution pixels => frameHeader sequence resolution ++ pixels

end Progress

/-- The encoding of a frame whose pixels are complete. -/
def Frame.bytes (frame : Frame) : List UInt8 :=
  frameHeader frame.sequence frame.resolution ++ frame.pixels

/-- The progress is within a frame. -/
def Progress.On (frame : Frame) : Progress → Prop
  | firstByte => True
  | header bytes => bytes.length < headerBytes ∧
      bytes <+: frameHeader frame.sequence frame.resolution
  | payload sequence resolution pixels => sequence = frame.sequence ∧
      resolution = frame.resolution ∧ pixels.length < resolution.payloadBytes ∧
        pixels <+: frame.pixels

namespace Progress.On

variable {frame : Frame} {p : Progress} {bytes : List UInt8}

/-- A prefix of a frame that is not longer than its header. -/
theorem prefix_frameHeader (h : bytes <+: frame.bytes) (hsize : bytes.length ≤ headerBytes) :
    bytes <+: frameHeader frame.sequence frame.resolution := by
  refine List.prefix_of_prefix_length_le h (List.prefix_append _ _) ?_
  rwa [length_frameHeader]

/-- A frame in progress is not complete. -/
theorem length_taken (h : p.On frame) (hwhole : frame.pixels.length = frame.resolution.payloadBytes) :
    p.taken.length < frame.bytes.length := by
  rw [Frame.bytes, List.length_append, length_frameHeader]
  cases p with
  | firstByte => exact Nat.add_pos_left (by decide) _
  | header bytes => exact Nat.lt_add_right _ h.1
  | payload sequence resolution pixels =>
    obtain ⟨rfl, rfl, hlength, -⟩ := h
    rw [taken, List.length_append, length_frameHeader]
    omega

/-- A read does not go beyond a frame. -/
theorem length_wanted (h : p.On frame)
    (hwhole : frame.pixels.length = frame.resolution.payloadBytes) :
    p.taken.length + p.wanted ≤ frame.bytes.length := by
  rw [Frame.bytes, List.length_append, length_frameHeader]
  cases p with
  | firstByte => exact Nat.le_add_right_of_le (by decide)
  | header bytes =>
    have hlength := h.1
    rw [taken, wanted]
    omega
  | payload sequence resolution pixels =>
    obtain ⟨rfl, rfl, hlength, -⟩ := h
    rw [taken, wanted, List.length_append, length_frameHeader]
    omega

/-- The next bytes of a frame make progress within it, or complete it. -/
theorem feed (h : p.On frame) (hwhole : frame.pixels.length = frame.resolution.payloadBytes)
    (hsize : bytes.length ≤ p.wanted) (hinitial : p.taken ++ bytes <+: frame.bytes) :
    (∃ p', p.feed bytes = .ok (.inl p') ∧ p'.On frame ∧ p'.taken = p.taken ++ bytes) ∨
      p.feed bytes = .ok (.inr frame) ∧ p.taken ++ bytes = frame.bytes := by
  cases p with
  | firstByte =>
    have hlength : bytes.length < headerBytes := lt_of_le_of_lt hsize (by decide)
    exact .inl ⟨header bytes, rfl, ⟨hlength, prefix_frameHeader hinitial hlength.le⟩, rfl⟩
  | header read =>
    have hlength : (read ++ bytes).length ≤ headerBytes := by
      have hread := h.1
      have hbytes : bytes.length ≤ headerBytes - read.length := hsize
      rw [List.length_append]
      omega
    have hheader := prefix_frameHeader hinitial hlength
    left
    by_cases hmore : (read ++ bytes).length < headerBytes
    · exact ⟨_, if_pos hmore, ⟨hmore, hheader⟩, rfl⟩
    · have hfull : read ++ bytes = frameHeader frame.sequence frame.resolution := by
        refine hheader.eq_of_length ?_
        rw [length_frameHeader]
        exact le_antisymm hlength (not_lt.mp hmore)
      refine ⟨payload frame.sequence frame.resolution [], ?_, ⟨rfl, rfl, payloadBytes_pos _,
        List.nil_prefix⟩, ?_⟩
      · rw [Progress.feed, if_neg hmore, hfull, validateHeader_frameHeader]
      · rw [taken, taken, List.append_nil, hfull]
  | payload sequence resolution read =>
    obtain ⟨rfl, rfl, hread, -⟩ := h
    have hpixels : read ++ bytes <+: frame.pixels := by
      rw [taken, List.append_assoc, Frame.bytes] at hinitial
      exact (List.prefix_append_right_inj _).mp hinitial
    by_cases hmore : (read ++ bytes).length < frame.resolution.payloadBytes
    · refine .inl ⟨_, if_pos hmore, ⟨rfl, rfl, hmore, hpixels⟩, ?_⟩
      rw [taken, taken, List.append_assoc]
    · have hfull : read ++ bytes = frame.pixels := by
        refine hpixels.eq_of_length_le ?_
        rw [hwhole]
        exact not_lt.mp hmore
      right
      constructor
      · rw [Progress.feed, if_neg hmore, hfull]
      · rw [taken, List.append_assoc, hfull, Frame.bytes]

end Progress.On

end Speck.FrameProtocol
