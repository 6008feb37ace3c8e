import Speck.Ast
import Speck.Bytes

/-!
# The frame protocol

The runtime sends each frame over a socket as a header of 24 bytes and its pixels. The host encodes
frames in the same way (`encodeFrameAtResolution`) and reads them back one at a time
(`readFrame`). `Reads` is a run of the reader.

Whatever the sizes of the reads, the encodings of frames read back as these frames, and then as the
clean end or as an error if a frame is cut; what a successful read took is the encoding of its
frame; and what `crumbPresent` sends, in whatever pieces, is the encoding of the host
(`frame_stream_round_trip`).
-/

namespace Speck

/-! ## The host -/

/-- `Resolution::new`. -/
def Resolution.new (width height : ℕ) : Except String Resolution :=
  if hwidth : 1 ≤ width ∧ width ≤ 4096 then
    if hheight : 1 ≤ height ∧ height ≤ 4096 then .ok ⟨width, height, hwidth, hheight⟩
    else .error s!"resolution height must be between 1 and 4096, found {height}"
  else .error s!"resolution width must be between 1 and 4096, found {width}"

def Resolution.payloadBytes (resolution : Resolution) : ℕ :=
  resolution.width * resolution.height * 3

namespace FrameProtocol

structure Frame where
  sequence : BitVec 64
  resolution : Resolution
  pixels : List UInt8

/-- `SPKF`. -/
def magic : List UInt8 := [83, 80, 75, 70]

def version : UInt8 := 1

def pixelFormatRgb8 : UInt8 := 1

def headerBytes : ℕ := 24

def frameHeader (sequence : BitVec 64) (resolution : Resolution) : List UInt8 :=
  magic ++ version :: pixelFormatRgb8 :: beBytes 2 headerBytes ++ beBytes 2 resolution.width ++
    beBytes 2 resolution.height ++ beBytes 4 resolution.payloadBytes ++ beBytes 8 sequence.toNat

def encodeFrameAtResolution (sequence : BitVec 64) (resolution : Resolution)
    (pixels : List UInt8) : Except String (List UInt8) :=
  let payloadBytes := resolution.payloadBytes
  let found := pixels.length
  if found ≠ payloadBytes then
    .error s!"RGB8 payload must contain {payloadBytes} bytes, found {found}"
  else .ok (frameHeader sequence resolution ++ pixels)

def Frame.encode (frame : Frame) : Except String (List UInt8) :=
  encodeFrameAtResolution frame.sequence frame.resolution frame.pixels

/-- The number in the bytes `start` to `start + width` of a header. -/
def field (header : List UInt8) (start width : ℕ) : ℕ := readBe ((header.drop start).take width)

def validateHeader (header : List UInt8) : Except String (BitVec 64 × Resolution) := do
  if header.take 4 ≠ magic then
    .error "invalid frame magic; expected `SPKF`"
  else if field header 4 1 ≠ version.toNat then
    let found := field header 4 1
    .error s!"unsupported frame protocol version {found}; expected 1"
  else if field header 5 1 ≠ pixelFormatRgb8.toNat then
    let found := field header 5 1
    .error s!"unsupported pixel format {found}; expected RGB8 (1)"
  else if field header 6 2 ≠ headerBytes then
    let found := field header 6 2
    .error s!"invalid frame header length {found}; expected 24"
  else
    let resolution ← Resolution.new (field header 8 2) (field header 10 2)
    let expected := resolution.payloadBytes
    if field header 12 4 ≠ expected then
      let found := field header 12 4
      .error s!"invalid frame payload length {found}; expected {expected}"
    else .ok (BitVec.ofNat 64 (field header 16 8), resolution)

/-- The first byte of a frame, if there is one. A reset between frames is their end. -/
def readFirstByte : Reader → Except String (Option UInt8) × Reader
  | [] => (.ok none, [])
  | .interrupted :: r => readFirstByte r
  | .failed ⟨.connectionReset, _⟩ :: r => (.ok none, r)
  | .failed ⟨_, text⟩ :: r => (.error s!"could not read frame header: {text}", r)
  | .bytes first rest :: r => (.ok (some first), pushBack rest r)

def truncated (part : String) (error : ReadError) : String :=
  let text := error.text
  s!"truncated {part}: {text}"

def readFrame (r : Reader) : Except String (Option Frame) × Reader :=
  match readFirstByte r with
  | (.error message, r) => (.error message, r)
  | (.ok none, r) => (.ok none, r)
  | (.ok (some first), r) =>
    match readExact (headerBytes - 1) r with
    | (.error error, r) => (.error (truncated "frame header" error), r)
    | (.ok rest, r) =>
      match validateHeader (first :: rest) with
      | .error message => (.error message, r)
      | .ok (sequence, resolution) =>
        match readExact resolution.payloadBytes r with
        | (.error error, r) => (.error (truncated "frame payload" error), r)
        | (.ok pixels, r) => (.ok (some ⟨sequence, resolution, pixels⟩), r)

/-- Frames are read one after the other. -/
inductive Reads : Reader → List Frame → Reader → Prop
  | done (r : Reader) : Reads r [] r
  | frame {r r' r'' : Reader} {frame : Frame} {frames : List Frame}
      (h : readFrame r = (.ok (some frame), r')) (rest : Reads r' frames r'') :
      Reads r (frame :: frames) r''

/-- The stream ends between frames : it was closed, or reset. -/
def CleanEnd : Reader → Prop
  | [] => True
  | .failed ⟨.connectionReset, _⟩ :: _ => True
  | _ => False

/-! ## The runtime -/

/-- The low byte, as the cast to `unsigned char`. -/
def lowByte {width : ℕ} (value : BitVec width) : UInt8 := UInt8.ofNat value.toNat

def writeU16 (value : BitVec 16) : List UInt8 := [lowByte (value >>> 8), lowByte value]

def writeU32 (value : BitVec 32) : List UInt8 :=
  [lowByte (value >>> 24), lowByte (value >>> 16), lowByte (value >>> 8), lowByte value]

/-- The loop of `write_u64` over the first `count` bytes, from the last of them down. -/
def writeBytes : ℕ → BitVec 64 → List UInt8
  | 0, _ => []
  | count + 1, value => writeBytes count (value >>> 8) ++ [lowByte value]

def writeU64 (value : BitVec 64) : List UInt8 := writeBytes 8 value

/-- `CRUMB_PRESENT_CONTINUE` and `CRUMB_PRESENT_ERROR`. -/
inductive PresentResult where
  | continue
  | error
deriving DecidableEq

/-- The header of `crumb_present`. The toolchain compiles the runtime with the program's resolution
as its framebuffer dimensions. -/
def crumbHeader (resolution : Resolution) (sequence : BitVec 64) : List UInt8 :=
  magic ++ version :: pixelFormatRgb8 :: writeU16 (BitVec.ofNat 16 headerBytes) ++
    writeU16 (BitVec.ofNat 16 resolution.width) ++ writeU16 (BitVec.ofNat 16 resolution.height) ++
    writeU32 (BitVec.ofNat 32 resolution.payloadBytes) ++ writeU64 sequence

/-- `crumb_present` on an open socket : the bytes that left, its result and the new
`frame_sequence`. -/
def crumbPresent (resolution : Resolution) (frameSequence : BitVec 64) (pixels : List UInt8)
    (results : List SendResult) : List UInt8 × PresentResult × BitVec 64 :=
  let frameSequence := frameSequence + 1
  match sendAll results (crumbHeader resolution frameSequence) with
  | (header, false, _) => (header, .error, frameSequence)
  | (header, true, results) =>
    match sendAll results pixels with
    | (payload, false, _) => (header ++ payload, .error, frameSequence)
    | (payload, true, _) => (header ++ payload, .continue, frameSequence)

/-! ## The header -/

@[simp] theorem length_frameHeader (sequence : BitVec 64) (resolution : Resolution) :
    (frameHeader sequence resolution).length = headerBytes := rfl

theorem payloadBytes_lt (resolution : Resolution) : resolution.payloadBytes < 256 ^ 4 := by
  have hmul := Nat.mul_le_mul resolution.width_mem.2 resolution.height_mem.2
  rw [Resolution.payloadBytes]
  omega

theorem resolution_new (resolution : Resolution) :
    Resolution.new resolution.width resolution.height = .ok resolution := by
  rw [Resolution.new, dif_pos resolution.width_mem, dif_pos resolution.height_mem]

theorem resolution_of_new {width height : ℕ} {resolution : Resolution}
    (h : Resolution.new width height = .ok resolution) :
    resolution.width = width ∧ resolution.height = height := by
  unfold Resolution.new at h
  split at h
  · split at h
    · obtain rfl := Except.ok.inj h
      exact ⟨rfl, rfl⟩
    · cases h
  · cases h

theorem field_of_append {header before bytes after : List UInt8} {start width : ℕ}
    (h : header = before ++ (bytes ++ after)) (hstart : before.length = start)
    (hwidth : bytes.length = width) : field header start width = readBe bytes := by
  rw [field, h, List.drop_left' hstart, List.take_left' hwidth]

theorem validateHeader_ok {header : List UInt8} {resolution : Resolution}
    (hmagic : header.take 4 = magic) (hversion : field header 4 1 = version.toNat)
    (hformat : field header 5 1 = pixelFormatRgb8.toNat) (hlength : field header 6 2 = headerBytes)
    (hnew : Resolution.new (field header 8 2) (field header 10 2) = .ok resolution)
    (hpayload : field header 12 4 = resolution.payloadBytes) :
    validateHeader header = .ok (BitVec.ofNat 64 (field header 16 8), resolution) := by
  rw [validateHeader, if_neg (not_not.mpr hmagic), if_neg (not_not.mpr hversion),
    if_neg (not_not.mpr hformat), if_neg (not_not.mpr hlength), hnew]
  exact if_neg (not_not.mpr hpayload)

theorem validateHeader_frameHeader (sequence : BitVec 64) (resolution : Resolution) :
    validateHeader (frameHeader sequence resolution) = .ok (sequence, resolution) := by
  have hsplit : frameHeader sequence resolution = magic ++ ([version] ++ ([pixelFormatRgb8] ++
      (beBytes 2 headerBytes ++ (beBytes 2 resolution.width ++ (beBytes 2 resolution.height ++
        (beBytes 4 resolution.payloadBytes ++ (beBytes 8 sequence.toNat ++ []))))))) := by
    simp [frameHeader]
  have hmagic : (frameHeader sequence resolution).take 4 = magic := by
    rw [hsplit]
    exact List.take_left' rfl
  have hversion : field (frameHeader sequence resolution) 4 1 = version.toNat :=
    (field_of_append hsplit rfl rfl).trans (readBe_singleton _)
  simp only [← List.append_assoc magic] at hsplit
  have hformat : field (frameHeader sequence resolution) 5 1 = pixelFormatRgb8.toNat :=
    (field_of_append hsplit rfl rfl).trans (readBe_singleton _)
  rw [← List.append_assoc] at hsplit
  have hlength : field (frameHeader sequence resolution) 6 2 = headerBytes :=
    (field_of_append hsplit rfl (length_beBytes 2 _)).trans (readBe_beBytes_of_lt (by decide))
  rw [← List.append_assoc] at hsplit
  have hwidth : field (frameHeader sequence resolution) 8 2 = resolution.width := by
    have hlt := resolution.width_mem.2
    exact (field_of_append hsplit (by simp [magic]) (length_beBytes 2 _)).trans
      (readBe_beBytes_of_lt (by omega))
  rw [← List.append_assoc] at hsplit
  have hheight : field (frameHeader sequence resolution) 10 2 = resolution.height := by
    have hlt := resolution.height_mem.2
    exact (field_of_append hsplit (by simp [magic]) (length_beBytes 2 _)).trans
      (readBe_beBytes_of_lt (by omega))
  rw [← List.append_assoc] at hsplit
  have hpayload : field (frameHeader sequence resolution) 12 4 = resolution.payloadBytes := by
    exact (field_of_append hsplit (by simp [magic]) (length_beBytes 4 _)).trans
      (readBe_beBytes_of_lt (payloadBytes_lt resolution))
  rw [← List.append_assoc] at hsplit
  have hsequence : field (frameHeader sequence resolution) 16 8 = sequence.toNat := by
    exact (field_of_append hsplit (by simp [magic]) (length_beBytes 8 _)).trans
      (readBe_beBytes_of_lt (lt_of_lt_of_eq sequence.isLt (by norm_num)))
  have hnew : Resolution.new (field (frameHeader sequence resolution) 8 2)
      (field (frameHeader sequence resolution) 10 2) = .ok resolution := by
    rw [hwidth, hheight, resolution_new]
  rw [validateHeader_ok hmagic hversion hformat hlength hnew hpayload, hsequence,
    BitVec.ofNat_toNat, BitVec.setWidth_eq]

/-- The bytes of a field. -/
theorem beBytes_field {header : List UInt8} {start width : ℕ}
    (h : start + width ≤ header.length) :
    beBytes width (field header start width) = (header.drop start).take width := by
  have hlength : ((header.drop start).take width).length = width := by
    rw [List.length_take, List.length_drop]
    omega
  have hbytes := beBytes_readBe ((header.drop start).take width)
  rwa [hlength] at hbytes

/-- A header that is accepted is the header of what it was read as. -/
theorem frameHeader_of_validateHeader {header : List UInt8} {sequence : BitVec 64}
    {resolution : Resolution} (hlength : header.length = headerBytes)
    (h : validateHeader header = .ok (sequence, resolution)) :
    header = frameHeader sequence resolution := by
  unfold validateHeader at h
  by_cases hmagic : header.take 4 = magic; swap
  · rw [if_pos hmagic] at h
    cases h
  by_cases hversion : field header 4 1 = version.toNat; swap
  · rw [if_neg (not_not.mpr hmagic), if_pos hversion] at h
    cases h
  by_cases hformat : field header 5 1 = pixelFormatRgb8.toNat; swap
  · rw [if_neg (not_not.mpr hmagic), if_neg (not_not.mpr hversion), if_pos hformat] at h
    cases h
  by_cases hbytes : field header 6 2 = headerBytes; swap
  · rw [if_neg (not_not.mpr hmagic), if_neg (not_not.mpr hversion), if_neg (not_not.mpr hformat),
      if_pos hbytes] at h
    cases h
  rw [if_neg (not_not.mpr hmagic), if_neg (not_not.mpr hversion), if_neg (not_not.mpr hformat),
    if_neg (not_not.mpr hbytes)] at h
  cases hnew : Resolution.new (field header 8 2) (field header 10 2) with
  | error message =>
    rw [hnew] at h
    cases h
  | ok found =>
    rw [hnew] at h
    by_cases hpayload : field header 12 4 = found.payloadBytes; swap
    · simp [bind, Except.bind, hpayload] at h
    simp only [bind, Except.bind, hpayload, ne_eq, not_true_eq_false, if_false, Except.ok.injEq,
      Prod.mk.injEq] at h
    obtain ⟨rfl, rfl⟩ := h
    obtain ⟨hwidth, hheight⟩ := resolution_of_new hnew
    have hsequence : field header 16 8 < 2 ^ 64 := by
      have hlt := readBe_lt ((header.drop 16).take 8)
      rw [List.length_take, List.length_drop, hlength] at hlt
      exact lt_of_lt_of_eq hlt (by norm_num [headerBytes])
    have hfield (start width : ℕ) (hbound : start + width ≤ headerBytes) :
        beBytes width (field header start width) = (header.drop start).take width :=
      beBytes_field (by omega)
    have hnumber : (BitVec.ofNat 64 (field header 16 8)).toNat = field header 16 8 := by
      rw [BitVec.toNat_ofNat, Nat.mod_eq_of_lt hsequence]
    have hv : [version] = (header.drop 4).take 1 := by
      rw [← hfield 4 1 (by decide), hversion]
      rfl
    have hf : [pixelFormatRgb8] = (header.drop 5).take 1 := by
      rw [← hfield 5 1 (by decide), hformat]
      rfl
    have htake (start width : ℕ) :
        header.drop start = (header.drop start).take width ++ header.drop (start + width) := by
      rw [← List.drop_drop, List.take_append_drop]
    calc header = header.drop 0 := rfl
      _ = frameHeader (BitVec.ofNat 64 (field header 16 8)) found := by
        rw [htake 0 4, htake 4 1, htake 5 1, htake 6 2, htake 8 2, htake 10 2, htake 12 4,
          htake 16 8, ← hv, ← hf, ← hfield 6 2 (by decide), ← hfield 8 2 (by decide),
          ← hfield 10 2 (by decide), ← hfield 12 4 (by decide), ← hfield 16 8 (by decide),
          List.drop_zero, hmagic, hbytes, hpayload, ← hwidth, ← hheight, frameHeader, hnumber,
          List.drop_eq_nil_of_le (by rw [hlength]; decide)]
        simp

/-! ## Reading frames -/

theorem encode_eq_ok {frame : Frame} {bytes : List UInt8} (h : frame.encode = .ok bytes) :
    frame.pixels.length = frame.resolution.payloadBytes ∧
      bytes = frameHeader frame.sequence frame.resolution ++ frame.pixels := by
  unfold Frame.encode encodeFrameAtResolution at h
  dsimp only at h
  split at h
  · cases h
  · rename_i hlength
    exact ⟨not_not.mp hlength, (Except.ok.inj h).symm⟩

theorem encode_of_length {frame : Frame}
    (h : frame.pixels.length = frame.resolution.payloadBytes) :
    frame.encode = .ok (frameHeader frame.sequence frame.resolution ++ frame.pixels) := by
  simp [Frame.encode, encodeFrameAtResolution, h]

/-- The first byte of the stream, after any interruptions. -/
theorem readFirstByte_of_pending {r : Reader} {first : UInt8} {rest : List UInt8}
    (h : pending r = first :: rest) :
    ∃ r', readFirstByte r = (.ok (some first), r') ∧ pending r' = rest ∧ ending r' = ending r := by
  induction r with
  | nil => cases h
  | cons delivery r ih =>
    cases delivery with
    | failed error => cases h
    | interrupted => exact ih h
    | bytes head tail =>
      obtain ⟨rfl, rfl⟩ := List.cons.inj h
      exact ⟨pushBack tail r, rfl, pending_pushBack tail r, ending_pushBack tail r⟩

theorem readFirstByte_of_empty {r : Reader} (h : pending r = []) (hclean : CleanEnd (ending r)) :
    ∃ r', readFirstByte r = (.ok none, r') := by
  induction r with
  | nil => exact ⟨[], rfl⟩
  | cons delivery r ih =>
    cases delivery with
    | bytes head tail => cases h
    | interrupted => exact ih h hclean
    | failed error =>
      obtain ⟨kind, text⟩ := error
      cases kind with
      | connectionReset => exact ⟨r, rfl⟩
      | unexpectedEof => exact hclean.elim
      | other => exact hclean.elim

/-- What the first read found, in each of its cases. -/
theorem readFirstByte_cases (r : Reader) :
    (∃ message r', readFirstByte r = (.error message, r') ∧ pending r = [] ∧
      ¬CleanEnd (ending r)) ∨
    (∃ r', readFirstByte r = (.ok none, r') ∧ pending r = [] ∧ CleanEnd (ending r)) ∨
    ∃ first r', readFirstByte r = (.ok (some first), r') ∧ pending r = first :: pending r' ∧
      ending r' = ending r := by
  induction r with
  | nil => exact .inr (.inl ⟨[], rfl, rfl, trivial⟩)
  | cons delivery r ih =>
    cases delivery with
    | interrupted => exact ih
    | bytes head tail =>
      refine .inr (.inr ⟨head, pushBack tail r, rfl, ?_, ending_pushBack tail r⟩)
      rw [pending_pushBack]
      rfl
    | failed error =>
      obtain ⟨kind, text⟩ := error
      cases kind with
      | connectionReset => exact .inr (.inl ⟨r, rfl, rfl, trivial⟩)
      | unexpectedEof => exact .inl ⟨_, r, rfl, rfl, id⟩
      | other => exact .inl ⟨_, r, rfl, rfl, id⟩

/-- A frame that is there is read, whatever comes after it. -/
theorem readFrame_of_encode {frame : Frame} {bytes tail : List UInt8} {r : Reader}
    (hencode : frame.encode = .ok bytes) (h : pending r = bytes ++ tail) :
    ∃ r', readFrame r = (.ok (some frame), r') ∧ pending r' = tail ∧ ending r' = ending r := by
  obtain ⟨hpixels, rfl⟩ := encode_eq_ok hencode
  have hheader : ∃ first rest, frameHeader frame.sequence frame.resolution = first :: rest :=
    ⟨_, _, rfl⟩
  obtain ⟨first, rest, hheader⟩ := hheader
  have hlength : rest.length = headerBytes - 1 := by
    have := length_frameHeader frame.sequence frame.resolution
    rw [hheader, List.length_cons] at this
    omega
  rw [hheader, List.append_assoc, List.cons_append] at h
  obtain ⟨r₁, hfirst, hpending, hending⟩ := readFirstByte_of_pending h
  obtain ⟨r₂, hread, hpending₂, hending₂⟩ :=
    readExact_ok (n := headerBytes - 1) (r := r₁) (by
      rw [hpending, List.length_append]
      omega)
  rw [hpending, ← hlength, List.take_left' rfl] at hread
  rw [hpending, ← hlength, List.drop_left' rfl] at hpending₂
  obtain ⟨r₃, hread₃, hpending₃, hending₃⟩ :=
    readExact_ok (n := frame.resolution.payloadBytes) (r := r₂) (by
      rw [hpending₂, List.length_append]
      omega)
  rw [hpending₂, ← hpixels, List.take_left' rfl] at hread₃
  rw [hpending₂, ← hpixels, List.drop_left' rfl] at hpending₃
  refine ⟨r₃, ?_, hpending₃, by rw [hending₃, hending₂, hending]⟩
  rw [hlength] at hread
  rw [hpixels] at hread₃
  simp only [readFrame, hfirst, hread, ← hheader, validateHeader_frameHeader, hread₃]

/-- What a successful read took is the encoding of its frame. -/
theorem encode_of_readFrame {frame : Frame} {r r' : Reader}
    (h : readFrame r = (.ok (some frame), r')) :
    ∃ bytes, frame.encode = .ok bytes ∧ pending r = bytes ++ pending r' ∧
      ending r' = ending r := by
  rcases readFirstByte_cases r with ⟨message, r₁, hfirst, -, -⟩ | ⟨r₁, hfirst, -, -⟩ |
    ⟨first, r₁, hfirst, hpending, hending⟩
  · simp [readFrame, hfirst] at h
  · simp [readFrame, hfirst] at h
  rcases hread : readExact (headerBytes - 1) r₁ with ⟨found, r₂⟩
  cases found with
  | error error => simp [readFrame, hfirst, hread] at h
  | ok rest =>
    obtain ⟨hlength, hpending₂, hending₂⟩ := pending_of_readExact hread
    cases hheader : validateHeader (first :: rest) with
    | error message => simp [readFrame, hfirst, hread, hheader] at h
    | ok metadata =>
      obtain ⟨sequence, resolution⟩ := metadata
      rcases hread₃ : readExact resolution.payloadBytes r₂ with ⟨found, r₃⟩
      cases found with
      | error error => simp [readFrame, hfirst, hread, hheader, hread₃] at h
      | ok pixels =>
        obtain ⟨hpixels, hpending₃, hending₃⟩ := pending_of_readExact hread₃
        simp only [readFrame, hfirst, hread, hheader, hread₃, Prod.mk.injEq, Except.ok.injEq,
          Option.some.injEq] at h
        obtain ⟨rfl, rfl⟩ := h
        have hlength' : (first :: rest).length = headerBytes := by
          rw [List.length_cons, hlength]
          rfl
        refine ⟨_, encode_of_length hpixels, ?_, by rw [hending₃, hending₂, hending]⟩
        rw [← frameHeader_of_validateHeader hlength' hheader, hpending, hpending₂, hpending₃]
        simp

/-- The clean end is read only where nothing is left. -/
theorem pending_of_readFrame_none {r r' : Reader} (h : readFrame r = (.ok none, r')) :
    pending r = [] ∧ CleanEnd (ending r) := by
  rcases readFirstByte_cases r with ⟨message, r₁, hfirst, -, -⟩ |
    ⟨r₁, hfirst, hpending, hclean⟩ | ⟨first, r₁, hfirst, -, -⟩
  · simp [readFrame, hfirst] at h
  · exact ⟨hpending, hclean⟩
  unfold readFrame at h
  simp only [hfirst] at h
  split at h
  · simp at h
  · split at h
    · simp at h
    · split at h <;> simp at h

/-- A frame that is cut is an error, in whatever way the stream ends. -/
theorem readFrame_of_cut {frame : Frame} {bytes cut rest : List UInt8} {r : Reader}
    (hencode : frame.encode = .ok bytes) (hcut : bytes = cut ++ rest) (hsome : cut ≠ [])
    (hrest : rest ≠ []) (h : pending r = cut) :
    ∃ message r', readFrame r = (.error message, r') := by
  rcases hread : readFrame r with ⟨found, r'⟩
  rcases found with message | _ | other
  · exact ⟨message, r', rfl⟩
  · exact absurd (h.symm.trans (pending_of_readFrame_none hread).1) hsome
  -- a frame that was read from the cut has the same header, and then too few pixels
  obtain ⟨bytes', hencode', hpending, -⟩ := encode_of_readFrame hread
  obtain ⟨hpixels, rfl⟩ := encode_eq_ok hencode
  obtain ⟨hpixels', rfl⟩ := encode_eq_ok hencode'
  rw [h] at hpending
  rw [hpending, List.append_assoc, List.append_assoc] at hcut
  have hheader := List.append_inj_left hcut rfl
  have hsame : frame.resolution = other.resolution := by
    have hleft := validateHeader_frameHeader frame.sequence frame.resolution
    rw [hheader, validateHeader_frameHeader] at hleft
    exact ((Prod.mk.inj (Except.ok.inj hleft)).2).symm
  have htail := congrArg List.length (List.append_inj_right hcut rfl)
  rw [List.length_append, List.length_append, hpixels, hpixels', hsame] at htail
  exact absurd (List.length_eq_zero_iff.mp (by omega)) hrest

/-- Encodings of frames are read back one after the other. -/
theorem reads_of_encode {frames : List Frame} {encodings : List (List UInt8)}
    (h : List.Forall₂ (fun frame bytes => frame.encode = .ok bytes) frames encodings)
    {r : Reader} {tail : List UInt8} (hpending : pending r = encodings.flatten ++ tail) :
    ∃ r', Reads r frames r' ∧ pending r' = tail ∧ ending r' = ending r := by
  induction h generalizing r with
  | nil => exact ⟨r, .done r, hpending, rfl⟩
  | cons hencode rest ih =>
    rw [List.flatten_cons, List.append_assoc] at hpending
    obtain ⟨r₁, hread, hpending₁, hending₁⟩ := readFrame_of_encode hencode hpending
    obtain ⟨r₂, hreads, hpending₂, hending₂⟩ := ih hpending₁
    exact ⟨r₂, .frame hread hreads, hpending₂, hending₂.trans hending₁⟩

/-! ## The two encoders -/

theorem lowByte_ushiftRight {width : ℕ} (value : BitVec width) (count : ℕ) :
    lowByte (value >>> (8 * count)) = UInt8.ofNat (value.toNat / 256 ^ count) := by
  rw [lowByte, BitVec.toNat_ushiftRight, Nat.shiftRight_eq_div_pow, pow_mul]
  rfl

theorem writeU16_ofNat {value : ℕ} (h : value < 256 ^ 2) :
    writeU16 (BitVec.ofNat 16 value) = beBytes 2 value := by
  have hvalue : (BitVec.ofNat 16 value).toNat = value := by
    rw [BitVec.toNat_ofNat, Nat.mod_eq_of_lt (by omega)]
  have hhigh := lowByte_ushiftRight (BitVec.ofNat 16 value) 1
  rw [hvalue] at hhigh
  rw [writeU16, hhigh, lowByte, hvalue]
  simp [beBytes]

theorem writeU32_ofNat {value : ℕ} (h : value < 256 ^ 4) :
    writeU32 (BitVec.ofNat 32 value) = beBytes 4 value := by
  have hvalue : (BitVec.ofNat 32 value).toNat = value := by
    rw [BitVec.toNat_ofNat, Nat.mod_eq_of_lt (by omega)]
  have hbyte (count : ℕ) := lowByte_ushiftRight (BitVec.ofNat 32 value) count
  simp only [hvalue] at hbyte
  rw [writeU32, hbyte 3, hbyte 2, hbyte 1, lowByte, hvalue]
  simp [beBytes]

theorem writeBytes_eq (count : ℕ) (value : BitVec 64) :
    writeBytes count value = beBytes count value.toNat := by
  induction count generalizing value with
  | zero => rfl
  | succ count ih =>
    rw [writeBytes, ih, beBytes_succ, BitVec.toNat_ushiftRight, Nat.shiftRight_eq_div_pow]
    rfl

theorem crumbHeader_eq (resolution : Resolution) (sequence : BitVec 64) :
    crumbHeader resolution sequence = frameHeader sequence resolution := by
  have hwidth := resolution.width_mem.2
  have hheight := resolution.height_mem.2
  rw [crumbHeader, frameHeader, writeU16_ofNat (by decide), writeU16_ofNat (by omega),
    writeU16_ofNat (by omega), writeU32_ofNat (payloadBytes_lt resolution), writeU64,
    writeBytes_eq]

/-- What leaves the runtime is a prefix of the host's encoding, and all of it where the runtime goes
on. -/
theorem crumbPresent_isPrefix {frame : Frame} {bytes : List UInt8}
    (hencode : frame.encode = .ok bytes) {frameSequence : BitVec 64}
    (hsequence : frameSequence + 1 = frame.sequence) (results : List SendResult) :
    let (sent, result, frameSequence') :=
      crumbPresent frame.resolution frameSequence frame.pixels results
    sent <+: bytes ∧ (result = .continue → sent = bytes) ∧ frameSequence' = frame.sequence := by
  obtain ⟨hpixels, rfl⟩ := encode_eq_ok hencode
  rw [crumbPresent, hsequence, crumbHeader_eq]
  obtain ⟨hheader, hall⟩ := sendAll_isPrefix results (frameHeader frame.sequence frame.resolution)
  rcases hsent : sendAll results (frameHeader frame.sequence frame.resolution) with
    ⟨header, done, results₁⟩
  rw [hsent] at hheader hall
  cases done with
  | false => exact ⟨hheader.trans (List.prefix_append _ _), nofun, rfl⟩
  | true =>
    obtain rfl : header = _ := hall rfl
    obtain ⟨hpayload, hall'⟩ := sendAll_isPrefix results₁ frame.pixels
    rcases hsent' : sendAll results₁ frame.pixels with ⟨payload, done, results₂⟩
    rw [hsent'] at hpayload hall'
    cases done with
    | false => exact ⟨by simpa [hsent'] using hpayload, by simp [hsent'], by simp [hsent']⟩
    | true =>
      obtain rfl : payload = _ := hall' rfl
      exact ⟨by simp [hsent'], by simp [hsent'], by simp [hsent']⟩

/-- Sends that are only split and interrupted take the frame. -/
theorem crumbPresent_complete {frame : Frame} {bytes : List UInt8}
    (hencode : frame.encode = .ok bytes) (frameSequence : BitVec 64) {results : List SendResult}
    (hfailed : .failed ∉ results) (hsends : bytes.length ≤ sends results) :
    (crumbPresent frame.resolution frameSequence frame.pixels results).2.1 = .continue := by
  obtain ⟨hpixels, rfl⟩ := encode_eq_ok hencode
  have hheader : (crumbHeader frame.resolution (frameSequence + 1)).length = headerBytes := by
    rw [crumbHeader_eq, length_frameHeader]
  rw [List.length_append, length_frameHeader, ← hheader] at hsends
  obtain ⟨hdone, hfailed₁, hsends₁⟩ := sendAll_complete hfailed hsends
  rw [crumbPresent]
  rcases hsent : sendAll results (crumbHeader frame.resolution (frameSequence + 1)) with
    ⟨header, done, results₁⟩
  rw [hsent] at hdone hfailed₁ hsends₁
  obtain rfl : done = true := hdone
  rw [← Nat.add_zero frame.pixels.length] at hsends₁
  obtain ⟨hdone', -, -⟩ := sendAll_complete hfailed₁ hsends₁
  rcases hsent' : sendAll results₁ frame.pixels with ⟨payload, done, results₂⟩
  rw [hsent'] at hdone'
  obtain rfl : done = true := hdone'
  simp [hsent']

/-! ## The stream -/

/-- Encodings of frames read back as the frames, whatever the sizes of the reads : then comes the
clean end, or an error if the stream is cut in a frame. A read takes the encoding of its frame. The
runtime sends what the host encodes, however its sends are split. -/
theorem frame_stream_round_trip {frames : List Frame} {encodings : List (List UInt8)}
    (h : List.Forall₂ (fun frame bytes => frame.encode = .ok bytes) frames encodings) :
    (∀ r, pending r = encodings.flatten → CleanEnd (ending r) →
      ∃ r' r'', Reads r frames r' ∧ readFrame r' = (.ok none, r'')) ∧
    (∀ r (frame : Frame) bytes cut rest, frame.encode = .ok bytes → bytes = cut ++ rest →
      cut ≠ [] → rest ≠ [] → pending r = encodings.flatten ++ cut →
      ∃ r' message r'', Reads r frames r' ∧ readFrame r' = (.error message, r'')) ∧
    (∀ r frame r', readFrame r = (.ok (some frame), r') →
      ∃ bytes, frame.encode = .ok bytes ∧ pending r = bytes ++ pending r') ∧
    List.Forall₂ (fun frame bytes => ∀ results,
      let (sent, result, frameSequence) :=
        crumbPresent frame.resolution (frame.sequence - 1) frame.pixels results
      sent <+: bytes ∧ (result = .continue → sent = bytes) ∧ frameSequence = frame.sequence ∧
        (.failed ∉ results → bytes.length ≤ sends results → result = .continue))
      frames encodings := by
  refine ⟨fun r hpending hclean => ?_, fun r frame bytes cut rest hencode hcut hsome hrest hpending
    => ?_, fun r frame r' hread => ?_, h.imp fun frame bytes hencode results => ?_⟩
  · rw [← List.append_nil encodings.flatten] at hpending
    obtain ⟨r', hreads, hpending', hending⟩ := reads_of_encode h hpending
    obtain ⟨r'', hend⟩ := readFirstByte_of_empty hpending' (hending ▸ hclean)
    exact ⟨r', r'', hreads, by rw [readFrame, hend]⟩
  · obtain ⟨r', hreads, hpending', -⟩ := reads_of_encode h hpending
    obtain ⟨message, r'', herror⟩ := readFrame_of_cut hencode hcut hsome hrest hpending'
    exact ⟨r', message, r'', hreads, herror⟩
  · obtain ⟨bytes, hencode, hpending, -⟩ := encode_of_readFrame hread
    exact ⟨bytes, hencode, hpending⟩
  · have hsequence : frame.sequence - 1 + 1 = frame.sequence := BitVec.sub_add_cancel _ _
    obtain ⟨hsent, hall, hnext⟩ := crumbPresent_isPrefix hencode hsequence results
    exact ⟨hsent, hall, hnext, crumbPresent_complete hencode _⟩

/-- One frame of one pixel, which arrives in three pieces. -/
theorem frame_stream_round_trip_pixel :
    let frame : Frame := ⟨7, ⟨1, 1, by decide, by decide⟩, [1, 2, 3]⟩
    let r : Reader := [.bytes 83 [80, 75], .interrupted,
      .bytes 70 [1, 1, 0, 24, 0, 1, 0, 1, 0, 0, 0, 3, 0, 0, 0, 0, 0, 0, 0, 7, 1], .bytes 2 [3],
      .failed ⟨.connectionReset, "Connection reset by peer"⟩]
    ∃ r' r'', Reads r [frame] r' ∧ readFrame r' = (.ok none, r'') :=
  (frame_stream_round_trip (.cons rfl .nil)).1 _ (by decide) trivial

end FrameProtocol

end Speck
