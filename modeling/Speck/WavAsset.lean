import Speck.Bytes
import Speck.SlotRecord
import Mathlib.Data.List.Basic

/-!
# Sound assets

The validator of `audio_assets.rs` : a walk over the chunks of a RIFF file, then the checks of
its format and of its samples. Additions of `usize` that do not fit, slices out of range and a
walk that does not end are panics of the model. `IsWav` is the grammar of the accepted files.
The validator accepts these and no others, and never panics (`validate_eq_ok`).
-/

namespace Speck

/-! ## Steps -/

inductive WavHalt
  | rejected (message : String)
  | panicked
  deriving DecidableEq, Repr

abbrev WavM := Except WavHalt

def WavM.reject {α : Type} (message : String) : WavM α := .error (.rejected message)

/-- `checked_add` of two `usize`, with the message for an overflow. -/
def checkedAdd (a b : ℕ) (message : String) : WavM ℕ :=
  if a + b < 2 ^ 64 then .ok (a + b) else .reject message

/-- A sum of two `usize`. -/
def plainAdd (a b : ℕ) : WavM ℕ := if a + b < 2 ^ 64 then .ok (a + b) else .error .panicked

/-- The bytes from an index to another. -/
def slice? (bytes : Bytes) (start stop : ℕ) : Option Bytes :=
  if start ≤ stop ∧ stop ≤ bytes.length then some ((bytes.drop start).take (stop - start))
  else none

/-- `&bytes[start..stop]`. -/
def slice (bytes : Bytes) (start stop : ℕ) : WavM Bytes :=
  match slice? bytes start stop with
  | some piece => .ok piece
  | none => .error .panicked

/-- `little_u16` and `little_u32`. -/
def little (width : ℕ) (bytes : Bytes) (offset : ℕ) : WavM ℕ := do
  let stop ← plainAdd offset width
  match slice? bytes offset stop with
  | some piece => return readLe piece
  | none => .reject "truncated WAV integer"

def littleU16 : Bytes → ℕ → WavM ℕ := little 2

def littleU32 : Bytes → ℕ → WavM ℕ := little 4

/-! ## The validator -/

/-- `MAX_SAMPLES`. -/
def maxSamples : ℕ := 180 * 48000

def riffId : Bytes := ascii ['R', 'I', 'F', 'F']
def waveId : Bytes := ascii ['W', 'A', 'V', 'E']
def fmtId : Bytes := ascii ['f', 'm', 't', ' ']
def dataId : Bytes := ascii ['d', 'a', 't', 'a']

/-- What the walk has found : the start and the size of the format, the start and the end of the
data. -/
structure FoundChunks where
  format : Option (ℕ × ℕ)
  data : Option (ℕ × ℕ)

/-- The match on the name of a chunk. -/
def placeChunk (id : Bytes) (headerEnd size payloadEnd : ℕ) (found : FoundChunks) :
    WavM FoundChunks :=
  if id = fmtId then
    if found.format.isSome then .reject "contains more than one `fmt ` chunk"
    else .ok { found with format := some (headerEnd, size) }
  else if id = dataId then
    if found.data.isSome then .reject "contains more than one `data` chunk"
    else .ok { found with data := some (headerEnd, payloadEnd) }
  else .ok found

/-- The body of the loop : the next cursor and what has been found. -/
def walkChunk (bytes : Bytes) (cursor : ℕ) (found : FoundChunks) : WavM (ℕ × FoundChunks) := do
  let headerEnd ← checkedAdd cursor 8 "chunk offset overflow"
  if bytes.length < headerEnd then
    .reject "truncated WAV chunk header"
  else
    let size ← littleU32 bytes (← plainAdd cursor 4)
    let payloadEnd ← checkedAdd headerEnd size "chunk size overflow"
    if bytes.length < payloadEnd then
      .reject "WAV chunk extends beyond the RIFF data"
    else
      let id ← slice bytes cursor (← plainAdd cursor 4)
      let found ← placeChunk id headerEnd size payloadEnd found
      let next ← checkedAdd payloadEnd (size % 2) "chunk padding overflow"
      if bytes.length < next then
        .reject "truncated WAV chunk padding"
      else
        return (next, found)

/-- The loop over the chunks. -/
def walkChunks (bytes : Bytes) : ℕ → ℕ → FoundChunks → WavM FoundChunks
  | 0, _, _ => .error .panicked
  | fuel + 1, cursor, found =>
    if cursor < bytes.length then do
      let (next, found) ← walkChunk bytes cursor found
      walkChunks bytes fuel next found
    else .ok found

/-- The checks of the format. -/
def checkFormat (bytes : Bytes) (start size : ℕ) : WavM Unit := do
  if size < 16 then .reject "`fmt ` chunk is shorter than 16 bytes"
  else if (← littleU16 bytes start) ≠ 1 then
    .reject "audio format must be uncompressed PCM (format 1)"
  else if (← littleU16 bytes (← plainAdd start 2)) ≠ 1 then
    .reject "PCM must have exactly one channel"
  else if (← littleU32 bytes (← plainAdd start 4)) ≠ 48000 then
    .reject "PCM sample rate must be 48000 Hz"
  else if (← littleU32 bytes (← plainAdd start 8)) ≠ 96000 then
    .reject "PCM byte rate and block alignment must match mono PCM16"
  else if (← littleU16 bytes (← plainAdd start 12)) ≠ 2 then
    .reject "PCM byte rate and block alignment must match mono PCM16"
  else if (← littleU16 bytes (← plainAdd start 14)) ≠ 16 then
    .reject "PCM samples must be 16-bit"
  else return ()

/-- The checks of the samples, which it returns. -/
def checkData (bytes : Bytes) (start stop : ℕ) : WavM Bytes := do
  if stop < start then .error .panicked
  else if stop - start = 0 then .reject "PCM data must contain at least one sample"
  else if (stop - start) % 2 ≠ 0 then
    .reject "PCM data length must be a whole number of 16-bit samples"
  else if maxSamples < (stop - start) / 2 then
    .reject "decoded audio exceeds the 180 second duration limit"
  else slice bytes start stop

/-- The header of the file. -/
def checkHeader (bytes : Bytes) : WavM Unit := do
  if bytes.length < 12 then .reject "expected a RIFF/WAVE file"
  else if (← slice bytes 0 4) ≠ riffId then .reject "expected a RIFF/WAVE file"
  else if (← slice bytes 8 12) ≠ waveId then .reject "expected a RIFF/WAVE file"
  else
    let riffSize ← littleU32 bytes 4
    if 2 ^ 64 ≤ riffSize + 8 || riffSize + 8 ≠ bytes.length then
      .reject "RIFF size does not match the file length"
    else return ()

/-- `validate`. -/
def validateWav (bytes : Bytes) : WavM Bytes := do
  checkHeader bytes
  let found ← walkChunks bytes (bytes.length + 1) 12 ⟨none, none⟩
  match found.format with
  | none => .reject "missing `fmt ` chunk"
  | some (formatStart, formatSize) =>
    checkFormat bytes formatStart formatSize
    match found.data with
    | none => .reject "missing `data` chunk"
    | some (dataStart, dataEnd) => checkData bytes dataStart dataEnd

/-! ## The grammar -/

/-- A chunk : its name, what its size counts, and a byte of padding after an odd payload. -/
structure WavChunk where
  id : Bytes
  payload : Bytes
  padding : Bytes
  id_length : id.length = 4
  payload_length : payload.length < 2 ^ 32
  padding_length : padding.length = payload.length % 2

/-- The bytes of a chunk. -/
def WavChunk.encode (chunk : WavChunk) : Bytes :=
  chunk.id ++ leBytes 4 chunk.payload.length ++ chunk.payload ++ chunk.padding

/-- A number of a format. -/
def formatField (format : Bytes) (offset width : ℕ) : ℕ :=
  readLe ((format.drop offset).take width)

/-- Uncompressed PCM, mono, 48 kHz, 16 bits. -/
structure IsPcm16Mono (format : Bytes) : Prop where
  long : 16 ≤ format.length
  encoding : formatField format 0 2 = 1
  channels : formatField format 2 2 = 1
  sampleRate : formatField format 4 4 = 48000
  byteRate : formatField format 8 4 = 96000
  blockAlign : formatField format 12 2 = 2
  bits : formatField format 14 2 = 16

/-- The payload of samples. -/
structure IsSamples (data : Bytes) : Prop where
  nonempty : data ≠ []
  even : data.length % 2 = 0
  short : data.length / 2 ≤ 180 * 48000

/-- The chunks of a name. -/
def chunksOf (id : Bytes) (chunks : List WavChunk) : List WavChunk :=
  chunks.filter (·.id = id)

/-- The files of the grammar, with their samples. -/
def IsWav (bytes pcm : Bytes) : Prop :=
  ∃ chunks : List WavChunk, ∃ format data : WavChunk,
    bytes = riffId ++ leBytes 4 (bytes.length - 8) ++ waveId ++ chunks.flatMap WavChunk.encode ∧
    bytes.length - 8 < 2 ^ 32 ∧
    chunksOf fmtId chunks = [format] ∧ IsPcm16Mono format.payload ∧
    chunksOf dataId chunks = [data] ∧ IsSamples data.payload ∧ pcm = data.payload

/-! ## Decisions -/

/-- A step that succeeds with `a` if `p`, and rejects otherwise. -/
def Decides {α : Type} (m : WavM α) (p : Prop) (a : α) : Prop :=
  p ∧ m = .ok a ∨ ¬p ∧ ∃ message, m = .reject message

section

variable {α : Type} {p c : Prop} {a : α}

theorem decides_ok : Decides (.ok a) True a := .inl ⟨trivial, rfl⟩

/-- A check before the others. -/
theorem decides_check [Decidable c] {m : WavM α} (message : String) (h : Decides m p a) :
    Decides (if c then .reject message else m) (¬c ∧ p) a := by
  by_cases hc : c
  · exact .inr ⟨fun h => h.1 hc, message, if_pos hc⟩
  · rw [if_neg hc]
    rcases h with ⟨hp, hm⟩ | ⟨hp, hm⟩
    · exact .inl ⟨⟨hc, hp⟩, hm⟩
    · exact .inr ⟨fun h => hp h.2, hm⟩

theorem Decides.ok_of {m : WavM α} (h : Decides m p a) (hp : p) : m = .ok a := by
  rcases h with ⟨-, hm⟩ | ⟨hnot, -⟩
  · exact hm
  · exact absurd hp hnot

theorem Decides.congr {q : Prop} {m : WavM α} (h : Decides m p a) (heq : p ↔ q) :
    Decides m q a := by rwa [propext heq] at h

end

/-! ## Slices -/

section

variable {bytes piece : Bytes} {start stop offset width : ℕ}

theorem slice?_eq (hle : start ≤ stop) (hstop : stop ≤ bytes.length) :
    slice? bytes start stop = some ((bytes.drop start).take (stop - start)) :=
  if_pos ⟨hle, hstop⟩

theorem slice?_eq_some : slice? bytes start stop = some piece ↔
    start ≤ stop ∧ stop ≤ bytes.length ∧ (bytes.drop start).take (stop - start) = piece := by
  unfold slice?
  split
  · next h => simp [h]
  · next h =>
    rw [not_and_or] at h
    simp
    tauto

theorem slice_eq (hle : start ≤ stop) (hstop : stop ≤ bytes.length) :
    slice bytes start stop = .ok ((bytes.drop start).take (stop - start)) := by
  rw [slice, slice?_eq hle hstop]

theorem plainAdd_eq {a b : ℕ} (h : a + b < 2 ^ 64) : plainAdd a b = .ok (a + b) := if_pos h

theorem checkedAdd_eq {a b : ℕ} (h : a + b < 2 ^ 64) (message : String) :
    checkedAdd a b message = .ok (a + b) := if_pos h

theorem little_eq (hstop : offset + width ≤ bytes.length) (hfits : offset + width < 2 ^ 64) :
    little width bytes offset = .ok (readLe ((bytes.drop offset).take width)) := by
  rw [little, plainAdd_eq hfits, ok_bind, slice?_eq (Nat.le_add_right _ _) hstop,
    Nat.add_sub_cancel_left]
  rfl

/-- A field that is read from the file is the field of the format. -/
theorem little_slice (h : slice? bytes start stop = some piece) (hsize : bytes.length < 2 ^ 64)
    (hwithin : offset + width ≤ piece.length) :
    little width bytes (start + offset) = .ok (formatField piece offset width) := by
  obtain ⟨hle, hstop, rfl⟩ := slice?_eq_some.mp h
  rw [List.length_take, List.length_drop] at hwithin
  rw [little_eq (by omega) (by omega), formatField, List.drop_take, List.take_take, List.drop_drop,
    Nat.min_eq_left (by omega)]

end

/-! ## The checks -/

section

variable {bytes : Bytes} {start stop : ℕ}

theorem checkFormat_decides {size : ℕ} {format : Bytes}
    (h : slice? bytes start (start + size) = some format) (hsize : bytes.length < 2 ^ 33) :
    Decides (checkFormat bytes start size) (IsPcm16Mono format) () := by
  obtain ⟨hle, hstop, hformat⟩ := slice?_eq_some.mp h
  have hlength : format.length = size := by
    rw [← hformat, List.length_take, List.length_drop]
    omega
  unfold checkFormat
  by_cases hshort : size < 16
  · refine .inr ⟨fun hpcm => ?_, _, if_pos hshort⟩
    have hlong := hpcm.long
    omega
  have hadd {offset : ℕ} (hoffset : offset ≤ 14) : plainAdd start offset = .ok (start + offset) :=
    plainAdd_eq (by omega)
  have hU16 {offset : ℕ} (hoffset : offset ≤ 14) :
      littleU16 bytes (start + offset) = .ok (formatField format offset 2) :=
    little_slice h (by omega) (by omega)
  have hU32 {offset : ℕ} (hoffset : offset ≤ 12) :
      littleU32 bytes (start + offset) = .ok (formatField format offset 4) :=
    little_slice h (by omega) (by omega)
  have hencoding : littleU16 bytes start = .ok (formatField format 0 2) := hU16 (Nat.zero_le _)
  rw [if_neg hshort, hencoding, ok_bind, hadd (by norm_num), ok_bind, hU16 (by norm_num), ok_bind,
    hadd (by norm_num), ok_bind, hU32 (by norm_num), ok_bind,
    hadd (by norm_num), ok_bind, hU32 (by norm_num), ok_bind,
    hadd (by norm_num), ok_bind, hU16 (by norm_num), ok_bind,
    hadd (by norm_num), ok_bind, hU16 (by norm_num), ok_bind]
  refine Decides.congr (decides_check _ <| decides_check _ <| decides_check _ <|
    decides_check _ <| decides_check _ <| decides_check _ decides_ok) ?_
  simp only [ne_eq, not_not]
  constructor
  · rintro ⟨h1, h2, h3, h4, h5, h6, -⟩
    exact ⟨by omega, h1, h2, h3, h4, h5, h6⟩
  · rintro ⟨-, h1, h2, h3, h4, h5, h6⟩
    exact ⟨h1, h2, h3, h4, h5, h6, trivial⟩

theorem checkData_decides {data : Bytes} (h : slice? bytes start stop = some data) :
    Decides (checkData bytes start stop) (IsSamples data) data := by
  obtain ⟨hle, hstop, hdata⟩ := slice?_eq_some.mp h
  have hlength : data.length = stop - start := by
    rw [← hdata, List.length_take, List.length_drop]
    omega
  unfold checkData
  rw [if_neg (by omega), slice, h]
  refine Decides.congr (decides_check _ <| decides_check _ <| decides_check _ decides_ok) ?_
  rw [← hlength, maxSamples, List.length_eq_zero_iff]
  constructor
  · rintro ⟨hne, heven, hshort, -⟩
    exact ⟨hne, not_not.mp heven, not_lt.mp hshort⟩
  · rintro ⟨hne, heven, hshort⟩
    exact ⟨hne, not_not.mpr heven, not_lt.mpr hshort, trivial⟩

/-- The header with the size of the file. -/
def IsRiff (bytes : Bytes) : Prop :=
  bytes = riffId ++ leBytes 4 (bytes.length - 8) ++ waveId ++ bytes.drop 12 ∧
    bytes.length - 8 < 2 ^ 32

theorem checkHeader_decides : Decides (checkHeader bytes) (IsRiff bytes) () := by
  unfold checkHeader
  have hriff : riffId.length = 4 := rfl
  have hwave : waveId.length = 4 := rfl
  by_cases hshort : bytes.length < 12
  · refine .inr ⟨fun hform => ?_, _, if_pos hshort⟩
    have hlength := congrArg List.length hform.1
    simp only [List.length_append, length_leBytes] at hlength
    omega
  have hsize : littleU32 bytes 4 = .ok (readLe ((bytes.drop 4).take 4)) :=
    little_eq (by omega) (by norm_num)
  have hfield : ((bytes.drop 4).take 4).length = 4 := by
    rw [List.length_take, List.length_drop]
    omega
  have hlt := readLe_lt ((bytes.drop 4).take 4)
  rw [hfield] at hlt
  rw [if_neg hshort, slice_eq (by omega) (by omega), ok_bind, slice_eq (by omega) (by omega),
    ok_bind, hsize, ok_bind]
  refine Decides.congr (decides_check _ <| decides_check _ <| decides_check _ decides_ok) ?_
  simp only [List.drop_zero, Nat.sub_zero, ne_eq, not_not, Bool.or_eq_true, decide_eq_true_eq,
    and_true, Nat.reduceSub]
  constructor
  · rintro ⟨htake, hform, hlength⟩
    have hsum : readLe ((bytes.drop 4).take 4) = bytes.length - 8 := by omega
    have hbytes := leBytes_readLe ((bytes.drop 4).take 4)
    rw [hfield, hsum] at hbytes
    refine ⟨?_, by omega⟩
    calc bytes = bytes.take 4 ++ ((bytes.drop 4).take 4 ++ ((bytes.drop 8).take 4 ++
        bytes.drop 12)) := by
          conv_rhs => rw [← List.drop_drop (i := 4) (j := 8), List.take_append_drop,
            ← List.drop_drop (i := 4) (j := 4), List.take_append_drop, List.take_append_drop]
      _ = _ := by rw [htake, hbytes, hform, List.append_assoc, List.append_assoc]
  · rintro ⟨hform, hlength⟩
    have hpieces : bytes = riffId ++ (leBytes 4 (bytes.length - 8) ++
        (waveId ++ bytes.drop 12)) := by
      simpa only [List.append_assoc] using hform
    have htake : bytes.take 4 = riffId := by
      rw [hpieces]
      exact List.take_left' hriff
    have hdrop : bytes.drop 4 = leBytes 4 (bytes.length - 8) ++ (waveId ++ bytes.drop 12) := by
      conv_lhs => rw [hpieces]
      exact List.drop_left' hriff
    have hfour : (bytes.drop 4).take 4 = leBytes 4 (bytes.length - 8) := by
      rw [hdrop]
      exact List.take_left' (length_leBytes ..)
    have height : bytes.drop 8 = waveId ++ bytes.drop 12 := by
      rw [← List.drop_drop (i := 4) (j := 4), hdrop]
      exact List.drop_left' (length_leBytes ..)
    have hsum : readLe (leBytes 4 (bytes.length - 8)) = bytes.length - 8 :=
      readLe_leBytes_of_lt (by omega)
    refine ⟨htake, ?_, ?_⟩
    · rw [height]
      exact List.take_left' hwave
    · rw [hfour, hsum]
      omega

end

/-! ## One chunk -/

theorem WavChunk.length_encode (chunk : WavChunk) : chunk.encode.length =
    8 + chunk.payload.length + chunk.payload.length % 2 := by
  simp only [encode, List.length_append, chunk.id_length, length_leBytes, chunk.padding_length]

section

variable {bytes : Bytes} {cursor : ℕ} {found : FoundChunks}

theorem placeChunk_cases (id : Bytes) (headerEnd size payloadEnd : ℕ) (found : FoundChunks) :
    (∃ message, placeChunk id headerEnd size payloadEnd found = .reject message) ∨
      ∃ found', placeChunk id headerEnd size payloadEnd found = .ok found' := by
  unfold placeChunk
  split_ifs
  · exact .inl ⟨_, rfl⟩
  · exact .inr ⟨_, rfl⟩
  · exact .inl ⟨_, rfl⟩
  · exact .inr ⟨_, rfl⟩
  · exact .inr ⟨_, rfl⟩

/-- Where the parts of a chunk at the cursor are. -/
theorem WavChunk.parts {chunk : WavChunk} (h : chunk.encode <+: bytes.drop cursor) :
    cursor + chunk.encode.length ≤ bytes.length ∧
      (bytes.drop cursor).take 4 = chunk.id ∧
      (bytes.drop (cursor + 4)).take 4 = leBytes 4 chunk.payload.length ∧
      (bytes.drop (cursor + 8)).take chunk.payload.length = chunk.payload := by
  obtain ⟨rest, hrest⟩ := h
  have hlength := congrArg List.length hrest
  have hpositive := chunk.length_encode
  rw [List.length_append, List.length_drop] at hlength
  rw [encode, List.append_assoc, List.append_assoc, List.append_assoc] at hrest
  have hfour : bytes.drop (cursor + 4) = leBytes 4 chunk.payload.length ++
      (chunk.payload ++ (chunk.padding ++ rest)) := by
    rw [← List.drop_drop, ← hrest]
    exact List.drop_left' chunk.id_length
  have height : bytes.drop (cursor + 8) = chunk.payload ++ (chunk.padding ++ rest) := by
    rw [← List.drop_drop (i := 4) (j := cursor + 4), hfour]
    exact List.drop_left' (length_leBytes ..)
  refine ⟨by omega, ?_, ?_, ?_⟩
  · rw [← hrest]
    exact List.take_left' chunk.id_length
  · rw [hfour]
    exact List.take_left' (length_leBytes ..)
  · rw [height]
    exact List.take_left' rfl

/-- The step over a chunk. -/
theorem walkChunk_eq {chunk : WavChunk} (hsize : bytes.length < 2 ^ 33)
    (h : chunk.encode <+: bytes.drop cursor) :
    walkChunk bytes cursor found =
      (placeChunk chunk.id (cursor + 8) chunk.payload.length (cursor + 8 + chunk.payload.length)
        found).map fun found' => (cursor + chunk.encode.length, found') := by
  obtain ⟨hend, hid, hlength, -⟩ := WavChunk.parts h
  have hencode := chunk.length_encode
  have hread : littleU32 bytes (cursor + 4) = .ok chunk.payload.length := by
    rw [littleU32, little_eq (by omega) (by omega), hlength,
      readLe_leBytes_of_lt (by have := chunk.payload_length; omega)]
  have hname : slice bytes cursor (cursor + 4) = .ok chunk.id := by
    rw [slice_eq (by omega) (by omega), Nat.add_sub_cancel_left, hid]
  have hstep : cursor + 8 + chunk.payload.length +
      chunk.payload.length % 2 = cursor + chunk.encode.length := by omega
  unfold walkChunk
  rw [checkedAdd_eq (by omega), ok_bind, if_neg (by omega), plainAdd_eq (by omega), ok_bind, hread,
    ok_bind, checkedAdd_eq (by omega), ok_bind, if_neg (by omega), ok_bind, hname, ok_bind]
  rcases placeChunk_cases chunk.id (cursor + 8) chunk.payload.length
    (cursor + 8 + chunk.payload.length) found with ⟨message, hplace⟩ | ⟨found', hplace⟩
  · rw [hplace]
    rfl
  · rw [hplace, ok_bind, checkedAdd_eq (by omega), ok_bind, if_neg (by omega), hstep]
    rfl

/-- A step over what is no chunk is a rejection. -/
theorem walkChunk_cases (hsize : bytes.length < 2 ^ 33) (hcursor : cursor ≤ bytes.length) :
    (∃ message, walkChunk bytes cursor found = .reject message) ∨
      ∃ chunk : WavChunk, chunk.encode <+: bytes.drop cursor := by
  unfold walkChunk
  rw [checkedAdd_eq (by omega), ok_bind]
  by_cases hheader : bytes.length < cursor + 8
  · rw [if_pos hheader]
    exact .inl ⟨_, rfl⟩
  have hfield : ((bytes.drop (cursor + 4)).take 4).length = 4 := by
    rw [List.length_take, List.length_drop]
    omega
  have hread : littleU32 bytes (cursor + 4) = .ok (readLe ((bytes.drop (cursor + 4)).take 4)) :=
    little_eq (by omega) (by omega)
  have hlt := readLe_lt ((bytes.drop (cursor + 4)).take 4)
  have hbytes := leBytes_readLe ((bytes.drop (cursor + 4)).take 4)
  rw [hfield] at hlt hbytes
  rw [if_neg hheader, plainAdd_eq (by omega), ok_bind, hread, ok_bind]
  generalize readLe ((bytes.drop (cursor + 4)).take 4) = size at hlt hbytes ⊢
  rw [checkedAdd_eq (by omega), ok_bind]
  by_cases hpayload : bytes.length < cursor + 8 + size
  · rw [if_pos hpayload]
    exact .inl ⟨_, rfl⟩
  rw [if_neg hpayload, ok_bind, slice_eq (by omega) (by omega), ok_bind]
  rcases placeChunk_cases ((bytes.drop cursor).take (cursor + 4 - cursor)) (cursor + 8) size
    (cursor + 8 + size) found with ⟨message, hplace⟩ | ⟨found', hplace⟩
  · rw [hplace]
    exact .inl ⟨_, rfl⟩
  rw [hplace, ok_bind, checkedAdd_eq (by omega), ok_bind]
  by_cases hpadding : bytes.length < cursor + 8 + size + size % 2
  · rw [if_pos hpadding]
    exact .inl ⟨_, rfl⟩
  refine .inr ⟨⟨(bytes.drop cursor).take 4, (bytes.drop (cursor + 8)).take size,
    (bytes.drop (cursor + 8 + size)).take (size % 2), ?_, ?_, ?_⟩, ?_⟩
  · rw [List.length_take, List.length_drop]
    omega
  · rw [List.length_take, List.length_drop]
    omega
  · simp only [List.length_take, List.length_drop]
    omega
  · have hlength : ((bytes.drop (cursor + 8)).take size).length = size := by
      rw [List.length_take, List.length_drop]
      omega
    have hpieces : (bytes.drop cursor).take (4 + (4 + (size + size % 2))) =
        (bytes.drop cursor).take 4 ++ leBytes 4 size ++ (bytes.drop (cursor + 8)).take size ++
          (bytes.drop (cursor + 8 + size)).take (size % 2) := by
      rw [List.take_add, List.take_add, List.take_add, List.drop_drop, List.drop_drop,
        List.drop_drop, hbytes]
      simp only [List.append_assoc]
    simp only [WavChunk.encode]
    rw [hlength, ← hpieces]
    exact List.take_prefix _ _

end

/-! ## The walk -/

/-- What was recorded of the chunks of a name : nothing if there is none, and else the place of
the payload of the only one. -/
def Records (bytes id : Bytes) (seen : List WavChunk) : Option (ℕ × ℕ) → Prop
  | none => chunksOf id seen = []
  | some (start, stop) => ∃ chunk, chunksOf id seen = [chunk] ∧
    slice? bytes start stop = some chunk.payload

/-- The walk is at the end of the chunks it has seen. -/
structure Walked (bytes : Bytes) (cursor : ℕ) (found : FoundChunks) (seen : List WavChunk) :
    Prop where
  within : cursor ≤ bytes.length
  upto : bytes.drop 12 = seen.flatMap WavChunk.encode ++ bytes.drop cursor
  format : Records bytes fmtId seen (found.format.map fun p => (p.1, p.1 + p.2))
  data : Records bytes dataId seen found.data

theorem chunksOf_append (id : Bytes) (chunks more : List WavChunk) :
    chunksOf id (chunks ++ more) = chunksOf id chunks ++ chunksOf id more :=
  List.filter_append ..

theorem chunksOf_singleton (id : Bytes) (chunk : WavChunk) :
    chunksOf id [chunk] = if chunk.id = id then [chunk] else [] := by
  simp [chunksOf, List.filter_cons]

section

variable {bytes : Bytes} {cursor : ℕ} {found : FoundChunks} {seen : List WavChunk}
  {chunk : WavChunk}

theorem Records.skip {id : Bytes} {entry : Option (ℕ × ℕ)} (h : Records bytes id seen entry)
    (hid : chunk.id ≠ id) : Records bytes id (seen ++ [chunk]) entry := by
  have hseen : chunksOf id (seen ++ [chunk]) = chunksOf id seen := by
    rw [chunksOf_append, chunksOf_singleton, if_neg hid, List.append_nil]
  cases entry with
  | none => exact hseen.trans h
  | some entry =>
    obtain ⟨first, hfirst, hpayload⟩ := h
    exact ⟨first, hseen.trans hfirst, hpayload⟩

theorem Records.first {id : Bytes} {start stop : ℕ} (h : Records bytes id seen none)
    (hid : chunk.id = id) (hpayload : slice? bytes start stop = some chunk.payload) :
    Records bytes id (seen ++ [chunk]) (some (start, stop)) := by
  have hseen : chunksOf id seen = [] := h
  refine ⟨chunk, ?_, hpayload⟩
  rw [chunksOf_append, chunksOf_singleton, if_pos hid, hseen, List.nil_append]

/-- A second chunk of a name that was recorded. -/
theorem Records.second {id : Bytes} {entry : Option (ℕ × ℕ)} (h : Records bytes id seen entry)
    (hsome : entry.isSome) (hid : chunk.id = id) :
    1 < (chunksOf id (seen ++ [chunk])).length := by
  obtain ⟨⟨start, stop⟩, rfl⟩ := Option.isSome_iff_exists.mp hsome
  obtain ⟨first, hfirst, -⟩ := h
  rw [chunksOf_append, chunksOf_singleton, if_pos hid, hfirst]
  exact Nat.one_lt_two

/-- At most one chunk of each of the two names. -/
def NoDuplicate (chunks : List WavChunk) : Prop :=
  (chunksOf fmtId chunks).length ≤ 1 ∧ (chunksOf dataId chunks).length ≤ 1

/-- A chunk is placed if it is no second one, and then the walk has seen it too. -/
theorem Walked.place (h : Walked bytes cursor found seen)
    (hchunk : chunk.encode <+: bytes.drop cursor) :
    (∃ found', placeChunk chunk.id (cursor + 8) chunk.payload.length
        (cursor + 8 + chunk.payload.length) found = .ok found' ∧
      Walked bytes (cursor + chunk.encode.length) found' (seen ++ [chunk])) ∨
    (∃ message, placeChunk chunk.id (cursor + 8) chunk.payload.length
        (cursor + 8 + chunk.payload.length) found = .reject message) ∧
      ¬NoDuplicate (seen ++ [chunk]) := by
  obtain ⟨hend, -, -, hpayload⟩ := WavChunk.parts hchunk
  have hencode := chunk.length_encode
  have hslice : slice? bytes (cursor + 8) (cursor + 8 + chunk.payload.length) =
      some chunk.payload := by
    rw [slice?_eq (by omega) (by omega), Nat.add_sub_cancel_left, hpayload]
  have hupto : bytes.drop 12 = (seen ++ [chunk]).flatMap WavChunk.encode ++
      bytes.drop (cursor + chunk.encode.length) := by
    obtain ⟨rest, hrest⟩ := hchunk
    rw [← List.drop_drop, ← hrest, List.drop_left, h.upto, ← hrest]
    simp
  have hnames : fmtId ≠ dataId := by decide
  unfold placeChunk
  split_ifs with hfmt hdup hdata hdup
  · refine .inr ⟨⟨_, rfl⟩, fun hno => ?_⟩
    have hsecond := h.format.second (by simpa using hdup) hfmt
    exact absurd hno.1 (by omega)
  · have hnone : found.format = none := by simpa using hdup
    have hformat := h.format
    rw [hnone] at hformat
    refine .inl ⟨_, rfl, hend, hupto, hformat.first hfmt hslice, ?_⟩
    exact h.data.skip fun hid => hnames (hfmt.symm.trans hid)
  · refine .inr ⟨⟨_, rfl⟩, fun hno => ?_⟩
    have hsecond := h.data.second hdup hdata
    exact absurd hno.2 (by omega)
  · have hnone : found.data = none := by simpa using hdup
    have hrecord := h.data
    rw [hnone] at hrecord
    exact .inl ⟨_, rfl, hend, hupto, h.format.skip hfmt, hrecord.first hdata hslice⟩
  · exact .inl ⟨_, rfl, hend, hupto, h.format.skip hfmt, h.data.skip hdata⟩

/-- The walk ends in a rejection, or at the end of the file. -/
theorem walkChunks_cases (hsize : bytes.length < 2 ^ 33) {fuel : ℕ}
    (hfuel : bytes.length - cursor < fuel) (h : Walked bytes cursor found seen) :
    (∃ message, walkChunks bytes fuel cursor found = .reject message) ∨
      ∃ found' chunks, walkChunks bytes fuel cursor found = .ok found' ∧
        Walked bytes bytes.length found' chunks := by
  induction fuel generalizing cursor found seen with
  | zero => cases hfuel
  | succ fuel ih =>
    rw [walkChunks]
    split
    · next hcursor =>
      rcases walkChunk_cases hsize h.within with ⟨message, hwalk⟩ | ⟨chunk, hchunk⟩
      · rw [hwalk]
        exact .inl ⟨message, rfl⟩
      have hencode := chunk.length_encode
      rw [walkChunk_eq hsize hchunk]
      rcases h.place hchunk with ⟨found', hplace, hnext⟩ | ⟨⟨message, hplace⟩, -⟩
      · rw [hplace]
        exact ih (by omega) hnext
      · rw [hplace]
        exact .inl ⟨message, rfl⟩
    · next hcursor =>
      obtain rfl : cursor = bytes.length := le_antisymm h.within (not_lt.mp hcursor)
      exact .inr ⟨found, seen, rfl, h⟩

/-- The walk sees all chunks of a file of chunks. -/
theorem walkChunks_of_chunks (hsize : bytes.length < 2 ^ 33) {fuel : ℕ} {rest : List WavChunk}
    (hfuel : bytes.length - cursor < fuel) (h : Walked bytes cursor found seen)
    (hrest : bytes.drop cursor = rest.flatMap WavChunk.encode)
    (hno : NoDuplicate (seen ++ rest)) :
    ∃ found', walkChunks bytes fuel cursor found = .ok found' ∧
      Walked bytes bytes.length found' (seen ++ rest) := by
  induction rest generalizing cursor found seen fuel with
  | nil =>
    obtain ⟨fuel, rfl⟩ := Nat.exists_eq_succ_of_ne_zero (Nat.ne_zero_of_lt hfuel)
    have hcursor : bytes.length ≤ cursor := List.drop_eq_nil_iff.mp hrest
    obtain rfl : cursor = bytes.length := le_antisymm h.within hcursor
    refine ⟨found, ?_, by rwa [List.append_nil]⟩
    rw [walkChunks, if_neg (lt_irrefl _)]
  | cons chunk rest ih =>
    obtain ⟨fuel, rfl⟩ := Nat.exists_eq_succ_of_ne_zero (Nat.ne_zero_of_lt hfuel)
    rw [List.flatMap_cons] at hrest
    have hchunk : chunk.encode <+: bytes.drop cursor := ⟨_, hrest.symm⟩
    obtain ⟨hend, -⟩ := WavChunk.parts hchunk
    have hencode := chunk.length_encode
    have happend : seen ++ chunk :: rest = seen ++ [chunk] ++ rest := by simp
    rw [walkChunks, if_pos (by omega), walkChunk_eq hsize hchunk]
    rw [happend] at hno ⊢
    rcases h.place hchunk with ⟨found', hplace, hnext⟩ | ⟨-, hdup⟩
    · rw [hplace]
      refine ih (by omega) hnext ?_ hno
      rw [← List.drop_drop, hrest, List.drop_left]
    · refine absurd ⟨?_, ?_⟩ hdup
      · refine le_trans ?_ hno.1
        rw [chunksOf_append _ _ rest, List.length_append]
        exact Nat.le_add_right ..
      · refine le_trans ?_ hno.2
        rw [chunksOf_append _ _ rest, List.length_append]
        exact Nat.le_add_right ..

end

/-! ## The files -/

section

variable {bytes pcm : Bytes}

theorem Records.of_singleton {id : Bytes} {chunks : List WavChunk} {chunk : WavChunk}
    {entry : Option (ℕ × ℕ)} (h : Records bytes id chunks entry)
    (hchunk : chunksOf id chunks = [chunk]) :
    ∃ start stop, entry = some (start, stop) ∧ slice? bytes start stop = some chunk.payload := by
  cases entry with
  | none =>
    have hnil : chunksOf id chunks = [] := h
    rw [hchunk] at hnil
    cases hnil
  | some entry =>
    obtain ⟨first, hfirst, hpayload⟩ := h
    rw [hchunk] at hfirst
    obtain rfl := List.singleton_inj.mp hfirst
    exact ⟨entry.1, entry.2, rfl, hpayload⟩

theorem walked_start (h : 12 ≤ bytes.length) : Walked bytes 12 ⟨none, none⟩ [] :=
  ⟨h, rfl, rfl, rfl⟩

theorem IsRiff.length {bytes : Bytes} (h : IsRiff bytes) :
    12 ≤ bytes.length ∧ bytes.length < 2 ^ 33 := by
  have hlength := congrArg List.length h.1
  have hriff : riffId.length = 4 := rfl
  have hwave : waveId.length = 4 := rfl
  have hbound := h.2
  simp only [List.length_append, length_leBytes] at hlength
  omega

theorem isRiff_of_chunks {chunks : List WavChunk}
    (h : bytes = riffId ++ leBytes 4 (bytes.length - 8) ++ waveId ++
      chunks.flatMap WavChunk.encode) (hsize : bytes.length - 8 < 2 ^ 32) :
    IsRiff bytes ∧ bytes.drop 12 = chunks.flatMap WavChunk.encode := by
  have hhead : (riffId ++ leBytes 4 (bytes.length - 8) ++ waveId).length = 12 := by
    have hriff : riffId.length = 4 := rfl
    have hwave : waveId.length = 4 := rfl
    simp only [List.length_append, length_leBytes]
    omega
  have hdrop : bytes.drop 12 = chunks.flatMap WavChunk.encode := by
    rw [h]
    exact List.drop_left' hhead
  refine ⟨⟨?_, hsize⟩, hdrop⟩
  rw [hdrop]
  exact h

/-- The files of the grammar are accepted. -/
theorem IsWav.accepted (h : IsWav bytes pcm) : validateWav bytes = .ok pcm := by
  obtain ⟨chunks, format, data, hbytes, hsize, hformat, hpcm, hdata, hsamples, rfl⟩ := h
  obtain ⟨hriff, hdrop⟩ := isRiff_of_chunks hbytes hsize
  obtain ⟨hlong, hbound⟩ := hriff.length
  have hno : NoDuplicate ([] ++ chunks) := by
    rw [List.nil_append, NoDuplicate, hformat, hdata]
    exact ⟨le_rfl, le_rfl⟩
  obtain ⟨found, hwalk, hwalked⟩ := @walkChunks_of_chunks _ _ _ _ hbound (bytes.length + 1) _
    (by omega) (walked_start hlong) hdrop hno
  obtain ⟨start, stop, hentry, hpayload⟩ := hwalked.format.of_singleton hformat
  obtain ⟨dataStart, dataEnd, hdataEntry, hdataPayload⟩ := hwalked.data.of_singleton hdata
  obtain ⟨⟨formatStart, formatSize⟩, hfound, heq⟩ := Option.map_eq_some_iff.mp hentry
  obtain ⟨rfl, rfl⟩ := Prod.mk.inj heq
  have hheaderOk : checkHeader bytes = .ok () :=
    checkHeader_decides.ok_of hriff
  have hformatOk : checkFormat bytes formatStart formatSize = .ok () :=
    (checkFormat_decides hpayload hbound).ok_of hpcm
  have hdataOk : checkData bytes dataStart dataEnd = .ok data.payload :=
    (checkData_decides hdataPayload).ok_of hsamples
  rw [validateWav, hheaderOk, ok_bind, hwalk, ok_bind, hfound]
  dsimp only
  rw [hformatOk, ok_bind, hdataEntry]
  exact hdataOk

/-- A file is rejected, or it is of the grammar. -/
theorem validateWav_cases (bytes : Bytes) : (∃ message, validateWav bytes = .reject message) ∨
    ∃ pcm, validateWav bytes = .ok pcm ∧ IsWav bytes pcm := by
  rcases @checkHeader_decides bytes with ⟨hriff, hheader⟩ | ⟨-, message, hheader⟩
  swap
  · rw [validateWav, hheader]
    exact .inl ⟨message, rfl⟩
  obtain ⟨hlong, hbound⟩ := hriff.length
  rw [validateWav, hheader, ok_bind]
  rcases walkChunks_cases hbound (Nat.lt_succ_of_le (Nat.sub_le _ _)) (walked_start hlong) with
    ⟨message, hwalk⟩ | ⟨found, chunks, hwalk, hwalked⟩
  · rw [hwalk]
    exact .inl ⟨message, rfl⟩
  rw [hwalk, ok_bind]
  have hbytes : bytes = riffId ++ leBytes 4 (bytes.length - 8) ++ waveId ++
      chunks.flatMap WavChunk.encode := by
    have hchunks : chunks.flatMap WavChunk.encode = bytes.drop 12 := by
      rw [hwalked.upto, List.drop_length, List.append_nil]
    rw [hchunks]
    exact hriff.1
  have hformat := hwalked.format
  have hdata := hwalked.data
  rcases hfound : found.format with _ | ⟨formatStart, formatSize⟩
  · exact .inl ⟨_, rfl⟩
  rw [hfound] at hformat
  obtain ⟨format, hformatChunk, hpayload⟩ := hformat
  dsimp only
  rcases checkFormat_decides hpayload hbound with ⟨hpcm, hcheck⟩ | ⟨-, message, hcheck⟩
  swap
  · rw [hcheck]
    exact .inl ⟨message, rfl⟩
  rw [hcheck, ok_bind]
  rcases hfoundData : found.data with _ | ⟨dataStart, dataEnd⟩
  · exact .inl ⟨_, rfl⟩
  rw [hfoundData] at hdata
  obtain ⟨data, hdataChunk, hdataPayload⟩ := hdata
  dsimp only
  rcases checkData_decides hdataPayload with ⟨hsamples, hcheckData⟩ | ⟨-, message, hcheckData⟩
  swap
  · rw [hcheckData]
    exact .inl ⟨message, rfl⟩
  refine .inr ⟨data.payload, hcheckData, chunks, format, data, hbytes, hriff.2, hformatChunk, hpcm,
    hdataChunk, hsamples, rfl⟩

end

/-- The validator accepts the files of the grammar, with their samples, and no others. On every
string of bytes it ends, and no slice and no sum is out of range. -/
theorem validateWav_eq_ok (bytes : Bytes) :
    (∀ pcm, validateWav bytes = .ok pcm ↔ IsWav bytes pcm) ∧
      validateWav bytes ≠ .error .panicked := by
  rcases validateWav_cases bytes with ⟨message, hreject⟩ | ⟨pcm, hok, hwav⟩
  · refine ⟨fun pcm => ⟨fun h => ?_, IsWav.accepted⟩, ?_⟩
    · rw [hreject] at h
      cases h
    · rw [hreject]
      exact nofun
  · refine ⟨fun other => ⟨fun h => ?_, IsWav.accepted⟩, ?_⟩
    · rw [hok] at h
      obtain rfl := Except.ok.inj h
      exact hwav
    · rw [hok]
      exact nofun

/-- A chunk of an odd size, then the samples before the format. -/
example : validateWav (riffId ++ leBytes 4 50 ++ waveId ++
    ascii ['j', 'u', 'n', 'k'] ++ leBytes 4 1 ++ [7, 0] ++ dataId ++ leBytes 4 4 ++ [1, 2, 3, 4] ++
    fmtId ++ leBytes 4 16 ++ leBytes 2 1 ++ leBytes 2 1 ++ leBytes 4 48000 ++ leBytes 4 96000 ++
    leBytes 2 2 ++ leBytes 2 16) = .ok [1, 2, 3, 4] := by decide +kernel

end Speck
