import Speck.Bytes
import Speck.SlotRecord
import Mathlib.Data.List.Range

/-!
# The parser of stored integers

`crumb_storage_parse_i32` as C computes it, over a buffer and a length, with 32-bit unsigned
arithmetic. Every read, difference and unsigned result is checked, and a failed check is a
fault. The parser has none (`parseStored_eq`), and its results are those of `parseI32`, the
same function on the list of bytes. So it inverts the formatting of `crumb_save_i32`.
-/

namespace Speck

/-! ## Buffers -/

/-- The bytes of a buffer from an index on. -/
def cells (memory : ℕ → UInt8) (start count : ℕ) : Bytes := (List.range' start count).map memory

section Cells

variable (memory : ℕ → UInt8) (start count : ℕ)

@[simp] theorem length_cells : (cells memory start count).length = count := by simp [cells]

@[simp] theorem cells_zero : cells memory start 0 = [] := rfl

theorem cells_succ : cells memory start (count + 1) =
    memory start :: cells memory (start + 1) count := rfl

theorem cells_concat : cells memory start (count + 1) =
    cells memory start count ++ [memory (start + count)] := by
  simp [cells, List.range'_concat]

theorem cells_add (more : ℕ) : cells memory start (count + more) =
    cells memory start count ++ cells memory (start + count) more := by
  rw [cells, ← List.range'_append_1, List.map_append]
  rfl

end Cells

/-! ## Checked operations -/

/-- What would be undefined or wrong in the C function. -/
inductive ParseFault
  | outOfBounds
  | wrapped
  | endless
  deriving DecidableEq, Repr

/-- `data[index]`. -/
def readByte (memory : ℕ → UInt8) (length index : ℕ) : Except ParseFault UInt8 :=
  if index < length then .ok (memory index) else .error .outOfBounds

/-- The bytes that `memcmp` compares. -/
def comparedBytes (memory : ℕ → UInt8) (length : ℕ) : ℕ → ℕ → Except ParseFault Bytes
  | _, 0 => .ok []
  | start, count + 1 => do
    let first ← readByte memory length start
    let rest ← comparedBytes memory length (start + 1) count
    return first :: rest

/-- A difference of two `size_t`. -/
def difference (a b : ℕ) : Except ParseFault ℕ := if b ≤ a then .ok (a - b) else .error .wrapped

/-- A result of `uint32_t` arithmetic. -/
def uint32 (value : ℤ) : Except ParseFault ℕ :=
  if 0 ≤ value ∧ value < 2 ^ 32 then .ok value.toNat else .error .wrapped

/-! ## The parser -/

section

variable (memory : ℕ → UInt8) (length : ℕ)

/-- The loop over the digits, at a cursor. It returns the cursor and the magnitude. -/
def storedDigits (limit : ℕ) : ℕ → ℕ → ℕ → Except ParseFault (Option (ℕ × ℕ))
  | 0, _, _ => .error .endless
  | fuel + 1, cursor, magnitude => do
    if cursor < (← difference length 1) then
      let byte ← readByte memory length cursor
      if byte.toNat < 48 || 57 < byte.toNat then
        return none
      else
        let digit ← uint32 (byte.toNat - 48)
        let room ← uint32 (limit - digit)
        if room / 10 < magnitude then
          return none
        else
          let scaled ← uint32 (magnitude * 10)
          let magnitude ← uint32 (scaled + digit)
          storedDigits limit fuel (cursor + 1) magnitude
    else
      return some (cursor, magnitude)

/-- Whether more than one digit is left and the first one is a zero. -/
def leadingZero (cursor : ℕ) : Except ParseFault Bool := do
  if 1 < (← difference (← difference length 1) cursor) then
    return (← readByte memory length cursor) == 48
  else
    return false

/-- The digits and the conversion, from the first cursor after the sign. -/
def storedNumber (negative : Bool) (cursor : ℕ) : Except ParseFault (Option I32) := do
  if (← difference length 1) ≤ cursor then
    return none
  else if ← leadingZero memory length cursor then
    return none
  else
    match ← storedDigits memory length (if negative then 2147483648 else 2147483647) length
      cursor 0 with
    | none => return none
    | some (stop, magnitude) =>
      if stop = cursor || (negative && magnitude = 0) then
        return none
      else
        return some (BitVec.ofInt 32 (if negative then -(magnitude : ℤ) else magnitude))

/-- `crumb_storage_parse_i32`. -/
def parseStored : Except ParseFault (Option I32) := do
  if length ≤ storageHeader.length + 1 then
    return none
  else if (← comparedBytes memory length 0 storageHeader.length) ≠ storageHeader then
    return none
  else if (← readByte memory length (← difference length 1)) ≠ 10 then
    return none
  else if (← readByte memory length storageHeader.length) = 45 then
    storedNumber memory length true (storageHeader.length + 1)
  else
    storedNumber memory length false storageHeader.length

end

/-- The contents that `crumb_save_i32` formats into a buffer of 40 bytes. -/
def saveContents (value : I32) : Option Bytes :=
  if (slotRecord value).length < 40 then some (slotRecord value) else none

/-! ## Correctness -/

section

variable {memory : ℕ → UInt8} {length : ℕ}

theorem readByte_eq {index : ℕ} (h : index < length) :
    readByte memory length index = .ok (memory index) := if_pos h

theorem difference_eq {a b : ℕ} (h : b ≤ a) : difference a b = .ok (a - b) := if_pos h

theorem uint32_eq {value : ℤ} {n : ℕ} (h : value = n) (hn : n < 2 ^ 32) :
    uint32 value = .ok n := by
  subst h
  rw [uint32, if_pos ⟨by omega, by exact_mod_cast hn⟩, Int.toNat_natCast]

theorem comparedBytes_eq {start count : ℕ} (h : start + count ≤ length) :
    comparedBytes memory length start count = .ok (cells memory start count) := by
  induction count generalizing start with
  | zero => rfl
  | succ count ih =>
    have hrest := @ih (start + 1) (by omega)
    rw [comparedBytes, readByte_eq (by omega), hrest]
    rfl

/-- The loop stays below the last byte, and its arithmetic below `2 ^ 32`. -/
theorem storedDigits_eq {limit fuel cursor count magnitude : ℕ} (hlimit : 9 ≤ limit)
    (hmax : limit < 2 ^ 32) (hmagnitude : magnitude ≤ limit) (hcursor : cursor + count + 1 = length)
    (hfuel : count < fuel) :
    storedDigits memory length limit fuel cursor magnitude =
      .ok ((parseDigits limit (cells memory cursor count) magnitude).map fun m =>
        (cursor + count, m)) := by
  obtain ⟨fuel, rfl⟩ := Nat.exists_eq_succ_of_ne_zero (Nat.ne_zero_of_lt hfuel)
  have hlast : difference length 1 = .ok (cursor + count) := by
    rw [difference_eq (by omega)]
    congr 1
    omega
  induction count generalizing fuel cursor magnitude with
  | zero =>
    rw [storedDigits, hlast]
    rw [ok_bind, if_neg (by omega)]
    rfl
  | succ count ih =>
    have hread : readByte memory length cursor = .ok (memory cursor) := readByte_eq (by omega)
    rw [storedDigits, hlast, ok_bind, if_pos (by omega), hread, ok_bind, cells_succ, parseDigits]
    split
    · rfl
    · next hdigit =>
      simp only [Bool.or_eq_true, decide_eq_true_eq, not_or, not_lt] at hdigit
      have hvalue : uint32 ((memory cursor).toNat - 48) = .ok ((memory cursor).toNat - 48) :=
        uint32_eq (by omega) (by omega)
      have hroom : uint32 (limit - ((memory cursor).toNat - 48 : ℕ)) =
          .ok (limit - ((memory cursor).toNat - 48)) := uint32_eq (by omega) (by omega)
      rw [hvalue, ok_bind, hroom, ok_bind]
      dsimp only
      split
      · rfl
      · next hbound =>
        have hscaled : uint32 (magnitude * 10) = .ok (magnitude * 10) :=
          uint32_eq (Nat.cast_mul _ _).symm (by omega)
        have hsum : uint32 ((magnitude * 10 : ℕ) + ((memory cursor).toNat - 48 : ℕ)) =
            .ok (magnitude * 10 + ((memory cursor).toNat - 48)) :=
          uint32_eq (Nat.cast_add _ _).symm (by omega)
        obtain ⟨fuel, rfl⟩ := Nat.exists_eq_succ_of_ne_zero (by omega : fuel ≠ 0)
        have hnext := @ih (cursor + 1) (magnitude * 10 + ((memory cursor).toNat - 48)) (by omega)
          (by omega) fuel (by omega) (hlast.trans (by rw [Nat.add_right_comm, Nat.add_assoc]))
        rw [hscaled, ok_bind, hsum, ok_bind, hnext, Nat.add_right_comm cursor 1 count,
          Nat.add_assoc]

theorem leadingZero_eq {cursor count : ℕ} (hcursor : cursor + count + 1 = length) :
    leadingZero memory length cursor =
      .ok (1 < (cells memory cursor count).length &&
        (cells memory cursor count).head? = some 48) := by
  have hlast : length - 1 = cursor + count := by omega
  have hleft : cursor + count - cursor = count := by omega
  rw [leadingZero, difference_eq (by omega), ok_bind, hlast, difference_eq (by omega), ok_bind,
    hleft, length_cells]
  split
  · next hcount =>
    obtain ⟨rest, rfl⟩ := Nat.exists_eq_succ_of_ne_zero (by omega : count ≠ 0)
    rw [readByte_eq (by omega), ok_bind, cells_succ, List.head?_cons, decide_eq_true hcount]
    simp only [Option.some.injEq, Bool.true_and]
    rfl
  · next hcount => simp [hcount, pure, Except.pure]

theorem storedNumber_eq {negative : Bool} {cursor count : ℕ}
    (hcursor : cursor + count + 1 = length) :
    storedNumber memory length negative cursor =
      .ok (parseMagnitude negative (cells memory cursor count)) := by
  have hlast : length - 1 = cursor + count := by omega
  rw [storedNumber, difference_eq (by omega), ok_bind, hlast, parseMagnitude]
  rcases Nat.eq_zero_or_pos count with rfl | hcount
  · rw [if_pos (by omega), cells_zero, if_pos (by simp)]
    rfl
  have hne : cells memory cursor count ≠ [] := by
    rw [← List.length_pos_iff, length_cells]
    exact hcount
  rw [if_neg (by omega), leadingZero_eq hcursor, ok_bind, decide_eq_false hne, Bool.false_or]
  split
  · rfl
  · have hlimit : 9 ≤ if negative then 2147483648 else 2147483647 := by split <;> norm_num
    have hmax : (if negative then 2147483648 else 2147483647) < 2 ^ 32 := by split <;> norm_num
    rw [storedDigits_eq hlimit hmax (Nat.zero_le _) hcursor (by omega), ok_bind]
    generalize parseDigits _ (cells memory cursor count) 0 = parsed
    cases parsed with
    | none => rfl
    | some magnitude =>
      have hmoved : ¬cursor + count = cursor := by omega
      simp only [Option.map_some, decide_eq_false hmoved, Bool.false_or]
      split <;> rfl

/-- The checked parser has no fault, and computes what the parser of lists does. -/
theorem parseStored_eq : parseStored memory length = .ok (parseI32 (cells memory 0 length)) := by
  have hheader : storageHeader.length = 13 := rfl
  rw [parseStored, parseI32, length_cells, hheader]
  rcases Nat.lt_or_ge 14 length with hlen | hlen
  · obtain ⟨count, rfl⟩ : ∃ count, length = 13 + (count + 1 + 1) := ⟨length - 15, by omega⟩
    have hcells : cells memory 0 (13 + (count + 1 + 1)) =
        cells memory 0 13 ++ (cells memory 13 (count + 1) ++ [memory (13 + (count + 1))]) := by
      rw [cells_add, ← cells_concat, Nat.zero_add]
    have htake : (cells memory 0 (13 + (count + 1 + 1))).take 13 = cells memory 0 13 := by
      rw [hcells, List.take_left' (length_cells ..)]
    have hbody : ((cells memory 0 (13 + (count + 1 + 1))).drop 13).dropLast =
        cells memory 13 (count + 1) := by
      rw [hcells, List.drop_left' (length_cells ..), List.dropLast_concat]
    have hline : (cells memory 0 (13 + (count + 1 + 1))).getLast? =
        some (memory (13 + (count + 1))) := by
      rw [hcells, ← List.append_assoc, List.getLast?_concat]
    rw [if_neg (by omega), comparedBytes_eq (by omega), ok_bind, htake, hbody, hline]
    by_cases hform : cells memory 0 13 = storageHeader
    · have hlast : 13 + (count + 1 + 1) - 1 = 13 + (count + 1) := by omega
      rw [if_neg (by simpa using hform), difference_eq (by omega), ok_bind, hlast,
        readByte_eq (by omega), ok_bind]
      by_cases hfeed : memory (13 + (count + 1)) = 10
      · rw [if_neg (by simpa using hfeed), if_neg (by simpa [hform, hfeed] using hlen),
          readByte_eq (by omega), ok_bind, cells_succ]
        split
        · next hminus =>
          rw [hminus, storedNumber_eq (by omega : 13 + 1 + count + 1 = 13 + (count + 1 + 1))]
          rfl
        · next hminus =>
          rw [storedNumber_eq (by omega : 13 + (count + 1) + 1 = 13 + (count + 1 + 1)), cells_succ]
          split
          · next heq => exact absurd (List.cons.inj heq).1 hminus
          · rfl
      · rw [if_pos hfeed, if_pos (by simp [hfeed])]
        rfl
    · rw [if_pos hform, if_pos (by simp [hform])]
      rfl
  · rw [if_pos hlen, if_pos (by simp [hlen])]
    rfl

end

/-- The parser has no fault on any buffer of any length : it reads below the length, and its
unsigned arithmetic does not wrap. It returns `v` on the bytes that the save of `v` formats, and
on no others : a canonical decimal that fits, with a sign if it is negative. -/
theorem parseStored_saveContents (memory : ℕ → UInt8) (length : ℕ) :
    ∃ result, parseStored memory length = .ok result ∧
      ∀ value, (result = some value ↔ saveContents value = some (cells memory 0 length)) ∧
        (result = some value → ∃ digits, Canonical digits ∧
          readDigits 0 digits = value.toInt.natAbs ∧
          cells memory 0 length = storageHeader ++ (if value.toInt < 0 then [45] else []) ++
            digits.map digitByte ++ [10]) := by
  have hsaved (value : I32) : saveContents value = some (slotRecord value) :=
    if_pos (lt_of_le_of_lt (length_slotRecord_le value) (by norm_num))
  refine ⟨_, parseStored_eq, fun value => ⟨?_, fun h => ?_⟩⟩
  · rw [parseI32_eq_some, hsaved, Option.some.injEq, eq_comm]
  · have hbytes := parseI32_eq_some.mp h
    refine ⟨_, canonical_decimalDigits _, readDigits_decimalDigits _, ?_⟩
    rw [hbytes, slotRecord, printI32]
    split <;> simp

end Speck
