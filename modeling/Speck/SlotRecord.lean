import Speck.F32
import Mathlib.Data.Nat.Digits.Defs
import Mathlib.Data.Nat.Digits.Lemmas

/-!
# Slot records

The file format of `runtime/crumb/storage.c` : a header, an `i32` in decimal and a line feed.
The parser accepts the printed records and nothing else (`parseI32_eq_some`).
-/

namespace Speck

/-! ## Decimal digits -/

abbrev Bytes := List UInt8

/-- An ASCII string. -/
def ascii (text : List Char) : Bytes := text.map fun c => UInt8.ofNat c.toNat

def digitByte (d : ℕ) : UInt8 := UInt8.ofNat (48 + d)

/-- The decimal digits of a number, the leading one first. -/
def decimalDigits (n : ℕ) : List ℕ := if n = 0 then [0] else (Nat.digits 10 n).reverse

/-- What digits make of a number that the digits before them began. -/
def readDigits (magnitude : ℕ) (digits : List ℕ) : ℕ :=
  digits.foldl (fun magnitude d => magnitude * 10 + d) magnitude

/-- No leading zero. -/
def Canonical (digits : List ℕ) : Prop :=
  digits ≠ [] ∧ (∀ d ∈ digits, d < 10) ∧ (1 < digits.length → digits.head? ≠ some 0)

theorem readDigits_zero (digits : List ℕ) :
    readDigits 0 digits = Nat.ofDigits 10 digits.reverse := by
  rw [Nat.ofDigits_eq_foldr, List.foldr_reverse, readDigits]
  congr 1
  funext magnitude d
  simp only [Nat.cast_id]
  omega

theorem readDigits_decimalDigits (n : ℕ) : readDigits 0 (decimalDigits n) = n := by
  unfold decimalDigits
  split
  · next h => simp [h, readDigits]
  · rw [readDigits_zero, List.reverse_reverse, Nat.ofDigits_digits]

theorem canonical_decimalDigits (n : ℕ) : Canonical (decimalDigits n) := by
  unfold decimalDigits
  split
  · exact ⟨by simp, by simp, by simp⟩
  · next h =>
    have hne : Nat.digits 10 n ≠ [] := Nat.digits_ne_nil_iff_ne_zero.mpr h
    refine ⟨by simpa using hne, fun d hd => ?_, fun _ => ?_⟩
    · exact Nat.digits_lt_base (by norm_num) (List.mem_reverse.mp hd)
    · rw [List.head?_reverse, List.getLast?_eq_some_getLast hne]
      simpa using Nat.getLast_digit_ne_zero 10 h

/-- A number has one canonical spelling. -/
theorem Canonical.eq_decimalDigits {digits : List ℕ} (h : Canonical digits) :
    digits = decimalDigits (readDigits 0 digits) := by
  obtain ⟨hne, hlt, hhead⟩ := h
  by_cases hzero : digits = [0]
  · simp [hzero, readDigits, decimalDigits]
  have hlast : ∀ hne : digits.reverse ≠ [], digits.reverse.getLast hne ≠ 0 := by
    intro hne' h0
    obtain ⟨d, rest, rfl⟩ := List.exists_cons_of_ne_nil hne
    simp only [List.reverse_cons, List.getLast_append_singleton] at h0
    subst h0
    cases rest with
    | nil => exact hzero rfl
    | cons e rest => exact hhead (by simp) rfl
  have hdigits : Nat.digits 10 (readDigits 0 digits) = digits.reverse := by
    rw [readDigits_zero]
    exact Nat.digits_ofDigits 10 (by norm_num) _ (fun d hd => hlt d (List.mem_reverse.mp hd)) hlast
  have hpos : readDigits 0 digits ≠ 0 := by
    rw [← Nat.digits_ne_nil_iff_ne_zero (b := 10), hdigits]
    simpa using hne
  rw [decimalDigits, if_neg hpos, hdigits, List.reverse_reverse]

theorem le_readDigits (magnitude : ℕ) (digits : List ℕ) :
    magnitude ≤ readDigits magnitude digits := by
  induction digits generalizing magnitude with
  | nil => exact le_refl _
  | cons d digits ih =>
    have h := ih (magnitude * 10 + d)
    simp only [readDigits, List.foldl_cons] at h ⊢
    omega

theorem digitByte_toNat {d : ℕ} (h : d < 10) : (digitByte d).toNat = 48 + d := by
  simp only [digitByte, UInt8.toNat_ofNat']
  omega

theorem digitByte_of_digit {b : UInt8} (hlow : 48 ≤ b.toNat) : digitByte (b.toNat - 48) = b := by
  rw [digitByte, Nat.add_sub_cancel' hlow]
  simp

/-! ## The record -/

/-- `CRUMB_STORAGE_HEADER`. -/
def storageHeader : Bytes :=
  ascii ['S', 'P', 'E', 'C', 'K', '-', 'I', '3', '2', '-', 'V', '1', '\n']

/-- `"%" PRId32`. -/
def printI32 (value : I32) : Bytes :=
  let digits := (decimalDigits value.toInt.natAbs).map digitByte
  if value.toInt < 0 then 45 :: digits else digits

/-- The contents of a slot file. -/
def slotRecord (value : I32) : Bytes := storageHeader ++ printI32 value ++ [10]

/-- The loop over the digits. -/
def parseDigits (limit : ℕ) : Bytes → ℕ → Option ℕ
  | [], magnitude => some magnitude
  | b :: rest, magnitude =>
    if b.toNat < 48 || 57 < b.toNat then none
    else
      let digit := b.toNat - 48
      if (limit - digit) / 10 < magnitude then none
      else parseDigits limit rest (magnitude * 10 + digit)

/-- The digits of a number with its sign and its limit. -/
def parseMagnitude (negative : Bool) (digits : Bytes) : Option I32 :=
  if digits = [] || (1 < digits.length && digits.head? = some 48) then none
  else
    match parseDigits (if negative then 2147483648 else 2147483647) digits 0 with
    | none => none
    | some magnitude =>
      if negative && magnitude = 0 then none
      else some (BitVec.ofInt 32 (if negative then -(magnitude : ℤ) else magnitude))

/-- `crumb_storage_parse_i32`. -/
def parseI32 (data : Bytes) : Option I32 :=
  if data.length ≤ storageHeader.length + 1 || data.take storageHeader.length ≠ storageHeader ||
      data.getLast? ≠ some 10 then none
  else
    match (data.drop storageHeader.length).dropLast with
    | 45 :: digits => parseMagnitude true digits
    | digits => parseMagnitude false digits

theorem parseDigits_eq_some {limit : ℕ} (hlimit : 10 ≤ limit) {bytes : Bytes} {magnitude r : ℕ}
    (hmagnitude : magnitude ≤ limit) :
    parseDigits limit bytes magnitude = some r ↔
      ∃ digits, bytes = digits.map digitByte ∧ (∀ d ∈ digits, d < 10) ∧
        readDigits magnitude digits = r ∧ r ≤ limit := by
  induction bytes generalizing magnitude with
  | nil =>
    simp only [parseDigits, Option.some.injEq]
    constructor
    · rintro rfl
      exact ⟨[], rfl, by simp, rfl, hmagnitude⟩
    · rintro ⟨digits, hnil, -, hread, -⟩
      obtain rfl := List.map_eq_nil_iff.mp hnil.symm
      exact hread
  | cons b bytes ih =>
    simp only [parseDigits]
    constructor
    · intro h
      split at h
      · cases h
      next hdigit =>
      simp only [Bool.or_eq_true, decide_eq_true_eq, not_or, not_lt] at hdigit
      split at h
      · cases h
      next hbound =>
      have hle : magnitude * 10 + (b.toNat - 48) ≤ limit := by omega
      obtain ⟨digits, rfl, hlt, hread, hr⟩ := (ih hle).mp h
      refine ⟨(b.toNat - 48) :: digits, ?_, ?_, hread, hr⟩
      · rw [List.map_cons, digitByte_of_digit hdigit.1]
      · exact List.forall_mem_cons.mpr ⟨by omega, hlt⟩
    · rintro ⟨digits, heq, hlt, hread, hr⟩
      cases digits with
      | nil => cases heq
      | cons d digits =>
        obtain ⟨rfl, rfl⟩ := List.cons.inj heq
        obtain ⟨hd, hlt⟩ := List.forall_mem_cons.mp hlt
        have hle : magnitude * 10 + d ≤ limit := (le_readDigits _ digits).trans (hread.le.trans hr)
        have hb := digitByte_toNat hd
        rw [if_neg (by simp; omega), if_neg (by omega), hb, Nat.add_sub_cancel_left]
        exact (ih hle).mpr ⟨digits, rfl, hlt, hread, hr⟩

theorem head?_map_digitByte {digits : List ℕ} (hlt : ∀ d ∈ digits, d < 10) :
    (digits.map digitByte).head? = some 48 ↔ digits.head? = some 0 := by
  cases digits with
  | nil => simp
  | cons d digits =>
    have hb := digitByte_toNat (hlt d (by simp))
    simp only [List.map_cons, List.head?_cons, Option.some.injEq]
    constructor
    · intro h
      rw [h] at hb
      have h48 : (48 : UInt8).toNat = 48 := rfl
      omega
    · rintro rfl
      rfl

/-- The parser reads the canonical digits of numbers up to the limit. -/
theorem parseDigits_decimalDigits {limit : ℕ} (hlimit : 10 ≤ limit) {bytes : Bytes} {n : ℕ} :
    (¬(bytes = [] ∨ 1 < bytes.length ∧ bytes.head? = some 48) ∧
      parseDigits limit bytes 0 = some n) ↔
      bytes = (decimalDigits n).map digitByte ∧ n ≤ limit := by
  rw [parseDigits_eq_some hlimit (Nat.zero_le _)]
  constructor
  · rintro ⟨hcanonical, digits, rfl, hlt, rfl, hn⟩
    push Not at hcanonical
    obtain ⟨hne, hhead⟩ := hcanonical
    have hdigits : Canonical digits := by
      refine ⟨by simpa using hne, hlt, fun hlen h0 => ?_⟩
      exact hhead (by simpa using hlen) ((head?_map_digitByte hlt).mpr h0)
    exact ⟨congrArg _ hdigits.eq_decimalDigits, hn⟩
  · rintro ⟨rfl, hn⟩
    obtain ⟨hne, hlt, hhead⟩ := canonical_decimalDigits n
    refine ⟨?_, decimalDigits n, rfl, hlt, readDigits_decimalDigits n, hn⟩
    rintro (h | ⟨hlen, h⟩)
    · exact hne (List.map_eq_nil_iff.mp h)
    · exact hhead (by simpa using hlen) ((head?_map_digitByte hlt).mp h)

theorem parseMagnitude_eq_some {negative : Bool} {digits : Bytes} {value : I32} :
    parseMagnitude negative digits = some value ↔
      (value.toInt < 0 ↔ negative = true) ∧
        digits = (decimalDigits value.toInt.natAbs).map digitByte := by
  have hlimit : 10 ≤ if negative then 2147483648 else 2147483647 := by split <;> norm_num
  have hlow := BitVec.le_toInt value
  have hhigh := BitVec.toInt_lt (x := value)
  constructor
  · intro h
    unfold parseMagnitude at h
    split at h
    · cases h
    next hcanonical =>
    simp only [Bool.or_eq_true, Bool.and_eq_true, decide_eq_true_eq] at hcanonical
    split at h
    · cases h
    next magnitude hparse =>
    obtain ⟨hdigits, hbound⟩ := (parseDigits_decimalDigits hlimit).mp ⟨hcanonical, hparse⟩
    split at h
    · cases h
    next hzero =>
    obtain rfl := Option.some.inj h
    have hvalue : (BitVec.ofInt 32 (if negative then -(magnitude : ℤ) else magnitude)).toInt =
        if negative then -(magnitude : ℤ) else magnitude := by
      rw [BitVec.toInt_ofInt]
      refine Int.bmod_eq_of_le ?_ ?_ <;> cases negative <;> simp at hbound ⊢ <;> omega
    rw [hvalue]
    cases negative
    · exact ⟨by simp, by simpa using hdigits⟩
    · simp only [Bool.true_and, decide_eq_true_eq] at hzero
      exact ⟨by simp; omega, by simpa using hdigits⟩
  · rintro ⟨hsign, hdigits⟩
    have hbound : value.toInt.natAbs ≤ if negative then 2147483648 else 2147483647 := by
      cases negative <;> simp at hsign ⊢ <;> omega
    obtain ⟨hcanonical, hparse⟩ := (parseDigits_decimalDigits hlimit).mpr ⟨hdigits, hbound⟩
    unfold parseMagnitude
    rw [if_neg (by simpa using hcanonical), hparse]
    have hvalue : (if negative then -(value.toInt.natAbs : ℤ) else value.toInt.natAbs) =
        value.toInt := by
      cases negative with
      | false =>
        have hpos : 0 ≤ value.toInt := by simpa using hsign
        simp only [Bool.false_eq_true, if_false]
        omega
      | true =>
        have hneg : value.toInt < 0 := by simpa using hsign
        simp only [if_true]
        omega
    have hzero : ¬(negative && decide (value.toInt.natAbs = 0)) = true := by
      cases negative <;> simp at hsign ⊢
      omega
    simp only [if_neg hzero, hvalue, BitVec.ofInt_toInt]

theorem printI32_ne_nil (value : I32) : printI32 value ≠ [] := by
  have hne := (canonical_decimalDigits value.toInt.natAbs).1
  unfold printI32
  split <;> simp [hne]

/-- The body of a record, whose sign the parser takes off. -/
theorem parseBody_eq_some {body : Bytes} {value : I32} :
    (match body with
      | 45 :: digits => parseMagnitude true digits
      | digits => parseMagnitude false digits) = some value ↔ body = printI32 value := by
  unfold printI32
  split
  · next digits =>
    rw [parseMagnitude_eq_some]
    by_cases hneg : value.toInt < 0
    · simp [hneg]
    · have hmem : ∀ d ∈ decimalDigits value.toInt.natAbs, digitByte d ≠ 45 := fun d hd h => by
        have hb := digitByte_toNat ((canonical_decimalDigits _).2.1 d hd)
        rw [h] at hb
        have h45 : (45 : UInt8).toNat = 45 := rfl
        omega
      simp only [hneg, if_false, false_iff, not_true_eq_false, false_and, false_iff]
      intro h
      obtain ⟨d, hd, hd45⟩ := List.mem_map.mp (h ▸ List.mem_cons_self)
      exact hmem d hd hd45
  · next hminus =>
    rw [parseMagnitude_eq_some]
    by_cases hneg : value.toInt < 0
    · simp only [hneg, if_true, Bool.false_eq_true, iff_false, not_true_eq_false, false_and,
        false_iff]
      exact hminus _
    · simp [hneg]

/-- The parser accepts the records of the printer, and returns what was printed. -/
theorem parseI32_eq_some {data : Bytes} {value : I32} :
    parseI32 data = some value ↔ data = slotRecord value := by
  unfold parseI32 slotRecord
  constructor
  · intro h
    split at h
    · cases h
    next hform =>
    simp only [Bool.or_eq_true, decide_eq_true_eq, not_or, not_le, not_not] at hform
    obtain ⟨⟨hlen, htake⟩, hlast⟩ := hform
    have hbody := parseBody_eq_some.mp h
    have hdrop : data.drop storageHeader.length ≠ [] := by
      simp only [ne_eq, List.drop_eq_nil_iff]
      omega
    have hline : (data.drop storageHeader.length).getLast hdrop = 10 := by
      have hlast' := hlast
      rw [← List.take_append_drop storageHeader.length data, List.getLast?_append_of_ne_nil _ hdrop,
        List.getLast?_eq_some_getLast hdrop] at hlast'
      exact Option.some.inj hlast'
    rw [List.append_assoc, ← hbody, ← hline, List.dropLast_concat_getLast hdrop]
    conv_lhs => rw [← List.take_append_drop storageHeader.length data, htake]
  · rintro rfl
    have hlen : 0 < (printI32 value).length := List.length_pos_of_ne_nil (printI32_ne_nil value)
    rw [if_neg]
    · rw [List.append_assoc, List.drop_left, List.dropLast_concat]
      exact parseBody_eq_some.mpr rfl
    · simp only [Bool.or_eq_true, decide_eq_true_eq, not_or, not_le, not_not]
      refine ⟨⟨by simp; omega, by simp [List.append_assoc]⟩, by simp⟩

/-- A record is shorter than the buffers of the save and of the load. -/
theorem length_slotRecord_le (value : I32) : (slotRecord value).length ≤ 25 := by
  have hdigits : (decimalDigits value.toInt.natAbs).length ≤ 10 := by
    have hlow := BitVec.le_toInt value
    have hhigh := BitVec.toInt_lt (x := value)
    unfold decimalDigits
    split
    · simp
    · rw [List.length_reverse, Nat.digits_length_le_iff (by norm_num)]
      norm_num at hlow hhigh ⊢
      omega
  have hheader : storageHeader.length = 13 := rfl
  unfold slotRecord printI32
  split <;> simp [hheader] <;> omega

end Speck
