import Mathlib.Data.List.Basic
import Mathlib.Data.List.TakeWhile
import Mathlib.Tactic.Common

/-!
# Text

A text by its characters, and as the bytes of its encoding. Byte offsets are offsets into the
encoding : those between two characters are its boundaries, and only there can a text be cut
(`splitAt`). Characters below 128 are their own bytes, and the bytes of all others are above. So a
loop over bytes that asks for an ASCII character runs over whole characters (`takeWhile_utf8`).
-/

namespace Speck

abbrev Text := List Char

def isAsciiUppercase (c : Char) : Bool := 'A' ≤ c && c ≤ 'Z'

def isAsciiDigit (c : Char) : Bool := '0' ≤ c && c ≤ '9'

def isAsciiAlphanumeric (c : Char) : Bool :=
  isAsciiUppercase c || isAsciiDigit c || ('a' ≤ c && c ≤ 'z')

/-- The number that the digits of a text write. -/
def decimalValue (text : Text) : ℕ := text.foldl (fun n c => n * 10 + (c.toNat - 48)) 0

/-- A number as it is printed. -/
def decimalText (n : ℕ) : Text := Nat.toDigits 10 n

theorem decimalValue_decimalText (n : ℕ) : decimalValue (decimalText n) = n := by
  have hfold := @Nat.ofDigitChars_ten_toDigits n
  rw [Nat.ofDigitChars_eq_foldl] at hfold
  simp only [Nat.mul_comm 10] at hfold
  exact hfold

theorem isAsciiDigit_of_mem_decimalText {n : ℕ} {c : Char} (h : c ∈ decimalText n) :
    isAsciiDigit c = true := by
  have hdigit := Nat.isDigit_of_mem_toDigits (by decide) (by decide) h
  rwa [Char.isDigit] at hdigit

namespace Text

def utf8 (text : Text) : List UInt8 := text.flatMap String.utf8EncodeChar

def utf8Len (text : Text) : ℕ := text.utf8.length

/-- The character of one byte, `byte as char`. -/
def byteChar (byte : UInt8) : Char := Char.ofNat byte.toNat

/-! ## Encodings -/

@[simp] theorem utf8_nil : utf8 [] = [] := rfl

theorem utf8_cons (c : Char) (text : Text) : utf8 (c :: text) = String.utf8EncodeChar c ++ utf8 text :=
  rfl

@[simp] theorem utf8_append (a b : Text) : utf8 (a ++ b) = utf8 a ++ utf8 b := List.flatMap_append

@[simp] theorem utf8Len_nil : utf8Len [] = 0 := rfl

@[simp] theorem utf8Len_append (a b : Text) : utf8Len (a ++ b) = utf8Len a + utf8Len b := by
  rw [utf8Len, utf8_append, List.length_append, ← utf8Len, ← utf8Len]

theorem utf8Len_cons (c : Char) (text : Text) : utf8Len (c :: text) = c.utf8Size + utf8Len text := by
  rw [utf8Len, utf8_cons, List.length_append, String.length_utf8EncodeChar, ← utf8Len]

theorem utf8Len_pos {text : Text} (h : text ≠ []) : 0 < utf8Len text := by
  obtain ⟨c, rest, rfl⟩ := List.exists_cons_of_ne_nil h
  have hpos := c.utf8Size_pos
  rw [utf8Len_cons]
  omega

theorem utf8EncodeChar_of_lt {c : Char} (h : c.toNat < 128) :
    String.utf8EncodeChar c = [UInt8.ofNat c.toNat] := by
  have hle : c.val.toNat ≤ 0x7f := Nat.le_of_lt_succ h
  rw [String.utf8EncodeChar]
  exact if_pos hle

theorem utf8Size_of_lt {c : Char} (h : c.toNat < 128) : c.utf8Size = 1 := by
  rw [← String.length_utf8EncodeChar, utf8EncodeChar_of_lt h, List.length_singleton]

theorem byteChar_ofNat {c : Char} (h : c.toNat < 128) : byteChar (UInt8.ofNat c.toNat) = c := by
  rw [byteChar, UInt8.toNat_ofNat_of_lt' (lt_trans h (by decide)), Char.ofNat_toNat]

theorem toNat_byteChar (byte : UInt8) : (byteChar byte).toNat = byte.toNat := by
  have hvalid : byte.toNat.isValidChar := by
    have hlt := byte.toNat_lt
    exact .inl (by omega)
  rw [byteChar, Char.ofNat, dif_pos hvalid]
  rfl

/-- The bytes of a character that is not ASCII. -/
theorem le_of_mem_utf8EncodeChar {c : Char} (h : 128 ≤ c.toNat) {byte : UInt8}
    (hbyte : byte ∈ String.utf8EncodeChar c) : 128 ≤ byte.toNat := by
  have hc : c.val.toNat = c.toNat := rfl
  unfold String.utf8EncodeChar at hbyte
  dsimp only at hbyte
  split at hbyte
  · omega
  · split at hbyte
    · simp only [List.mem_cons, List.not_mem_nil, or_false] at hbyte
      rcases hbyte with rfl | rfl <;> rw [UInt8.toNat_ofNat'] <;> omega
    · split at hbyte
      · simp only [List.mem_cons, List.not_mem_nil, or_false] at hbyte
        rcases hbyte with rfl | rfl | rfl <;> rw [UInt8.toNat_ofNat'] <;> omega
      · simp only [List.mem_cons, List.not_mem_nil, or_false] at hbyte
        rcases hbyte with rfl | rfl | rfl | rfl <;> rw [UInt8.toNat_ofNat'] <;> omega

/-- The first byte of a character : the character itself, or a byte that is not ASCII. -/
theorem utf8EncodeChar_cases (c : Char) :
    (c.toNat < 128 ∧ ∃ byte, String.utf8EncodeChar c = [byte] ∧ byteChar byte = c) ∨
    (128 ≤ c.toNat ∧ ∃ byte bytes, String.utf8EncodeChar c = byte :: bytes ∧
      128 ≤ (byteChar byte).toNat) := by
  rcases Nat.lt_or_ge c.toNat 128 with h | h
  · exact .inl ⟨h, _, utf8EncodeChar_of_lt h, byteChar_ofNat h⟩
  · obtain ⟨byte, bytes, hbytes⟩ := List.exists_cons_of_ne_nil (String.utf8EncodeChar_ne_nil (c := c))
    refine .inr ⟨h, byte, bytes, hbytes, ?_⟩
    rw [toNat_byteChar]
    exact le_of_mem_utf8EncodeChar h (by simp [hbytes])

theorem not_le_of_le {c d : Char} (h : 128 ≤ c.toNat) (hd : d.toNat < 128) : ¬c ≤ d := by
  intro hle
  have hle' : c.toNat ≤ d.toNat := hle
  omega

theorem isAsciiDigit_of_le {c : Char} (h : 128 ≤ c.toNat) : isAsciiDigit c = false := by
  simp [isAsciiDigit, not_le_of_le h (by decide : '9'.toNat < 128)]

theorem isAsciiUppercase_of_le {c : Char} (h : 128 ≤ c.toNat) : isAsciiUppercase c = false := by
  simp [isAsciiUppercase, not_le_of_le h (by decide : 'Z'.toNat < 128)]

theorem isAsciiAlphanumeric_of_le {c : Char} (h : 128 ≤ c.toNat) :
    isAsciiAlphanumeric c = false := by
  simp [isAsciiAlphanumeric, isAsciiUppercase_of_le h, isAsciiDigit_of_le h,
    not_le_of_le h (by decide : 'z'.toNat < 128)]

theorem ne_of_le {c d : Char} (h : 128 ≤ c.toNat) (hd : d.toNat < 128) : c ≠ d := by
  rintro rfl
  omega

/-! ## Loops over bytes -/

/-- A condition that is the same for all characters that are not ASCII. -/
def Uniform (p : Char → Bool) : Prop := ∃ value, ∀ c : Char, 128 ≤ c.toNat → p c = value

variable {p : Char → Bool}

theorem Uniform.forall_mem (hp : Uniform p) {c : Char} (hc : p c = true) {byte : UInt8}
    (hbyte : byte ∈ String.utf8EncodeChar c) : p (byteChar byte) = true := by
  obtain ⟨value, hvalue⟩ := hp
  rcases utf8EncodeChar_cases c with ⟨-, first, hfirst, hchar⟩ | ⟨hlarge, -⟩
  · rw [hfirst, List.mem_singleton] at hbyte
    rwa [hbyte, hchar]
  · rw [hvalue (byteChar byte), ← hvalue c hlarge, hc]
    rw [toNat_byteChar]
    exact le_of_mem_utf8EncodeChar hlarge hbyte

theorem Uniform.exists_cons (hp : Uniform p) {c : Char} (hc : p c = false) :
    ∃ byte bytes, String.utf8EncodeChar c = byte :: bytes ∧ p (byteChar byte) = false := by
  obtain ⟨value, hvalue⟩ := hp
  rcases utf8EncodeChar_cases c with ⟨-, first, hfirst, hchar⟩ | ⟨hlarge, first, bytes, hfirst, hle⟩
  · exact ⟨first, [], hfirst, by rw [hchar, hc]⟩
  · exact ⟨first, bytes, hfirst, by rw [hvalue _ hle, ← hvalue c hlarge, hc]⟩

/-- A loop over the bytes stops where the loop over the characters does. -/
theorem takeWhile_utf8 (hp : Uniform p) (text : Text) :
    (utf8 text).takeWhile (fun byte => p (byteChar byte)) = utf8 (text.takeWhile p) := by
  induction text with
  | nil => rfl
  | cons c text ih =>
    rw [utf8_cons]
    by_cases hc : p c = true
    · have hall : ∀ byte ∈ String.utf8EncodeChar c, p (byteChar byte) = true :=
        fun byte hbyte => hp.forall_mem hc hbyte
      rw [List.takeWhile_append_of_pos hall, ih, List.takeWhile_cons_of_pos hc, utf8_cons]
    · obtain ⟨byte, bytes, hbytes, hbyte⟩ := hp.exists_cons (by simpa using hc)
      rw [hbytes, List.cons_append, List.takeWhile_cons_of_neg (by simp [hbyte]),
        List.takeWhile_cons_of_neg hc]
      rfl

theorem dropWhile_utf8 (hp : Uniform p) (text : Text) :
    (utf8 text).dropWhile (fun byte => p (byteChar byte)) = utf8 (text.dropWhile p) := by
  have hsplit := congrArg utf8 (@List.takeWhile_append_dropWhile _ p text)
  rw [utf8_append, ← takeWhile_utf8 hp] at hsplit
  have hbytes := @List.takeWhile_append_dropWhile _ (fun byte => p (byteChar byte)) (utf8 text)
  exact (List.append_cancel_left (hbytes.trans hsplit.symm))

/-- The first byte, as a character. -/
def headByte (text : Text) : Option Char := text.utf8.head?.map byteChar

theorem headByte_cons (c : Char) (text : Text) : ∃ byte, headByte (c :: text) = some byte ∧
    (c.toNat < 128 ∧ byte = c ∨ 128 ≤ c.toNat ∧ 128 ≤ byte.toNat) := by
  rw [headByte, utf8_cons]
  rcases utf8EncodeChar_cases c with ⟨hc, byte, hbyte, hchar⟩ | ⟨hc, byte, bytes, hbyte, hle⟩
  · exact ⟨c, by rw [hbyte, ← hchar]; rfl, .inl ⟨hc, rfl⟩⟩
  · exact ⟨byteChar byte, by rw [hbyte]; rfl, .inr ⟨hc, hle⟩⟩

/-- A text begins with an ASCII character exactly if its bytes do. -/
theorem headByte_eq_some_iff {text : Text} {e : Char} (he : e.toNat < 128) :
    headByte text = some e ↔ text.head? = some e := by
  cases text with
  | nil => exact Iff.rfl
  | cons c text =>
    obtain ⟨byte, hbyte, ⟨-, rfl⟩ | ⟨hc, hle⟩⟩ := headByte_cons c text
    · rw [hbyte]
      rfl
    · rw [hbyte, List.head?_cons, Option.some_inj, Option.some_inj]
      exact iff_of_false (ne_of_le hle he) (ne_of_le hc he)

theorem any_headByte (hp : Uniform p) (text : Text) : (headByte text).any p = text.head?.any p := by
  cases text with
  | nil => rfl
  | cons c text =>
    obtain ⟨byte, hbyte, ⟨-, rfl⟩ | ⟨hc, hle⟩⟩ := headByte_cons c text
    · rw [hbyte]
      rfl
    · obtain ⟨value, hvalue⟩ := hp
      rw [hbyte, List.head?_cons, Option.any_some, Option.any_some, hvalue c hc, hvalue byte hle]

/-! ## Offsets -/

/-- The text before and after an offset, if it is a boundary. -/
def splitAt : Text → ℕ → Option (Text × Text)
  | text, 0 => some ([], text)
  | [], _ + 1 => none
  | c :: text, offset + 1 =>
    if c.utf8Size ≤ offset + 1 then
      (splitAt text (offset + 1 - c.utf8Size)).map fun (front, back) => (c :: front, back)
    else none

def IsBoundary (text : Text) (offset : ℕ) : Prop := ∃ front back, text = front ++ back ∧
  utf8Len front = offset

/-- `&text[start..]`. -/
def sliceFrom (text : Text) (start : ℕ) : Option Text := (text.splitAt start).map (·.2)

/-- `&text[start..stop]`. -/
def slice (text : Text) (start stop : ℕ) : Option Text :=
  (text.splitAt stop).bind fun (front, _) => front.sliceFrom start

theorem splitAt_append (front back : Text) :
    splitAt (front ++ back) (utf8Len front) = some (front, back) := by
  induction front with
  | nil => cases back <;> rfl
  | cons c front ih =>
    have hpos := c.utf8Size_pos
    rw [utf8Len_cons]
    obtain ⟨offset, hoffset⟩ := Nat.exists_eq_add_one_of_ne_zero
      (Nat.ne_of_gt (Nat.add_pos_left hpos (utf8Len front)))
    have hrest : offset + 1 - c.utf8Size = utf8Len front := by omega
    rw [hoffset, List.cons_append, splitAt, if_pos (by omega), hrest, ih]
    rfl

theorem append_of_splitAt {text front back : Text} {offset : ℕ}
    (h : splitAt text offset = some (front, back)) :
    text = front ++ back ∧ utf8Len front = offset := by
  induction text generalizing offset front with
  | nil =>
    cases offset with
    | zero => cases h; exact ⟨rfl, rfl⟩
    | succ offset => cases h
  | cons c text ih =>
    cases offset with
    | zero => cases h; exact ⟨rfl, rfl⟩
    | succ offset =>
      rw [splitAt] at h
      split at h
      · rename_i hle
        obtain ⟨⟨front', back'⟩, hsplit, hcons⟩ := Option.map_eq_some_iff.mp h
        obtain ⟨rfl, rfl⟩ := Prod.mk.inj hcons
        obtain ⟨rfl, hlen⟩ := ih hsplit
        exact ⟨rfl, by rw [utf8Len_cons, hlen]; omega⟩
      · cases h

theorem slice_append (front middle back : Text) :
    slice (front ++ middle ++ back) (utf8Len front) (utf8Len front + utf8Len middle) =
      some middle := by
  rw [slice, ← utf8Len_append, splitAt_append]
  exact congrArg (Option.map Prod.snd) (splitAt_append front middle)

theorem sliceFrom_append (front back : Text) :
    sliceFrom (front ++ back) (utf8Len front) = some back := by
  rw [sliceFrom, splitAt_append]
  rfl

end Text

end Speck
