import Speck.Text

/-!
# Names and bytes in LLVM text

Between quotes the emitter writes some bytes as they are and the others as two hexadecimal digits
(`escapeBytes`). `symbol_name` writes the name of a declaration as it is, if it has nothing but ASCII
letters, digits and `_`, and else in quotes.

`unescape`, `readName` and `readBytes` are LLVM's side : between quotes `\\` stands for a backslash
and `\XX` for a byte, and a name without quotes has letters, digits and `-$._`. What LLVM reads of a
symbol is the bytes of its kind and its name (`readName_symbolName`), so different declarations have
different symbols (`symbolName_injective`).
-/

namespace Speck

/-! ## Writing -/

def isPlainByte (byte : UInt8) : Bool :=
  isAsciiAlphanumeric (Text.byteChar byte) || Text.byteChar byte == '_'

/-- A digit of `\x7b:02X\x7d`. -/
def hexDigit (n : ℕ) : Char := if n < 10 then Char.ofNat (48 + n) else Char.ofNat (55 + n)

/-- Bytes between quotes. -/
def escapeBytes (plain : UInt8 → Bool) (bytes : List UInt8) : Text :=
  bytes.flatMap fun byte =>
    if plain byte then [Text.byteChar byte]
    else ['\\', hexDigit (byte.toNat / 16), hexDigit (byte.toNat % 16)]

/-- The name of a declaration before it is quoted. -/
def plainName (kind name : String) : Text :=
  "spk_".toList ++ kind.toList ++ ['_'] ++ name.toList

def symbolName (kind name : String) : Text :=
  let plain := plainName kind name
  if plain.utf8.all isPlainByte then plain else '"' :: escapeBytes isPlainByte plain.utf8 ++ ['"']

/-- The bytes that `llvm_byte_string` writes as they are. -/
def isPrintableByte (byte : UInt8) : Bool :=
  32 ≤ byte.toNat && byte.toNat ≤ 126 && Text.byteChar byte != '"' && Text.byteChar byte != '\\'

def llvmByteString (bytes : List UInt8) : Text :=
  'c' :: '"' :: escapeBytes isPrintableByte bytes ++ ['"']

/-! ## Reading -/

def hexValue (c : Char) : Option ℕ :=
  if '0' ≤ c ∧ c ≤ '9' then some (c.toNat - 48)
  else if 'A' ≤ c ∧ c ≤ 'F' then some (c.toNat - 55)
  else if 'a' ≤ c ∧ c ≤ 'f' then some (c.toNat - 87)
  else none

/-- What stands between quotes. -/
def unescape : Text → List UInt8
  | [] => []
  | '\\' :: '\\' :: rest => 92 :: unescape rest
  | '\\' :: high :: low :: rest =>
    match hexValue high, hexValue low with
    | some high, some low => UInt8.ofNat (high * 16 + low) :: unescape rest
    | _, _ => 92 :: unescape (high :: low :: rest)
  | c :: rest => String.utf8EncodeChar c ++ unescape rest

/-- The characters of a name without quotes, of which the first is no digit. -/
def isNameCharacter (c : Char) : Bool :=
  isAsciiAlphanumeric c || c == '-' || c == '$' || c == '.' || c == '_'

/-- The bytes of a text that ends in a quote and has no other one. -/
def readQuoted (text : Text) : Option (List UInt8) :=
  if text.dropWhile (· != '"') = ['"'] then some (unescape (text.takeWhile (· != '"'))) else none

/-- The bytes of a constant array. -/
def readBytes : Text → Option (List UInt8)
  | 'c' :: '"' :: rest => readQuoted rest
  | _ => none

/-- The bytes of a name in LLVM text, behind its `@` or `%`. -/
def readName : Text → Option (List UInt8)
  | [] => none
  | '"' :: rest => readQuoted rest
  | c :: rest =>
    if !isAsciiDigit c && (c :: rest).all isNameCharacter then some (Text.utf8 (c :: rest)) else none

/-! ## Reading what was written -/

theorem hexValue_hexDigit : ∀ n < 16, hexValue (hexDigit n) = some n := by decide

theorem hexDigit_ne : ∀ n < 16, hexDigit n ≠ '"' ∧ hexDigit n ≠ '\\' := by decide

theorem unescape_cons {c : Char} (h : c ≠ '\\') (rest : Text) :
    unescape (c :: rest) = String.utf8EncodeChar c ++ unescape rest := by
  rw [unescape]
  · exact fun _ hc => absurd hc h
  · exact fun _ _ _ hc => absurd hc h

theorem unescape_byte {high low : ℕ} (hhigh : high < 16) (hlow : low < 16) (rest : Text) :
    unescape ('\\' :: hexDigit high :: hexDigit low :: rest) =
      UInt8.ofNat (high * 16 + low) :: unescape rest := by
  rw [unescape, hexValue_hexDigit high hhigh, hexValue_hexDigit low hlow]
  exact fun hc => absurd hc (hexDigit_ne high hhigh).2

theorem utf8EncodeChar_byteChar {byte : UInt8} (h : byte.toNat < 128) :
    String.utf8EncodeChar (Text.byteChar byte) = [byte] := by
  rw [Text.utf8EncodeChar_of_lt (by rwa [Text.toNat_byteChar]), Text.toNat_byteChar,
    UInt8.ofNat_toNat]

/-- A byte that stands for itself between quotes. -/
structure IsLiteral (byte : UInt8) : Prop where
  lt : byte.toNat < 128
  ne_quote : Text.byteChar byte ≠ '"'
  ne_backslash : Text.byteChar byte ≠ '\\'

theorem isLiteral_of_isPlainByte {byte : UInt8} (h : isPlainByte byte) : IsLiteral byte where
  lt := by
    by_contra hge
    have hlarge : 128 ≤ (Text.byteChar byte).toNat := by
      rw [Text.toNat_byteChar]
      omega
    rw [isPlainByte, Text.isAsciiAlphanumeric_of_le hlarge, Bool.false_or, beq_iff_eq] at h
    exact Text.ne_of_le hlarge (by decide) h
  ne_quote := by
    intro hc
    rw [isPlainByte, hc] at h
    exact absurd h (by decide)
  ne_backslash := by
    intro hc
    rw [isPlainByte, hc] at h
    exact absurd h (by decide)

theorem isLiteral_of_isPrintableByte {byte : UInt8} (h : isPrintableByte byte) : IsLiteral byte := by
  simp only [isPrintableByte, Bool.and_eq_true, decide_eq_true_eq, bne_iff_ne] at h
  exact ⟨by omega, h.1.2, h.2⟩

section Escaped

variable {plain : UInt8 → Bool} (hplain : ∀ byte, plain byte → IsLiteral byte)

include hplain

theorem unescape_escapeBytes (bytes : List UInt8) : unescape (escapeBytes plain bytes) = bytes := by
  induction bytes with
  | nil => rfl
  | cons byte bytes ih =>
    rw [escapeBytes, List.flatMap_cons, ← escapeBytes]
    split
    · next hbyte =>
      rw [List.singleton_append, unescape_cons (hplain byte hbyte).ne_backslash,
        utf8EncodeChar_byteChar (hplain byte hbyte).lt, ih]
      rfl
    · have hlt := byte.toNat_lt
      change unescape ('\\' :: hexDigit _ :: hexDigit _ :: escapeBytes plain bytes) = _
      rw [unescape_byte (by omega) (Nat.mod_lt _ (by decide)), Nat.div_add_mod', UInt8.ofNat_toNat,
        ih]

/-- No quote ends the bytes before their end. -/
theorem ne_quote_of_mem_escapeBytes {bytes : List UInt8} {c : Char}
    (h : c ∈ escapeBytes plain bytes) : (c != '"') = true := by
  obtain ⟨byte, -, hc⟩ := List.mem_flatMap.mp h
  rw [bne_iff_ne]
  split at hc
  · next hbyte =>
    rw [List.mem_singleton.mp hc]
    exact (hplain byte hbyte).ne_quote
  · have hlt := byte.toNat_lt
    simp only [List.mem_cons, List.not_mem_nil, or_false] at hc
    rcases hc with rfl | rfl | rfl
    · decide
    · exact (hexDigit_ne _ (by omega)).1
    · exact (hexDigit_ne _ (Nat.mod_lt _ (by decide))).1

theorem readQuoted_escapeBytes (bytes : List UInt8) :
    readQuoted (escapeBytes plain bytes ++ ['"']) = some bytes := by
  have hall : ∀ c ∈ escapeBytes plain bytes, (c != '"') = true :=
    fun _ hc => ne_quote_of_mem_escapeBytes hplain hc
  have hdrop : (escapeBytes plain bytes ++ ['"']).dropWhile (· != '"') = ['"'] := by
    rw [List.dropWhile_append_of_pos hall]
    rfl
  have htake : (escapeBytes plain bytes ++ ['"']).takeWhile (· != '"') = escapeBytes plain bytes := by
    rw [List.takeWhile_append_of_pos hall]
    exact List.append_nil _
  rw [readQuoted, if_pos hdrop, htake, unescape_escapeBytes hplain]

end Escaped

/-- What LLVM reads of the bytes of a constant. -/
theorem readBytes_llvmByteString (bytes : List UInt8) : readBytes (llvmByteString bytes) = some bytes :=
  readQuoted_escapeBytes (fun _ h => isLiteral_of_isPrintableByte h) bytes

/-- A text of letters, digits and `_` is read as it is. -/
theorem isNameCharacter_of_plain {text : Text} (h : text.utf8.all isPlainByte) {c : Char}
    (hc : c ∈ text) : isNameCharacter c := by
  rw [List.all_eq_true] at h
  rcases Text.utf8EncodeChar_cases c with ⟨-, byte, hbyte, hchar⟩ | ⟨hlarge, byte, bytes, hbytes, -⟩
  · have hplain := h byte (List.mem_flatMap.mpr ⟨c, hc, by simp [hbyte]⟩)
    rw [isPlainByte, hchar, Bool.or_eq_true] at hplain
    rw [isNameCharacter]
    rcases hplain with hplain | hplain <;> simp [hplain]
  · have hmem : byte ∈ String.utf8EncodeChar c := by simp [hbytes]
    have hplain := (isLiteral_of_isPlainByte (h byte (List.mem_flatMap.mpr ⟨c, hc, hmem⟩))).lt
    have hle := Text.le_of_mem_utf8EncodeChar hlarge hmem
    omega

theorem readName_plain {c : Char} {rest : Text} (hquote : c ≠ '"') (hdigit : isAsciiDigit c = false)
    (hplain : (c :: rest).all isNameCharacter) :
    readName (c :: rest) = some (Text.utf8 (c :: rest)) := by
  unfold readName
  split
  · next heq => cases heq
  · next heq => exact absurd (List.cons_eq_cons.mp heq).1 hquote
  · next heq =>
    obtain ⟨rfl, rfl⟩ := List.cons_eq_cons.mp heq
    rw [if_pos]
    rw [hdigit, hplain]
    rfl

/-- What LLVM reads of a symbol. -/
theorem readName_symbolName (kind name : String) :
    readName (symbolName kind name) = some (plainName kind name).utf8 := by
  unfold symbolName
  dsimp only
  split
  · next hplain =>
    have hcons : plainName kind name = 's' :: (plainName kind name).tail := rfl
    rw [hcons] at hplain ⊢
    exact readName_plain (by decide) rfl
      (List.all_eq_true.mpr fun _ hc => isNameCharacter_of_plain hplain hc)
  · exact readQuoted_escapeBytes (fun _ h => isLiteral_of_isPlainByte h) _

/-! ## Different symbols -/

theorem Text.utf8_injective : Function.Injective Text.utf8 := by
  intro a b h
  have harray : a.utf8Encode = b.utf8Encode := congrArg List.toByteArray h
  rw [← String.toByteArray_ofList, ← String.toByteArray_ofList, String.toByteArray_inj] at harray
  exact String.ofList_injective harray

/-- The kinds of declarations that have symbols. -/
def symbolKinds : List String := ["fn", "global", "const", "struct"]

/-- The kind ends at the first `_`. -/
theorem append_underscore_inj {kind kind' name name' : Text} (h : '_' ∉ kind) (h' : '_' ∉ kind')
    (heq : kind ++ ['_'] ++ name = kind' ++ ['_'] ++ name') : kind = kind' ∧ name = name' := by
  induction kind generalizing kind' with
  | nil =>
    cases kind' with
    | nil => exact ⟨rfl, (List.cons_eq_cons.mp heq).2⟩
    | cons c kind' => exact absurd (List.mem_cons.mpr (.inl (List.cons_eq_cons.mp heq).1)) h'
  | cons c kind ih =>
    cases kind' with
    | nil => exact absurd (List.mem_cons.mpr (.inl (List.cons_eq_cons.mp heq).1.symm)) h
    | cons c' kind' =>
      obtain ⟨rfl, hrest⟩ := List.cons_eq_cons.mp heq
      obtain ⟨rfl, rfl⟩ := ih (fun hc => h (List.mem_cons_of_mem _ hc))
        (fun hc => h' (List.mem_cons_of_mem _ hc)) hrest
      exact ⟨rfl, rfl⟩

theorem plainName_injective {kind kind' name name' : String} (h : '_' ∉ kind.toList)
    (h' : '_' ∉ kind'.toList) (heq : plainName kind name = plainName kind' name') :
    kind = kind' ∧ name = name' := by
  unfold plainName at heq
  simp only [List.append_assoc] at heq
  have hrest := List.append_cancel_left heq
  rw [← List.append_assoc, ← List.append_assoc] at hrest
  obtain ⟨hkind, hname⟩ := append_underscore_inj h h' hrest
  exact ⟨String.toList_injective hkind, String.toList_injective hname⟩

theorem notMem_of_mem_symbolKinds {kind : String} (h : kind ∈ symbolKinds) :
    '_' ∉ kind.toList := by
  simp only [symbolKinds, List.mem_cons, List.not_mem_nil, or_false] at h
  rcases h with rfl | rfl | rfl | rfl <;> decide

/-- Symbols that LLVM reads alike are of one kind and one name. -/
theorem symbolName_injective {kind kind' name name' : String} (h : kind ∈ symbolKinds)
    (h' : kind' ∈ symbolKinds)
    (heq : readName (symbolName kind name) = readName (symbolName kind' name')) :
    kind = kind' ∧ name = name' := by
  rw [readName_symbolName, readName_symbolName] at heq
  exact plainName_injective (notMem_of_mem_symbolKinds h) (notMem_of_mem_symbolKinds h')
    (Text.utf8_injective (Option.some.inj heq))

end Speck
