import Mathlib.Data.List.Forall2
import Speck.SourceLocation
import Speck.SymbolNames

/-!
# Embedded data

The bytes that a program carries : the title with a final NUL and the samples of the sounds
(`embedded_data::emit`), and the paths of the sources in a development build
(`RuntimeDiagnostics::declarations`). Each is a line that declares an array of bytes. The characters
between its quotes spell the bytes (`Spells`) : there is no quote, no newline and no backslash but
before two hexadecimal digits, so a reader that takes the lines apart finds the lengths and the
bytes that were written (`embedded_bytes_read`).
-/

namespace Speck

namespace EmbeddedData

/-! ## The code -/

/-- Lines, each with its newline. -/
def unlines (lines : List Text) : Text := lines.flatMap (· ++ ['\n'])

/-- An integer as it is printed. -/
def intText (value : ℤ) : Text :=
  if value < 0 then '-' :: decimalText value.natAbs else decimalText value.natAbs

def i32Text (value : I32) : Text := intText value.toInt

/-- The line of an array of bytes. -/
def constantLine (name : Text) (length : ℕ) (constant align : Text) : Text :=
  '@' :: name ++ " = private unnamed_addr constant [".toList ++ decimalText length ++
    " x i8] ".toList ++ constant ++ align

def identityLine (program : Program) : Text :=
  let identity := Text.utf8 program.title.toList ++ [0]
  constantLine "spk_storage_identity_data".toList identity.length (llvmByteString identity)
    ", align 1".toList

def soundLine (sound : SoundAsset) : Text :=
  constantLine ("spk_sound_asset_".toList ++ i32Text sound.handle) sound.pcm.length
    (llvmByteString sound.pcm) ", align 2".toList

/-- `sort_by_key`, which is stable. -/
def sortedSounds (program : Program) : List SoundAsset :=
  program.sounds.mergeSort fun a b => a.handle.toInt ≤ b.handle.toInt

/-- The lines of `spk_sound_lookup`. -/
def lookupLines (sounds : List SoundAsset) : List Text :=
  if sounds = [] then
    ["  store ptr null, ptr %data".toList, "  store i32 0, ptr %sample_count".toList,
      "  ret i32 0".toList, "\x7d".toList, []]
  else
    "  switch i32 %handle, label %missing [".toList ::
      sounds.map (fun sound => "    i32 ".toList ++ i32Text sound.handle ++
        ", label %sound_".toList ++ i32Text sound.handle) ++
      "  ]".toList ::
      sounds.flatMap (fun sound =>
        ["sound_".toList ++ i32Text sound.handle ++ ":".toList,
          "  store ptr @spk_sound_asset_".toList ++ i32Text sound.handle ++ ", ptr %data".toList,
          "  store i32 ".toList ++ decimalText (sound.pcm.length / 2) ++
            ", ptr %sample_count".toList,
          "  ret i32 1".toList]) ++
      ["missing:".toList, "  store ptr null, ptr %data".toList,
        "  store i32 0, ptr %sample_count".toList, "  ret i32 0".toList, "\x7d".toList, []]

/-- `embedded_data::emit`. -/
def emit (program : Program) : Text :=
  let sounds := sortedSounds program
  unlines (identityLine program :: sounds.map soundLine ++
    [[], "declare void @crumb_storage_init(ptr, i64)".toList, [],
      "define i32 @spk_sound_lookup(i32 %handle, ptr %data, ptr %sample_count) \x7b".toList,
      "entry:".toList] ++
    lookupLines sounds)

def sourceLine (id : ℕ) (path : Text) : Text :=
  let encoded := escapeBytes (fun _ => false) path.utf8
  constantLine ("spk_source_".toList ++ decimalText id) (path.utf8Len + 1)
    ("c\"".toList ++ encoded ++ "\\00\"".toList) []

/-- The source reports of a development build. A path is what `to_string_lossy` gives. -/
inductive RuntimeDiagnostics where
  | plain
  | located (sources : List SourceLocation.SourceFile)

def RuntimeDiagnostics.declarations : RuntimeDiagnostics → Text
  | .plain => []
  | .located sources =>
    unlines ("declare void @crumb_source_location(ptr, i32, i32)".toList ::
      sources.zipIdx.map fun (source, id) => sourceLine id source.path)

/-! ## Reading -/

/-- The text after a front that it must have. -/
def expect : Text → Text → Option Text
  | [], text => some text
  | c :: front, d :: text => if c = d then expect front text else none
  | _ :: _, [] => none

/-- An array of bytes as it is read : its name, its length, and what stands between the quotes and
after them. -/
structure Definition where
  name : Text
  length : ℕ
  body : Text
  align : Text

/-- The parts of a line that declares an array of bytes. The constant ends at the first quote. -/
def readDefinition (line : Text) : Option Definition := do
  let line ← expect ['@'] line
  let name := line.takeWhile (· != ' ')
  let line ← expect " = private unnamed_addr constant [".toList (line.dropWhile (· != ' '))
  let length := decimalValue (line.takeWhile isAsciiDigit)
  let line ← expect " x i8] c\"".toList (line.dropWhile isAsciiDigit)
  let body := line.takeWhile (· != '"')
  let align ← expect ['"'] (line.dropWhile (· != '"'))
  pure ⟨name, length, body, align⟩

def readDefinitions (text : Text) : List Definition := (text.splitOn '\n').filterMap readDefinition

/-- What characters between quotes spell : a backslash and two hexadecimal digits are a byte, and
any other character is itself. There is no quote, and all characters are printable ASCII. -/
inductive Spells : Text → List UInt8 → Prop where
  | nil : Spells [] []
  | literal {c : Char} {body : Text} {bytes : List UInt8} (hle : 32 ≤ c.toNat)
      (hlt : c.toNat < 127) (hquote : c ≠ '"') (hbackslash : c ≠ '\\') (rest : Spells body bytes) :
      Spells (c :: body) (UInt8.ofNat c.toNat :: bytes)
  | escape {high low : Char} {h l : ℕ} {body : Text} {bytes : List UInt8}
      (hhigh : hexValue high = some h) (hlow : hexValue low = some l) (rest : Spells body bytes) :
      Spells ('\\' :: high :: low :: body) (UInt8.ofNat (h * 16 + l) :: bytes)

/-- A line that declares an array of these bytes. -/
structure Declares (definition : Definition) (name : Text) (bytes : List UInt8) : Prop where
  name_eq : definition.name = name
  length_eq : definition.length = bytes.length
  spells : Spells definition.body bytes
  unescape_eq : unescape definition.body = bytes

/-! ## What is spelled -/

namespace Spells

variable {body body' : Text} {bytes bytes' : List UInt8}

theorem append (h : Spells body bytes) (h' : Spells body' bytes') :
    Spells (body ++ body') (bytes ++ bytes') := by
  induction h with
  | nil => exact h'
  | literal hle hlt hquote hbackslash _ ih => exact .literal hle hlt hquote hbackslash ih
  | escape hhigh hlow _ ih => exact .escape hhigh hlow ih

theorem hexValue_isAscii {c : Char} {n : ℕ} (h : hexValue c = some n) :
    32 ≤ c.toNat ∧ c.toNat < 127 ∧ c ≠ '"' ∧ c ≠ '\\' := by
  have hcode : 48 ≤ c.toNat ∧ c.toNat ≤ 57 ∨ 65 ≤ c.toNat ∧ c.toNat ≤ 70 ∨
      97 ≤ c.toNat ∧ c.toNat ≤ 102 := by
    rw [hexValue] at h
    split at h
    · next hdigit => exact .inl hdigit
    · split at h
      · next hupper => exact .inr (.inl hupper)
      · split at h
        · next hlower => exact .inr (.inr hlower)
        · cases h
  refine ⟨by omega, by omega, ?_, ?_⟩
  · rintro rfl
    exact absurd hcode (by decide)
  · rintro rfl
    exact absurd hcode (by decide)

/-- The characters are printable, and none is a quote. -/
theorem printable (h : Spells body bytes) {c : Char} (hc : c ∈ body) :
    32 ≤ c.toNat ∧ c.toNat < 127 ∧ c ≠ '"' := by
  induction h with
  | nil => cases hc
  | literal hle hlt hquote _ _ ih =>
    rcases List.mem_cons.mp hc with rfl | hc
    · exact ⟨hle, hlt, hquote⟩
    · exact ih hc
  | escape hhigh hlow _ ih =>
    obtain ⟨hhighLe, hhighLt, hhighQuote, -⟩ := hexValue_isAscii hhigh
    obtain ⟨hlowLe, hlowLt, hlowQuote, -⟩ := hexValue_isAscii hlow
    rcases List.mem_cons.mp hc with rfl | hc
    · decide
    · rcases List.mem_cons.mp hc with rfl | hc
      · exact ⟨hhighLe, hhighLt, hhighQuote⟩
      · rcases List.mem_cons.mp hc with rfl | hc
        · exact ⟨hlowLe, hlowLt, hlowQuote⟩
        · exact ih hc

/-- LLVM reads the bytes that are spelled. -/
theorem unescape_eq (h : Spells body bytes) : unescape body = bytes := by
  induction h with
  | nil => rfl
  | literal hle hlt hquote hbackslash _ ih =>
    rw [unescape_cons hbackslash, Text.utf8EncodeChar_of_lt (by omega), ih]
    rfl
  | escape hhigh hlow _ ih =>
    rw [unescape, hhigh, hlow]
    · exact congrArg (_ :: ·) ih
    · exact fun hc => absurd hc (hexValue_isAscii hhigh).2.2.2

end Spells

theorem spells_escapeBytes {plain : UInt8 → Bool}
    (hplain : ∀ byte, plain byte → isPrintableByte byte) (bytes : List UInt8) :
    Spells (escapeBytes plain bytes) bytes := by
  induction bytes with
  | nil => exact .nil
  | cons byte bytes ih =>
    rw [escapeBytes, List.flatMap_cons, ← escapeBytes]
    split
    · next hbyte =>
      have hprintable := hplain byte hbyte
      simp only [isPrintableByte, Bool.and_eq_true, decide_eq_true_eq, bne_iff_ne] at hprintable
      have hspells : Spells (Text.byteChar byte :: escapeBytes plain bytes)
          (UInt8.ofNat (Text.byteChar byte).toNat :: bytes) :=
        .literal (by rw [Text.toNat_byteChar]; omega) (by rw [Text.toNat_byteChar]; omega)
          hprintable.1.2 hprintable.2 ih
      rwa [Text.toNat_byteChar, UInt8.ofNat_toNat] at hspells
    · have hlt := byte.toNat_lt
      have hspells := Spells.escape (hexValue_hexDigit (byte.toNat / 16) (by omega))
        (hexValue_hexDigit (byte.toNat % 16) (Nat.mod_lt _ (by decide))) ih
      rwa [Nat.div_add_mod', UInt8.ofNat_toNat] at hspells

/-! ## Reading what was written -/

theorem expect_append (front text : Text) : expect front (front ++ text) = some text := by
  induction front with
  | nil => rfl
  | cons c front ih =>
    rw [List.cons_append, expect, if_pos rfl]
    exact ih

theorem takeWhile_append_cons {p : Char → Bool} {front : Text} {c : Char}
    (hfront : ∀ d ∈ front, p d = true) (hc : p c = false) (rest : Text) :
    (front ++ c :: rest).takeWhile p = front ∧ (front ++ c :: rest).dropWhile p = c :: rest := by
  rw [List.takeWhile_append_of_pos hfront, List.dropWhile_append_of_pos hfront,
    List.takeWhile_cons_of_neg (by simp [hc]), List.dropWhile_cons_of_neg (by simp [hc]),
    List.append_nil]
  exact ⟨rfl, rfl⟩

theorem readDefinition_constantLine {name body : Text} (hname : ' ' ∉ name) (hbody : '"' ∉ body)
    (length : ℕ) (align : Text) :
    readDefinition (constantLine name length ('c' :: '"' :: body ++ ['"']) align) =
      some ⟨name, length, body, align⟩ := by
  have hline : constantLine name length ('c' :: '"' :: body ++ ['"']) align =
      ['@'] ++ (name ++ ' ' :: ("= private unnamed_addr constant [".toList ++
        (decimalText length ++ ' ' :: ("x i8] c\"".toList ++ (body ++ '"' :: align))))) := by
    simp [constantLine]
  obtain ⟨hnameTake, hnameDrop⟩ := @takeWhile_append_cons (· != ' ') name ' '
    (fun d hd => bne_iff_ne.mpr fun h => hname (h ▸ hd)) rfl
    ("= private unnamed_addr constant [".toList ++
      (decimalText length ++ ' ' :: ("x i8] c\"".toList ++ (body ++ '"' :: align))))
  obtain ⟨hlengthTake, hlengthDrop⟩ := @takeWhile_append_cons isAsciiDigit (decimalText length) ' '
    (fun d hd => isAsciiDigit_of_mem_decimalText hd) rfl
    ("x i8] c\"".toList ++ (body ++ '"' :: align))
  obtain ⟨hbodyTake, hbodyDrop⟩ := @takeWhile_append_cons (· != '"') body '"'
    (fun d hd => bne_iff_ne.mpr fun h => hbody (h ▸ hd)) rfl align
  have hconstant : ∀ rest, expect " = private unnamed_addr constant [".toList
      (' ' :: ("= private unnamed_addr constant [".toList ++ rest)) = some rest :=
    expect_append " = private unnamed_addr constant [".toList
  have hbytes : ∀ rest, expect " x i8] c\"".toList (' ' :: ("x i8] c\"".toList ++ rest)) =
      some rest := expect_append " x i8] c\"".toList
  have hquote : expect ['"'] ('"' :: align) = some align := expect_append ['"'] align
  rw [hline, readDefinition]
  simp only [expect_append, Option.bind_eq_bind, Option.bind_some, hnameTake, hnameDrop,
    hconstant, hlengthTake, hlengthDrop, hbytes, hbodyTake, hbodyDrop, hquote,
    decimalValue_decimalText]
  rfl

/-- Lines that declare nothing. -/
theorem readDefinition_of_head {line : Text} (h : line.head? ≠ some '@') :
    readDefinition line = none := by
  cases line with
  | nil => rfl
  | cons c line =>
    have hc : '@' ≠ c := fun heq => h (congrArg some heq.symm)
    have hnone : expect ['@'] (c :: line) = none := if_neg hc
    rw [readDefinition, hnone]
    rfl

theorem splitOn_unlines {lines : List Text} (h : ∀ line ∈ lines, '\n' ∉ line) :
    (unlines lines).splitOn '\n' = lines ++ [[]] := by
  induction lines with
  | nil => rfl
  | cons line lines ih =>
    rw [List.forall_mem_cons] at h
    have hcons : unlines (line :: lines) = line ++ '\n' :: unlines lines := by
      simp [unlines]
    rw [hcons, List.splitOn_append_cons_self_of_not_mem h.1, ih h.2]
    rfl

theorem readDefinitions_unlines {lines : List Text} (h : ∀ line ∈ lines, '\n' ∉ line) :
    readDefinitions (unlines lines) = lines.filterMap readDefinition := by
  have hlast : ([[]] : List Text).filterMap readDefinition = [] := rfl
  rw [readDefinitions, splitOn_unlines h, List.filterMap_append, hlast, List.append_nil]

/-- A line that is read as the declaration of an array of bytes. -/
structure Reads (line name : Text) (bytes : List UInt8) : Prop where
  newline : '\n' ∉ line
  declares : ∃ definition, readDefinition line = some definition ∧ Declares definition name bytes

theorem reads_constantLine {name body align : Text} {bytes : List UInt8} {length : ℕ}
    (hname : ∀ c ∈ name, c ≠ ' ' ∧ c ≠ '\n') (hlength : length = bytes.length)
    (hbody : Spells body bytes) (halign : '\n' ∉ align) :
    Reads (constantLine name length ('c' :: '"' :: body ++ ['"']) align) name bytes where
  newline := by
    have hdecimal : '\n' ∉ decimalText length := fun h =>
      absurd (isAsciiDigit_of_mem_decimalText h) (by decide)
    have hbody' : '\n' ∉ body := fun h => absurd (hbody.printable h).1 (by decide)
    have hname' : '\n' ∉ name := fun h => (hname _ h).2 rfl
    simp [constantLine, hdecimal, hbody', hname', halign]
  declares := by
    refine ⟨⟨name, length, body, align⟩, readDefinition_constantLine (fun h => (hname _ h).1 rfl)
      (fun h => (hbody.printable h).2.2 rfl) length align, ?_⟩
    exact ⟨rfl, hlength, hbody, hbody.unescape_eq⟩

/-- What is read of lines that each declare an array. -/
theorem forall₂_readDefinition {α : Type*} {items : List α} {line name : α → Text}
    {bytes : α → List UInt8} (h : ∀ item ∈ items, Reads (line item) (name item) (bytes item)) :
    List.Forall₂ (fun definition item => Declares definition (name item) (bytes item))
      ((items.map line).filterMap readDefinition) items := by
  induction items with
  | nil => exact .nil
  | cons item items ih =>
    rw [List.forall_mem_cons] at h
    obtain ⟨definition, hread, hdeclares⟩ := h.1.declares
    rw [List.map_cons, List.filterMap_cons_some hread]
    exact .cons hdeclares (ih h.2)

/-- A line that declares nothing. -/
structure Silent (line : Text) : Prop where
  newline : '\n' ∉ line
  head : line.head? ≠ some '@'

theorem filterMap_silent {lines : List Text} (h : ∀ line ∈ lines, Silent line) :
    lines.filterMap readDefinition = [] :=
  List.filterMap_eq_nil_iff.mpr fun line hline => readDefinition_of_head (h line hline).head

/-! ## The emitted bytes -/

theorem ne_of_mem_decimalText {n : ℕ} {c : Char} (h : c ∈ decimalText n) : c ≠ ' ' ∧ c ≠ '\n' := by
  have hdigit := isAsciiDigit_of_mem_decimalText h
  constructor
  · rintro rfl
    exact absurd hdigit (by decide)
  · rintro rfl
    exact absurd hdigit (by decide)

theorem ne_of_mem_i32Text {value : I32} {c : Char} (h : c ∈ i32Text value) :
    c ≠ ' ' ∧ c ≠ '\n' := by
  rw [i32Text, intText] at h
  split at h
  · rcases List.mem_cons.mp h with rfl | h
    · decide
    · exact ne_of_mem_decimalText h
  · exact ne_of_mem_decimalText h

theorem reads_identityLine (program : Program) : Reads (identityLine program)
    "spk_storage_identity_data".toList (Text.utf8 program.title.toList ++ [0]) :=
  reads_constantLine (by simp) rfl (spells_escapeBytes (fun _ h => h) _) (by decide)

theorem reads_soundLine (sound : SoundAsset) : Reads (soundLine sound)
    ("spk_sound_asset_".toList ++ i32Text sound.handle) sound.pcm := by
  have hfront : ∀ c ∈ "spk_sound_asset_".toList, c ≠ ' ' ∧ c ≠ '\n' := by simp
  refine reads_constantLine (fun c hc => ?_) rfl (spells_escapeBytes (fun _ h => h) _) (by decide)
  exact (List.mem_append.mp hc).elim (hfront c) ne_of_mem_i32Text

theorem reads_sourceLine (id : ℕ) (path : Text) : Reads (sourceLine id path)
    ("spk_source_".toList ++ decimalText id) (path.utf8 ++ [0]) := by
  have hfront : ∀ c ∈ "spk_source_".toList, c ≠ ' ' ∧ c ≠ '\n' := by simp
  have hnul : Spells "\\00".toList [0] :=
    .escape (hexValue_hexDigit 0 (by decide)) (hexValue_hexDigit 0 (by decide)) .nil
  have hbody := (@spells_escapeBytes (fun _ => false) nofun path.utf8).append hnul
  have hline : sourceLine id path = constantLine ("spk_source_".toList ++ decimalText id)
      (path.utf8Len + 1) ('c' :: '"' :: (escapeBytes (fun _ => false) path.utf8 ++ "\\00".toList) ++
        ['"']) [] := by
    simp [sourceLine, constantLine]
  rw [hline]
  refine reads_constantLine (fun c hc => ?_) ?_ hbody List.not_mem_nil
  · exact (List.mem_append.mp hc).elim (hfront c) ne_of_mem_decimalText
  · rw [List.length_append]
    rfl

theorem Silent.append {front back : Text} (h : Silent front) (hfront : front ≠ [])
    (hback : '\n' ∉ back) : Silent (front ++ back) where
  newline := by
    rw [List.mem_append, not_or]
    exact ⟨h.newline, hback⟩
  head := by
    rw [List.head?_append_of_ne_nil _ hfront]
    exact h.head

theorem silent_lookupLines (sounds : List SoundAsset) :
    ∀ line ∈ lookupLines sounds, Silent line := by
  have hnumber : ∀ value : I32, '\n' ∉ i32Text value := fun value h =>
    (ne_of_mem_i32Text h).2 rfl
  have hsamples : ∀ n, '\n' ∉ decimalText n := fun n h => (ne_of_mem_decimalText h).2 rfl
  intro line hline
  rw [lookupLines] at hline
  split at hline
  · simp only [List.mem_cons, List.not_mem_nil, or_false] at hline
    rcases hline with rfl | rfl | rfl | rfl | rfl <;> exact ⟨by decide, by decide⟩
  · simp only [List.mem_append, List.mem_cons, List.mem_map, List.mem_flatMap, List.not_mem_nil,
      or_false] at hline
    rcases hline with ((rfl | ⟨sound, -, rfl⟩) | rfl | ⟨sound, -, rfl | rfl | rfl | rfl⟩) |
      rfl | rfl | rfl | rfl | rfl | rfl
    · exact ⟨by decide, by decide⟩
    · rw [List.append_assoc, List.append_assoc]
      refine Silent.append ⟨by decide, by decide⟩ (by decide) ?_
      simp [hnumber]
    · exact ⟨by decide, by decide⟩
    · rw [List.append_assoc]
      refine Silent.append ⟨by decide, by decide⟩ (by decide) ?_
      simp [hnumber]
    · rw [List.append_assoc]
      refine Silent.append ⟨by decide, by decide⟩ (by decide) ?_
      simp [hnumber]
    · rw [List.append_assoc]
      refine Silent.append ⟨by decide, by decide⟩ (by decide) ?_
      simp [hsamples]
    all_goals exact ⟨by decide, by decide⟩

/-- The bytes that a program embeds are read back as they are, each with its length. -/
theorem embedded_bytes_read (program : Program) (sources : List SourceLocation.SourceFile) :
    (∃ identity assets, readDefinitions (emit program) = identity :: assets ∧
      Declares identity "spk_storage_identity_data".toList
        (Text.utf8 program.title.toList ++ [0]) ∧
      List.Forall₂ (fun asset sound =>
          Declares asset ("spk_sound_asset_".toList ++ i32Text sound.handle) sound.pcm)
        assets (sortedSounds program)) ∧
    List.Forall₂ (fun constant source =>
        Declares constant ("spk_source_".toList ++ decimalText source.2)
          (Text.utf8 source.1.path ++ [0]))
      (readDefinitions (RuntimeDiagnostics.located sources).declarations) sources.zipIdx := by
  constructor
  · have hassets := forall₂_readDefinition fun sound (_ : sound ∈ sortedSounds program) =>
      reads_soundLine sound
    obtain ⟨identity, hread, hdeclares⟩ := (reads_identityLine program).declares
    refine ⟨identity, _, ?_, hdeclares, hassets⟩
    have hsilent : ∀ line ∈ [[], "declare void @crumb_storage_init(ptr, i64)".toList, [],
        "define i32 @spk_sound_lookup(i32 %handle, ptr %data, ptr %sample_count) \x7b".toList,
        "entry:".toList] ++ lookupLines (sortedSounds program), Silent line := by
      intro line hline
      rcases List.mem_append.mp hline with hline | hline
      · simp only [List.mem_cons, List.not_mem_nil, or_false] at hline
        rcases hline with rfl | rfl | rfl | rfl | rfl <;> exact ⟨by decide, by decide⟩
      · exact silent_lookupLines _ line hline
    rw [emit, List.append_assoc, readDefinitions_unlines, List.filterMap_append,
      filterMap_silent hsilent, List.append_nil, List.filterMap_cons_some hread]
    intro line hline
    rcases List.mem_append.mp hline with hline | hline
    · rcases List.mem_cons.mp hline with rfl | hline
      · exact (reads_identityLine program).newline
      · obtain ⟨sound, -, rfl⟩ := List.mem_map.mp hline
        exact (reads_soundLine sound).newline
    · exact (hsilent line hline).newline
  · have hsources := forall₂_readDefinition
      fun (source : SourceLocation.SourceFile × ℕ) (_ : source ∈ sources.zipIdx) =>
        reads_sourceLine source.2 source.1.path
    have hfirst : Silent "declare void @crumb_source_location(ptr, i32, i32)".toList :=
      ⟨by decide, by decide⟩
    rw [RuntimeDiagnostics.declarations, readDefinitions_unlines,
      List.filterMap_cons_none (readDefinition_of_head hfirst.head)]
    · exact hsources
    · intro line hline
      rcases List.mem_cons.mp hline with rfl | hline
      · exact hfirst.newline
      · obtain ⟨source, -, rfl⟩ := List.mem_map.mp hline
        exact (reads_sourceLine source.2 source.1.path).newline

end EmbeddedData

end Speck
