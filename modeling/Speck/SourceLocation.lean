import Mathlib.Data.List.Induction
import Speck.Ast
import Speck.Text

/-!
# Lines and columns

A position of a source is found twice : `SourceFile::location` searches the table of the line
starts, and `Diagnostic::render` scans the text around it. Both cut the text at the line that
contains the position (`LineAt`), so they print the same line and column, and the line shown is that
line (`location_agrees`). Neither fails on an offset past the end or inside of a character : both
go back to a boundary first (`floorBoundary_spec`).
-/

namespace Speck

/-! ## Partition points -/

section PartitionPoint

variable {α : Type*} (p : α → Bool)

/-- The search of `partition_point` : the first of the `size` entries from `base` meets the
condition, or none does. A step halves the size, so the fuel is the length. -/
def bisect (xs : List α) : ℕ → ℕ → ℕ → ℕ
  | fuel + 1, base, size =>
    if 1 < size then
      let mid := base + size / 2
      bisect xs fuel (if xs[mid]?.any p then mid else base) (size - size / 2)
    else base
  | 0, base, _ => base

/-- `partition_point`. -/
def partitionPoint (xs : List α) : ℕ :=
  if xs = [] then 0 else
    let base := bisect p xs xs.length 0 xs.length
    if xs[base]?.any p then base + 1 else base

variable {p}

/-- The entries that meet the condition are those before `point`. -/
def PartitionedAt (p : α → Bool) (xs : List α) (point : ℕ) : Prop :=
  point ≤ xs.length ∧ ∀ index < xs.length, xs[index]?.any p = decide (index < point)

theorem partitionedAt_append {xs ys : List α} (hxs : ∀ x ∈ xs, p x = true)
    (hys : ∀ y ∈ ys, p y = false) : PartitionedAt p (xs ++ ys) xs.length := by
  refine ⟨by simp, fun index hindex => ?_⟩
  by_cases hlt : index < xs.length
  · rw [List.getElem?_append_left hlt, List.getElem?_eq_getElem hlt, Option.any_some,
      hxs _ (List.getElem_mem hlt), decide_eq_true hlt]
  · rw [List.length_append] at hindex
    have hlt' : index - xs.length < ys.length := by omega
    rw [List.getElem?_append_right (by omega), List.getElem?_eq_getElem hlt', Option.any_some,
      hys _ (List.getElem_mem hlt'), decide_eq_false hlt]

/-- The point stays between `base` and the entries that are left. -/
theorem bisect_spec {xs : List α} {point : ℕ} (h : PartitionedAt p xs point) {fuel base size : ℕ}
    (hfuel : size ≤ fuel) (hsize : 0 < size) (hend : base + size ≤ xs.length)
    (hbase : base ≤ point) (hpoint : point ≤ base + size) :
    bisect p xs fuel base size ≤ point ∧ point ≤ bisect p xs fuel base size + 1 ∧
      bisect p xs fuel base size < xs.length := by
  induction fuel generalizing base size with
  | zero => omega
  | succ fuel ih =>
    rw [bisect]
    split
    · next hlarge =>
      have hmid := h.2 (base + size / 2) (by omega)
      dsimp only
      rw [hmid]
      by_cases hlt : base + size / 2 < point
      · rw [decide_eq_true hlt, if_pos rfl]
        exact ih (by omega) (by omega) (by omega) (by omega) (by omega)
      · rw [decide_eq_false hlt, if_neg Bool.false_ne_true]
        exact ih (by omega) (by omega) (by omega) (by omega) (by omega)
    · omega

theorem partitionPoint_eq {xs : List α} {point : ℕ} (h : PartitionedAt p xs point) :
    partitionPoint p xs = point := by
  have hle := h.1
  rw [partitionPoint]
  split
  · next hnil =>
    rw [hnil, List.length_nil] at hle
    omega
  · next hcons =>
    have hpos := List.length_pos_of_ne_nil hcons
    obtain ⟨hbase, hpoint, hlt⟩ := bisect_spec h (le_refl xs.length) hpos (Nat.zero_add _).le
      (Nat.zero_le point) (by omega)
    dsimp only
    rw [h.2 _ hlt]
    split
    · next hmeets =>
      have hmeets' := of_decide_eq_true hmeets
      omega
    · next hfails =>
      have hfails' := of_decide_eq_false (Bool.eq_false_iff.mpr hfails)
      omega

end PartitionPoint

namespace SourceLocation

open Text

/-! ## The code -/

def isCharBoundary (text : Text) (offset : ℕ) : Bool := (text.splitAt offset).isSome

/-- `while !text.is_char_boundary(offset) \x7b offset -= 1; \x7d`. -/
def floorBoundary (text : Text) : ℕ → ℕ
  | 0 => 0
  | offset + 1 => if isCharBoundary text (offset + 1) then offset + 1 else floorBoundary text offset

/-- The offsets after the newlines among bytes that begin at `base`. -/
def newlineEnds (bytes : List UInt8) (base : ℕ) : List ℕ :=
  (bytes.zipIdx base).filterMap fun (byte, index) => if byte = 10 then some (index + 1) else none

structure SourceFile where
  path : Text
  text : Text
  lineStarts : List ℕ

/-- `SourceMap::add`, the file that is added. -/
def SourceFile.add (path text : Text) : SourceFile := ⟨path, text, 0 :: newlineEnds text.utf8 0⟩

/-- `point - 1`. -/
def decrease : ℕ → Option ℕ
  | 0 => none
  | point + 1 => some point

/-- `SourceFile::location`. The slice and the table are indexed, and the number of line starts is
decreased : each can fail. -/
def SourceFile.location (file : SourceFile) (offset : ℕ) : Option (ℕ × ℕ) := do
  let offset := floorBoundary file.text (min offset file.text.utf8Len)
  let line ← decrease (partitionPoint (· ≤ offset) file.lineStarts)
  let lineStart ← file.lineStarts[line]?
  let front ← slice file.text lineStart offset
  pure (line + 1, front.length + 1)

/-- `find`. -/
def find (c : Char) : Text → Option ℕ
  | [] => none
  | d :: rest => if d = c then some 0 else (find c rest).map (d.utf8Size + ·)

/-- `rfind`. -/
def rfind (c : Char) : Text → Option ℕ
  | [] => none
  | d :: rest =>
    match rfind c rest with
    | some index => some (d.utf8Size + index)
    | none => if d = c then some 0 else none

/-- The text of an error : where it is, the line, and the marker under it. -/
def layout (path : Text) (lineNumber column : ℕ) (message line : Text)
    (markerOffset markerLen : ℕ) : Text :=
  let gutter := List.replicate (decimalText lineNumber).length ' '
  path ++ ":".toList ++ decimalText lineNumber ++ ":".toList ++ decimalText column ++
    ": error: ".toList ++ message ++ "\n".toList ++ gutter ++ " |\n".toList ++
    decimalText lineNumber ++ " | ".toList ++ line ++ "\n".toList ++ gutter ++ " | ".toList ++
    List.replicate markerOffset ' ' ++ List.replicate markerLen '^'

/-- `Diagnostic::render`. -/
def render (path source : Text) (diagnostic : Diagnostic) : Option Text := do
  let span := diagnostic.span
  let start := floorBoundary source (min span.start source.utf8Len)
  let front ← slice source 0 start
  let lineStart := ((rfind '\n' front).map (· + 1)).getD 0
  let back ← sliceFrom source start
  let lineEnd := ((find '\n' back).map (start + ·)).getD source.utf8Len
  let lineNumber := (front.utf8.filter (· = 10)).length + 1
  let left ← slice source lineStart start
  let column := left.length + 1
  let line ← slice source lineStart lineEnd
  let markerOffset := left.length
  let available := lineEnd - start
  let stop := floorBoundary source (start + min (span.stop - span.start) available)
  let marked ← slice source start stop
  let markerLen := max marked.length 1
  pure (layout path lineNumber column diagnostic.message.toList line markerOffset markerLen)

/-! ## Boundaries -/

theorem isCharBoundary_append (front back : Text) :
    isCharBoundary (front ++ back) (utf8Len front) = true := by
  rw [isCharBoundary, splitAt_append]
  rfl

theorem isCharBoundary_iff {text : Text} {offset : ℕ} :
    isCharBoundary text offset = true ↔ IsBoundary text offset := by
  constructor
  · intro h
    obtain ⟨⟨front, back⟩, hsplit⟩ := Option.isSome_iff_exists.mp h
    obtain ⟨htext, hlen⟩ := append_of_splitAt hsplit
    exact ⟨front, back, htext, hlen⟩
  · rintro ⟨front, back, rfl, rfl⟩
    exact isCharBoundary_append front back

/-- Boundaries cut a text. -/
theorem exists_slice {text : Text} {start stop : ℕ} (hstart : IsBoundary text start)
    (hstop : IsBoundary text stop) (hle : start ≤ stop) :
    ∃ middle, slice text start stop = some middle := by
  obtain ⟨front, back, htext, rfl⟩ := hstart
  obtain ⟨front', back', htext', rfl⟩ := hstop
  rcases List.append_eq_append_iff.mp (htext.symm.trans htext') with
    ⟨middle, rfl, -⟩ | ⟨rest, rfl, -⟩
  · refine ⟨middle, ?_⟩
    rw [htext', utf8Len_append]
    exact slice_append front middle back'
  · have hrest : rest = [] := by
      by_contra hne
      have hpos := utf8Len_pos hne
      rw [utf8Len_append] at hle
      omega
    subst hrest
    refine ⟨[], ?_⟩
    have hslice := slice_append front' [] back'
    rw [List.append_nil, utf8Len_nil, Nat.add_zero, ← htext'] at hslice
    rwa [List.append_nil]

/-- The loop ends at the last boundary that is not after the offset. -/
theorem floorBoundary_spec (text : Text) (offset : ℕ) :
    IsBoundary text (floorBoundary text offset) ∧ floorBoundary text offset ≤ offset ∧
      ∀ boundary ≤ offset, IsBoundary text boundary → boundary ≤ floorBoundary text offset := by
  induction offset with
  | zero => exact ⟨⟨[], text, rfl, rfl⟩, le_refl 0, fun boundary h _ => h⟩
  | succ offset ih =>
    rw [floorBoundary]
    split
    · next hboundary =>
      exact ⟨isCharBoundary_iff.mp hboundary, le_refl _, fun boundary h _ => h⟩
    · next hinside =>
      obtain ⟨hfloor, hle, hgreatest⟩ := ih
      refine ⟨hfloor, by omega, fun boundary h hboundary => hgreatest boundary ?_ hboundary⟩
      have hne : boundary ≠ offset + 1 := by
        rintro rfl
        exact hinside (isCharBoundary_iff.mpr hboundary)
      omega

/-! ## Newlines -/

theorem filter_utf8EncodeChar (c : Char) : (String.utf8EncodeChar c).filter (· = 10) =
    if c = '\n' then [10] else [] := by
  rcases Nat.lt_or_ge c.toNat 128 with hc | hc
  · have hbyte : UInt8.ofNat c.toNat = 10 ↔ c = '\n' := by
      constructor
      · intro h
        rw [← byteChar_ofNat hc, h]
        rfl
      · rintro rfl
        rfl
    rw [utf8EncodeChar_of_lt hc]
    by_cases hnewline : c = '\n'
    · rw [hnewline]
      rfl
    · rw [if_neg hnewline, List.filter_singleton, decide_eq_false (fun h => hnewline (hbyte.mp h))]
      rfl
  · have hne : c ≠ '\n' := ne_of_le hc (by decide)
    rw [if_neg hne, List.filter_eq_nil_iff]
    intro byte hbyte hnewline
    have hle := le_of_mem_utf8EncodeChar hc hbyte
    rw [of_decide_eq_true hnewline] at hle
    exact absurd hle (by decide)

/-- The newlines of a text are the newlines of its bytes. -/
theorem filter_utf8 (text : Text) : (text.utf8.filter (· = 10)).length = text.count '\n' := by
  induction text with
  | nil => rfl
  | cons c text ih =>
    rw [utf8_cons, List.filter_append, List.length_append, ih, filter_utf8EncodeChar,
      List.count_cons, Nat.add_comm]
    by_cases hc : c = '\n'
    · rw [if_pos hc, hc]
      rfl
    · rw [if_neg hc, if_neg (by simpa using hc)]
      rfl

theorem newlineEnds_append (front back : List UInt8) (base : ℕ) :
    newlineEnds (front ++ back) base =
      newlineEnds front base ++ newlineEnds back (base + front.length) := by
  rw [newlineEnds, List.zipIdx_append, List.filterMap_append]
  rfl

theorem length_newlineEnds (bytes : List UInt8) (base : ℕ) :
    (newlineEnds bytes base).length = (bytes.filter (· = 10)).length := by
  induction bytes generalizing base with
  | nil => rfl
  | cons byte bytes ih =>
    have hrest := ih (base + 1)
    rw [newlineEnds] at hrest
    rw [newlineEnds, List.zipIdx_cons]
    by_cases hbyte : byte = 10
    · simp [hbyte, hrest]
    · simp [hbyte, hrest]

theorem mem_newlineEnds {bytes : List UInt8} {base lineStart : ℕ}
    (h : lineStart ∈ newlineEnds bytes base) :
    base < lineStart ∧ lineStart ≤ base + bytes.length := by
  rw [newlineEnds, List.mem_filterMap] at h
  obtain ⟨⟨byte, index⟩, hmem, hsome⟩ := h
  obtain ⟨hle, hlt, -⟩ := List.mem_zipIdx hmem
  dsimp only at hsome
  split at hsome
  · cases hsome
    omega
  · cases hsome

theorem newlineEnds_utf8 {text : Text} (h : '\n' ∉ text) (base : ℕ) :
    newlineEnds text.utf8 base = [] := by
  rw [← List.length_eq_zero_iff, length_newlineEnds, filter_utf8, List.count_eq_zero]
  exact h

/-- The line that contains a position of the text : `left` is the part of it before the position,
and `right` the part after. -/
structure LineAt (text : Text) (position : ℕ) (before left right after : Text) : Prop where
  text_eq : text = before ++ (left ++ right) ++ after
  start : before = [] ∨ ∃ lines, before = lines ++ ['\n']
  line : '\n' ∉ left ++ right
  stop : after = [] ∨ ∃ lines, after = '\n' :: lines
  position_eq : utf8Len before + utf8Len left = position

variable {text before left right after lines : Text} {position : ℕ}

theorem rfind_of_not_mem (h : '\n' ∉ left) : rfind '\n' left = none := by
  induction left with
  | nil => rfl
  | cons c left ih =>
    rw [List.mem_cons, not_or] at h
    rw [rfind, ih h.2]
    exact if_neg (Ne.symm h.1)

theorem rfind_append (h : '\n' ∉ left) :
    rfind '\n' (lines ++ ['\n'] ++ left) = some (utf8Len lines) := by
  induction lines with
  | nil =>
    rw [List.nil_append, List.singleton_append, rfind, rfind_of_not_mem h]
    rfl
  | cons c lines ih =>
    rw [List.cons_append, List.cons_append, rfind, ih, utf8Len_cons]

theorem find_of_not_mem (h : '\n' ∉ right) : find '\n' right = none := by
  induction right with
  | nil => rfl
  | cons c right ih =>
    rw [List.mem_cons, not_or] at h
    rw [find, if_neg (Ne.symm h.1), ih h.2]
    rfl

theorem find_append (h : '\n' ∉ right) :
    find '\n' (right ++ '\n' :: lines) = some (utf8Len right) := by
  induction right with
  | nil => exact if_pos rfl
  | cons c right ih =>
    rw [List.mem_cons, not_or] at h
    rw [List.cons_append, find, if_neg (Ne.symm h.1), ih h.2, utf8Len_cons]
    rfl

theorem exists_lastLine (text : Text) : ∃ before left, text = before ++ left ∧ '\n' ∉ left ∧
    (before = [] ∨ ∃ lines, before = lines ++ ['\n']) := by
  induction text using List.reverseRecOn with
  | nil => exact ⟨[], [], rfl, List.not_mem_nil, .inl rfl⟩
  | append_singleton text c ih =>
    by_cases hc : c = '\n'
    · exact ⟨text ++ [c], [], (List.append_nil _).symm, List.not_mem_nil, .inr ⟨text, by rw [hc]⟩⟩
    · obtain ⟨before, left, rfl, hleft, hbefore⟩ := ih
      refine ⟨before, left ++ [c], List.append_assoc _ _ _, ?_, hbefore⟩
      rw [List.mem_append, List.mem_singleton, not_or]
      exact ⟨hleft, Ne.symm hc⟩

theorem exists_firstLine (text : Text) : ∃ right after, text = right ++ after ∧ '\n' ∉ right ∧
    (after = [] ∨ ∃ lines, after = '\n' :: lines) := by
  by_cases h : '\n' ∈ text
  · obtain ⟨right, lines, rfl, hright⟩ := List.eq_append_cons_of_mem h
    exact ⟨right, _, rfl, hright, .inr ⟨lines, rfl⟩⟩
  · exact ⟨text, [], (List.append_nil text).symm, h, .inl rfl⟩

/-- Each boundary is a position of a line. -/
theorem exists_lineAt (h : IsBoundary text position) :
    ∃ before left right after, LineAt text position before left right after := by
  obtain ⟨front, back, rfl, rfl⟩ := h
  obtain ⟨before, left, rfl, hleft, hbefore⟩ := exists_lastLine front
  obtain ⟨right, after, rfl, hright, hafter⟩ := exists_firstLine back
  refine ⟨before, left, right, after, ⟨by simp, hbefore, ?_, hafter, (utf8Len_append _ _).symm⟩⟩
  rw [List.mem_append, not_or]
  exact ⟨hleft, hright⟩

/-! ## The two computations -/

/-- The table has a line start for each line before the position, and the last of these is where its
line begins. -/
theorem LineAt.lineStarts (h : LineAt text position before left right after) :
    ∃ earlier later, 0 :: newlineEnds text.utf8 0 = earlier ++ [utf8Len before] ++ later ∧
      earlier.length = before.count '\n' ∧ (∀ start ∈ earlier, start ≤ position) ∧
      ∀ start ∈ later, position < start := by
  have hposition := h.position_eq
  have hline := h.line
  rw [List.mem_append, not_or] at hline
  have hends : newlineEnds text.utf8 0 = newlineEnds before.utf8 0 ++
      newlineEnds (right ++ after).utf8 position := by
    have htext : text.utf8 = before.utf8 ++ (left.utf8 ++ (right ++ after).utf8) := by
      rw [h.text_eq]
      simp
    rw [htext, newlineEnds_append, newlineEnds_append, newlineEnds_utf8 hline.1, List.nil_append,
      ← utf8Len, ← utf8Len, Nat.zero_add, hposition]
  have hlater : ∀ start ∈ newlineEnds (right ++ after).utf8 position, position < start :=
    fun start hstart => (mem_newlineEnds hstart).1
  rcases h.start with rfl | ⟨lines, rfl⟩
  · exact ⟨[], _, by rw [hends]; rfl, rfl, by simp, hlater⟩
  · have hlast : newlineEnds (lines ++ ['\n']).utf8 0 =
        newlineEnds lines.utf8 0 ++ [utf8Len (lines ++ ['\n'])] := by
      rw [utf8_append, newlineEnds_append, utf8Len_append, Nat.zero_add]
      rfl
    refine ⟨0 :: newlineEnds lines.utf8 0, _, by rw [hends, hlast]; rfl, ?_, ?_, hlater⟩
    · rw [List.length_cons, length_newlineEnds, filter_utf8, List.count_append]
      rfl
    · rw [utf8Len_append] at hposition
      intro start hstart
      rcases List.mem_cons.mp hstart with rfl | hstart
      · exact Nat.zero_le position
      · have hle := (mem_newlineEnds hstart).2
        rw [← utf8Len] at hle
        omega

theorem LineAt.slice_left (h : LineAt text position before left right after) :
    slice text (utf8Len before) position = some left := by
  have htext : text = before ++ left ++ (right ++ after) := by
    rw [h.text_eq]
    simp
  rw [htext, ← h.position_eq]
  exact slice_append before left (right ++ after)

theorem LineAt.location {offset : ℕ}
    (h : LineAt text (floorBoundary text (min offset text.utf8Len)) before left right after)
    (path : Text) :
    (SourceFile.add path text).location offset =
      some (before.count '\n' + 1, left.length + 1) := by
  obtain ⟨earlier, later, htable, hlength, hearlier, hlater⟩ := h.lineStarts
  have hposition := h.position_eq
  have hpoint : partitionPoint (· ≤ floorBoundary text (min offset text.utf8Len))
      (earlier ++ [utf8Len before] ++ later) = earlier.length + 1 := by
    rw [partitionPoint_eq (partitionedAt_append _ _), List.length_append, List.length_singleton]
    · intro start hstart
      rcases List.mem_append.mp hstart with hstart | hstart
      · exact decide_eq_true (hearlier start hstart)
      · rw [List.mem_singleton] at hstart
        exact decide_eq_true (by omega)
    · intro start hstart
      have hlt := hlater start hstart
      exact decide_eq_false (by omega)
  have hstart : (earlier ++ [utf8Len before] ++ later)[earlier.length]? =
      some (utf8Len before) := by
    simp
  rw [hlength] at hpoint hstart
  simp only [SourceFile.location, SourceFile.add, htable, hpoint, decrease, Option.bind_eq_bind,
    Option.bind_some, hstart, h.slice_left]
  rfl

/-- What `render` shows : the line, and a marker under the part of it from the position on. -/
theorem LineAt.render {diagnostic : Diagnostic}
    (h : LineAt text (floorBoundary text (min diagnostic.span.start text.utf8Len))
      before left right after) (path : Text) :
    ∃ markerLen, render path text diagnostic = some (layout path (before.count '\n' + 1)
      (left.length + 1) diagnostic.message.toList (left ++ right) left.length markerLen) := by
  have hposition := h.position_eq
  have hline := h.line
  rw [List.mem_append, not_or] at hline
  have htext : text = (before ++ left) ++ (right ++ after) := by
    rw [h.text_eq]
    simp
  have hlength : utf8Len text =
      utf8Len before + utf8Len left + (utf8Len right + utf8Len after) := by
    rw [htext, utf8Len_append, utf8Len_append, utf8Len_append]
  have hfront : slice text 0 (utf8Len before + utf8Len left) = some (before ++ left) := by
    have hslice := slice_append [] (before ++ left) (right ++ after)
    rwa [List.nil_append, utf8Len_nil, Nat.zero_add, utf8Len_append, ← htext] at hslice
  have hback : sliceFrom text (utf8Len before + utf8Len left) = some (right ++ after) := by
    rw [htext, ← utf8Len_append]
    exact sliceFrom_append (before ++ left) (right ++ after)
  have hlineStart : ((rfind '\n' (before ++ left)).map (· + 1)).getD 0 = utf8Len before := by
    rcases h.start with rfl | ⟨lines, rfl⟩
    · rw [List.nil_append, rfind_of_not_mem hline.1]
      rfl
    · rw [rfind_append hline.1, utf8Len_append]
      rfl
  have hlineEnd : ((find '\n' (right ++ after)).map (utf8Len before + utf8Len left + ·)).getD
      text.utf8Len = utf8Len before + utf8Len (left ++ right) := by
    rcases h.stop with rfl | ⟨lines, rfl⟩
    · rw [List.append_nil, find_of_not_mem hline.2, utf8Len_append]
      simp only [Option.map_none, Option.getD_none, hlength, utf8Len_nil]
      omega
    · rw [find_append hline.2, utf8Len_append]
      simp only [Option.map_some, Option.getD_some]
      omega
  have hnumber : ((before ++ left).utf8.filter (· = 10)).length = before.count '\n' := by
    rw [filter_utf8, List.count_append, List.count_eq_zero.mpr hline.1, Nat.add_zero]
  have hshown : slice text (utf8Len before) (utf8Len before + utf8Len (left ++ right)) =
      some (left ++ right) := by
    have hslice := slice_append before (left ++ right) after
    rwa [← h.text_eq] at hslice
  -- The marker ends at a boundary that is not before the position.
  obtain ⟨marked, hmarked⟩ : ∃ marked, slice text (utf8Len before + utf8Len left)
      (floorBoundary text (utf8Len before + utf8Len left + min (diagnostic.span.stop -
        diagnostic.span.start) (utf8Len before + utf8Len (left ++ right) -
          (utf8Len before + utf8Len left)))) = some marked := by
    refine exists_slice ⟨before ++ left, right ++ after, htext, utf8Len_append _ _⟩
      (floorBoundary_spec _ _).1 ?_
    exact (floorBoundary_spec _ _).2.2 _ (Nat.le_add_right _ _)
      ⟨before ++ left, right ++ after, htext, utf8Len_append _ _⟩
  refine ⟨max marked.length 1, ?_⟩
  have hleft := h.slice_left
  rw [← hposition] at hleft
  simp only [SourceLocation.render, ← hposition, Option.bind_eq_bind, hfront, hback, hleft,
    Option.bind_some, hlineStart, hlineEnd, hnumber, hshown, hmarked]
  rfl

/-- A line and column are the same found with the table and by scanning the text, and the line that
is shown is the one with the position. -/
theorem location_agrees (path text : Text) (diagnostic : Diagnostic) :
    ∃ before left right after line column markerLen,
      LineAt text (floorBoundary text (min diagnostic.span.start text.utf8Len))
        before left right after ∧
      line = before.count '\n' + 1 ∧ column = left.length + 1 ∧
      (SourceFile.add path text).location diagnostic.span.start = some (line, column) ∧
      render path text diagnostic = some (layout path line column diagnostic.message.toList
        (left ++ right) left.length markerLen) := by
  obtain ⟨before, left, right, after, hline⟩ :=
    exists_lineAt (floorBoundary_spec text (min diagnostic.span.start text.utf8Len)).1
  obtain ⟨markerLen, hrender⟩ := hline.render path
  exact ⟨before, left, right, after, _, _, markerLen, hline, rfl, rfl, hline.location path, hrender⟩

end SourceLocation

end Speck
