import Mathlib.Tactic.Ring
import Speck.Ast
import Speck.CheckedInt

/-!
# The framebuffer

`crumb/framebuffer.c` : three bytes for each pixel, row by row. `fillRect` clips a rectangle to the
framebuffer in 64 bits, narrows the clipped sides and paints the pixels between them. An operation
of the model gives nothing where the arithmetic of the source overflows, a narrowing changes a value
or a byte outside of the buffer is written. `fillRect_paints` says that this never happens, and
which bytes are painted.
-/

namespace Speck

namespace Framebuffer

/-- `CRUMB_FRAMEBUFFER_CHANNELS`. -/
def channels : ℕ := 3

/-- `CRUMB_FRAMEBUFFER_BYTES`. -/
def bytes (r : Resolution) : ℕ := r.width * channels * r.height

end Framebuffer

/-- The bytes of the framebuffer. -/
abbrev Pixels (r : Resolution) := Vector UInt8 (Framebuffer.bytes r)

namespace Framebuffer

variable {r : Resolution}

/-! ## Painting -/

def clampColor (component : I32) : UInt8 :=
  if component.toInt < 0 then 0
  else if 255 < component.toInt then 255
  else UInt8.ofNat component.toInt.toNat

/-- `pixels[offset] = value`. -/
def store (offset : ℤ) (value : UInt8) (pixels : Pixels r) : Option (Pixels r) :=
  if h : 0 ≤ offset ∧ offset.toNat < bytes r then some (pixels.set offset.toNat value h.2) else none

def writePixel (x y : ℤ) (red green blue : UInt8) (pixels : Pixels r) : Option (Pixels r) := do
  let stride ← int32 (r.width * channels)
  let row ← int32 (y * stride)
  let column ← int32 (x * channels)
  let offset ← int32 (row + column)
  let pixels ← store offset red pixels
  let next ← int32 (offset + 1)
  let pixels ← store next green pixels
  let last ← int32 (offset + 2)
  store last blue pixels

/-- The pixels between the sides. -/
def paint (left top right bottom : ℤ) (red green blue : UInt8) (pixels : Pixels r) :
    Option (Pixels r) :=
  countUp (fun y pixels => countUp (fun x pixels => writePixel x y red green blue pixels)
    left right pixels) top bottom pixels

/-- `crumb_clear_rgb`. -/
def clearRgb (red green blue : I32) (pixels : Pixels r) : Option (Pixels r) :=
  paint 0 0 r.width r.height (clampColor red) (clampColor green) (clampColor blue) pixels

/-- `crumb_fill_rect`. -/
def fillRect (x y width height red green blue : I32) (pixels : Pixels r) : Option (Pixels r) := do
  if width.toInt ≤ 0 ∨ height.toInt ≤ 0 then return pixels
  let left := x.toInt
  let top := y.toInt
  let right ← int64 (x.toInt + width.toInt)
  let bottom ← int64 (y.toInt + height.toInt)
  if right ≤ 0 ∨ bottom ≤ 0 ∨ (r.width : ℤ) ≤ left ∨ (r.height : ℤ) ≤ top then return pixels
  let left := if left < 0 then 0 else left
  let top := if top < 0 then 0 else top
  let right := if (r.width : ℤ) < right then (r.width : ℤ) else right
  let bottom := if (r.height : ℤ) < bottom then (r.height : ℤ) else bottom
  -- the casts to `int`
  let top ← int32 top
  let bottom ← int32 bottom
  let left ← int32 left
  let right ← int32 right
  paint left top right bottom (clampColor red) (clampColor green) (clampColor blue) pixels

/-! ## Pixels -/

/-- The place of a channel of a pixel. -/
def offset (r : Resolution) (px py channel : ℕ) : ℕ :=
  py * (r.width * channels) + px * channels + channel

/-- A channel of a pixel that is inside. -/
def Inside (r : Resolution) (px py channel : ℕ) : Prop :=
  px < r.width ∧ py < r.height ∧ channel < channels

theorem offset_eq (r : Resolution) (px py channel : ℕ) :
    offset r px py channel = (py * r.width + px) * 3 + channel := by
  rw [offset, channels]
  ring

theorem offset_lt {px py channel : ℕ} (h : Inside r px py channel) :
    offset r px py channel < bytes r := by
  obtain ⟨hx, hy, hchannel⟩ := h
  have hrow : (py + 1) * r.width ≤ r.height * r.width := Nat.mul_le_mul_right _ hy
  have hbytes : bytes r = (r.height * r.width) * 3 := by
    rw [bytes, channels]
    ring
  rw [Nat.succ_mul] at hrow
  rw [channels] at hchannel
  rw [offset_eq, hbytes]
  omega

/-- Distinct channels of pixels have distinct places. -/
theorem offset_injective {px py channel px' py' channel' : ℕ} (h : Inside r px py channel)
    (h' : Inside r px' py' channel') (heq : offset r px py channel = offset r px' py' channel') :
    px = px' ∧ py = py' ∧ channel = channel' := by
  obtain ⟨hx, -, hchannel⟩ := h
  obtain ⟨hx', -, hchannel'⟩ := h'
  rw [channels] at hchannel hchannel'
  rw [offset_eq, offset_eq] at heq
  have hrow : py * r.width + px = py' * r.width + px' := by omega
  have hwidth : 0 < r.width := r.width_mem.1
  have hdiv : ∀ {px py : ℕ}, px < r.width → (py * r.width + px) / r.width = py := by
    intro px py hx
    rw [Nat.mul_comm, Nat.mul_add_div hwidth, Nat.div_eq_of_lt hx, Nat.add_zero]
  have hpy : py = py' := by
    rw [← @hdiv px py hx, hrow, hdiv hx']
  subst hpy
  omega

/-- Every byte is a channel of a pixel. -/
theorem exists_offset {index : ℕ} (h : index < bytes r) :
    ∃ px py channel, Inside r px py channel ∧ offset r px py channel = index := by
  have hwidth : 0 < r.width := r.width_mem.1
  refine ⟨index / 3 % r.width, index / 3 / r.width, index % 3, ⟨?_, ?_, ?_⟩, ?_⟩
  · exact Nat.mod_lt _ hwidth
  · rw [Nat.div_lt_iff_lt_mul hwidth]
    rw [bytes, channels] at h
    have hbytes : r.width * 3 * r.height = r.height * r.width * 3 := by ring
    omega
  · exact Nat.mod_lt _ (by decide)
  · rw [offset_eq, Nat.div_add_mod', Nat.div_add_mod']

/-! ## What is painted -/

/-- The channels of a colour. -/
def channelOf (red green blue : UInt8) : ℕ → UInt8
  | 0 => red
  | 1 => green
  | _ => blue

/-- The pixels of a region have the colour, and the others what they had. -/
def Painted (region : ℤ → ℤ → Prop) (color : ℕ → UInt8) (before after : Pixels r) : Prop :=
  ∀ px py channel, Inside r px py channel →
    (region px py → after[offset r px py channel]? = some (color channel)) ∧
    (¬region px py → after[offset r px py channel]? = before[offset r px py channel]?)

theorem painted_nothing {region : ℤ → ℤ → Prop} {color : ℕ → UInt8} {pixels : Pixels r}
    (h : ∀ px py channel, Inside r px py channel → ¬region px py) :
    Painted region color pixels pixels :=
  fun px py channel hinside =>
    ⟨fun hregion => absurd hregion (h px py channel hinside), fun _ => rfl⟩

theorem Painted.union {region region' : ℤ → ℤ → Prop} {color : ℕ → UInt8}
    {before middle after : Pixels r} (h : Painted region color before middle)
    (h' : Painted region' color middle after) :
    Painted (fun px py => region px py ∨ region' px py) color before after := by
  intro px py channel hinside
  obtain ⟨hin, hout⟩ := h px py channel hinside
  obtain ⟨hin', hout'⟩ := h' px py channel hinside
  by_cases hregion' : region' px py
  · exact ⟨fun _ => hin' hregion', fun hnot => absurd (.inr hregion') hnot⟩
  · rw [hout' hregion']
    exact ⟨fun hregion => hin (hregion.resolve_right hregion'),
      fun hnot => hout fun h => hnot (.inl h)⟩

theorem Painted.congr {region region' : ℤ → ℤ → Prop} {color : ℕ → UInt8} {before after : Pixels r}
    (h : Painted region color before after)
    (hiff : ∀ px py channel, Inside r px py channel → (region' px py ↔ region px py)) :
    Painted region' color before after := by
  intro px py channel hinside
  rw [hiff px py channel hinside]
  exact h px py channel hinside

theorem store_eq {place : ℕ} (h : place < bytes r) (value : UInt8) (pixels : Pixels r) :
    ∃ after, store (place : ℤ) value pixels = some after ∧ after[place]? = some value ∧
      ∀ other, other ≠ place → after[other]? = pixels[other]? := by
  have hinside : 0 ≤ (place : ℤ) ∧ (place : ℤ).toNat < bytes r := ⟨Int.natCast_nonneg _, h⟩
  refine ⟨pixels.set place value h, ?_, ?_, fun other hother => ?_⟩
  · rw [store, dif_pos hinside]
    rfl
  · rw [Vector.getElem?_set_self]
  · rw [Vector.getElem?_set_ne h hother.symm]

/-- A pixel that is inside is painted, and no other. -/
theorem writePixel_paints {px py : ℕ} (hx : px < r.width) (hy : py < r.height)
    (red green blue : UInt8) (pixels : Pixels r) :
    ∃ after, writePixel px py red green blue pixels = some after ∧
      Painted (fun x y => x = px ∧ y = py) (channelOf red green blue) pixels after := by
  obtain ⟨-, hwidth⟩ := r.width_mem
  obtain ⟨-, hheight⟩ := r.height_mem
  have hrow : py * (r.width * channels) ≤ 4096 * (4096 * 3) :=
    Nat.mul_le_mul (by omega) (Nat.mul_le_mul_right 3 hwidth)
  have hcolumn : px * channels ≤ 4096 * 3 := Nat.mul_le_mul_right 3 (by omega)
  have hstride : r.width * channels ≤ 4096 * 3 := Nat.mul_le_mul_right 3 hwidth
  -- the places of the three channels
  have hinside : ∀ channel < 3, Inside r px py channel := fun channel h => ⟨hx, hy, h⟩
  obtain ⟨first, hfirst, hred, hfirst'⟩ := store_eq (offset_lt (hinside 0 (by decide))) red pixels
  obtain ⟨second, hsecond, hgreen, hsecond'⟩ :=
    store_eq (offset_lt (hinside 1 (by decide))) green first
  obtain ⟨third, hthird, hblue, hthird'⟩ := store_eq (offset_lt (hinside 2 (by decide))) blue second
  refine ⟨third, ?_, fun x y channel h => ⟨?_, fun hother => ?_⟩⟩
  · have hlt := offset_lt (hinside 2 (by decide))
    have hlast : offset r px py 2 ≤ 2147483647 := by
      rw [offset]
      omega
    have hnext : (offset r px py 0 : ℤ) + 1 = (offset r px py 1 : ℕ) := rfl
    have hthird : (offset r px py 0 : ℤ) + 2 = (offset r px py 2 : ℕ) := rfl
    have hone : offset r px py 1 ≤ offset r px py 2 := Nat.le_succ _
    have hzero : offset r px py 0 ≤ offset r px py 1 := Nat.le_succ _
    have hoffset : ((py * (r.width * channels) : ℕ) : ℤ) + (px * channels : ℕ) =
        (offset r px py 0 : ℕ) := rfl
    rw [writePixel]
    simp only [Option.bind_eq_bind]
    rw [← Nat.cast_mul, int32_natCast (by omega), Option.bind_some, ← Nat.cast_mul,
      int32_natCast (by omega), Option.bind_some, ← Nat.cast_mul, int32_natCast (by omega),
      Option.bind_some, hoffset, int32_natCast (by omega), Option.bind_some, hfirst,
      Option.bind_some, hnext, int32_natCast (by omega), Option.bind_some, hsecond,
      Option.bind_some, hthird, int32_natCast hlast, Option.bind_some]
    assumption
  · rintro ⟨hpx, hpy⟩
    obtain rfl : x = px := by omega
    obtain rfl : y = py := by omega
    obtain ⟨-, -, hchannel⟩ := h
    have hne : ∀ {a b : ℕ}, a ≠ b → offset r x y a ≠ offset r x y b := fun hab heq =>
      hab (Nat.add_left_cancel heq)
    match channel, hchannel with
    | 0, _ => rw [hthird' _ (hne (by decide)), hsecond' _ (hne (by decide)), hred]; rfl
    | 1, _ => rw [hthird' _ (hne (by decide)), hgreen]; rfl
    | 2, _ => exact hblue
  · have hne : ∀ other < 3, offset r x y channel ≠ offset r px py other := fun other hlt heq => by
      obtain ⟨rfl, rfl, -⟩ := offset_injective h (hinside other hlt) heq
      exact hother ⟨rfl, rfl⟩
    rw [hthird' _ (hne 2 (by decide)), hsecond' _ (hne 1 (by decide)),
      hfirst' _ (hne 0 (by decide))]

/-- The pixels between sides that are inside are painted, and no others. -/
theorem paint_paints {left top right bottom : ℤ} (hleft : 0 ≤ left) (hright : right ≤ r.width)
    (htop : 0 ≤ top) (hbottom : bottom ≤ r.height) (hx : left ≤ right) (hy : top ≤ bottom)
    (red green blue : UInt8) (pixels : Pixels r) :
    ∃ after, paint left top right bottom red green blue pixels = some after ∧
      Painted (fun px py => (left ≤ px ∧ px < right) ∧ top ≤ py ∧ py < bottom)
        (channelOf red green blue) pixels after := by
  obtain ⟨-, hwidth⟩ := r.width_mem
  obtain ⟨-, hheight⟩ := r.height_mem
  refine countUp_ends (fun y after => Painted (fun px py => (left ≤ px ∧ px < right) ∧
    top ≤ py ∧ py < y) (channelOf red green blue) pixels after) hy (by omega) (by omega) ?_ ?_
  · exact painted_nothing fun px py channel _ h => by omega
  · intro y middle hlow hhigh hmiddle
    obtain ⟨py, rfl⟩ := Int.eq_ofNat_of_zero_le (show 0 ≤ y by omega)
    have hrow : ∃ after, countUp (fun x pixels => writePixel x py red green blue pixels) left right
        middle = some after ∧ Painted (fun px y => (left ≤ px ∧ px < right) ∧ y = py)
          (channelOf red green blue) middle after := by
      refine countUp_ends (fun x after => Painted (fun px y => (left ≤ px ∧ px < x) ∧ y = py)
        (channelOf red green blue) middle after) hx (by omega) (by omega) ?_ ?_
      · exact painted_nothing fun px py channel _ h => by omega
      · intro x before hlowx hhighx hbefore
        obtain ⟨px, rfl⟩ := Int.eq_ofNat_of_zero_le (show 0 ≤ x by omega)
        obtain ⟨after, hwrite, hpixel⟩ := @writePixel_paints r px py (by omega) (by omega) red green
          blue before
        exact ⟨after, hwrite, (hbefore.union hpixel).congr fun _ _ _ _ => by omega⟩
    obtain ⟨after, hafter, hpainted⟩ := hrow
    exact ⟨after, hafter, (hmiddle.union hpainted).congr fun _ _ _ _ => by omega⟩

theorem clearRgb_paints (r : Resolution) (red green blue : I32) (pixels : Pixels r) :
    ∃ after, clearRgb red green blue pixels = some after ∧
      Painted (fun _ _ => True) (channelOf (clampColor red) (clampColor green) (clampColor blue))
        pixels after := by
  obtain ⟨after, hafter, hpainted⟩ := paint_paints (le_refl 0) (le_refl (r.width : ℤ)) (le_refl 0)
    (le_refl (r.height : ℤ)) (Int.natCast_nonneg _) (Int.natCast_nonneg _) (clampColor red)
    (clampColor green) (clampColor blue) pixels
  refine ⟨after, hafter, hpainted.congr fun px py channel h => ?_⟩
  obtain ⟨hx, hy, -⟩ := h
  exact iff_of_true trivial (by omega)

/-- The pixels of a rectangle, in exact integers. -/
def InRect (x y width height : I32) (px py : ℤ) : Prop :=
  (0 < width.toInt ∧ 0 < height.toInt) ∧
    (x.toInt ≤ px ∧ px < x.toInt + width.toInt) ∧ y.toInt ≤ py ∧ py < y.toInt + height.toInt

theorem toInt_bounds (n : I32) : -2147483648 ≤ n.toInt ∧ n.toInt ≤ 2147483647 := by
  have hlow := BitVec.le_toInt n
  have hhigh := BitVec.toInt_lt (x := n)
  omega

/-- `fillRect` paints the pixels of the rectangle and leaves the others. -/
theorem fillRect_painted (x y width height red green blue : I32) (pixels : Pixels r) :
    ∃ after, fillRect x y width height red green blue pixels = some after ∧
      Painted (InRect x y width height)
        (channelOf (clampColor red) (clampColor green) (clampColor blue)) pixels after := by
  obtain ⟨hxlow, hxhigh⟩ := toInt_bounds x
  obtain ⟨hylow, hyhigh⟩ := toInt_bounds y
  obtain ⟨hwlow, hwhigh⟩ := toInt_bounds width
  obtain ⟨hhlow, hhhigh⟩ := toInt_bounds height
  obtain ⟨-, hwidth⟩ := r.width_mem
  obtain ⟨-, hheight⟩ := r.height_mem
  rw [fillRect]
  by_cases hempty : width.toInt ≤ 0 ∨ height.toInt ≤ 0
  · rw [if_pos hempty]
    exact ⟨pixels, rfl, painted_nothing fun px py channel _ h => by unfold InRect at h; omega⟩
  · rw [if_neg hempty]
    have hsum : int64 (x.toInt + width.toInt) = some (x.toInt + width.toInt) :=
      int64_eq (by omega) (by omega)
    have hsum' : int64 (y.toInt + height.toInt) = some (y.toInt + height.toInt) :=
      int64_eq (by omega) (by omega)
    simp only [Option.bind_eq_bind]
    rw [hsum, Option.bind_some, hsum', Option.bind_some]
    split
    · exact ⟨pixels, rfl, painted_nothing fun px py channel hinside h => by
        obtain ⟨hpx, hpy, -⟩ := hinside
        unfold InRect at h
        omega⟩
    · -- a clipped side separates the pixels as the exact one does
      generalize hleft : (if x.toInt < 0 then 0 else x.toInt) = left
      generalize htop : (if y.toInt < 0 then 0 else y.toInt) = top
      generalize hright : (if (r.width : ℤ) < x.toInt + width.toInt then (r.width : ℤ)
        else x.toInt + width.toInt) = right
      generalize hbottom : (if (r.height : ℤ) < y.toInt + height.toInt then (r.height : ℤ)
        else y.toInt + height.toInt) = bottom
      have hx : left = max 0 x.toInt := by rw [← hleft]; split <;> omega
      have hy : top = max 0 y.toInt := by rw [← htop]; split <;> omega
      have hx' : right = min (r.width : ℤ) (x.toInt + width.toInt) := by
        rw [← hright]
        split <;> omega
      have hy' : bottom = min (r.height : ℤ) (y.toInt + height.toInt) := by
        rw [← hbottom]
        split <;> omega
      rw [int32_eq (by omega) (by omega), Option.bind_some, int32_eq (by omega) (by omega),
        Option.bind_some, int32_eq (by omega) (by omega), Option.bind_some,
        int32_eq (by omega) (by omega), Option.bind_some]
      obtain ⟨after, hafter, hpainted⟩ :=
        @paint_paints r left top right bottom (by omega) (by omega) (by omega) (by omega)
          (by omega) (by omega) (clampColor red) (clampColor green) (clampColor blue) pixels
      refine ⟨after, hafter, hpainted.congr fun px py channel hinside => ?_⟩
      obtain ⟨hpx, hpy, -⟩ := hinside
      unfold InRect
      omega

/-- `fillRect` paints exactly the clipped rectangle. It overflows nowhere, narrows no value that
does not fit and writes inside of the buffer only; the pixels of the rectangle have the clamped
colour, and every byte that is none of theirs is what it was. -/
theorem fillRect_paints (r : Resolution) (x y width height red green blue : I32)
    (pixels : Pixels r) :
    ∃ after, fillRect x y width height red green blue pixels = some after ∧
      (∀ px py channel, Inside r px py channel → InRect x y width height px py →
        after[offset r px py channel]? =
          some (channelOf (clampColor red) (clampColor green) (clampColor blue) channel)) ∧
      ∀ index, (∀ px py channel, Inside r px py channel → InRect x y width height px py →
        index ≠ offset r px py channel) → after[index]? = pixels[index]? := by
  obtain ⟨after, hafter, hpainted⟩ := fillRect_painted x y width height red green blue pixels
  refine ⟨after, hafter,
    fun px py channel hinside hrect => (hpainted px py channel hinside).1 hrect,
    fun index hindex => ?_⟩
  by_cases hbytes : index < bytes r
  · obtain ⟨px, py, channel, hinside, rfl⟩ := exists_offset hbytes
    exact (hpainted px py channel hinside).2 fun hrect => hindex px py channel hinside hrect rfl
  · rw [Vector.getElem?_eq_none (by omega), Vector.getElem?_eq_none (by omega)]

end Framebuffer

end Speck
