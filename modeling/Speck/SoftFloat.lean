import Speck.F32

/-!
# Single-precision arithmetic

A set of rounding operations that can be run : the exact result is a fraction, rounded to
the nearest single-precision value, ties to even.
-/

namespace Speck

namespace SoftFloat

/-- `m * 2 ^ (e - 149)`, where the last place of `m` is the last place of the result. The
exponent is added to the significand, so that one that rounds up to `2 ^ 24` carries into it. -/
def pack (sign : Bool) (e m : ℕ) : F32 :=
  ⟨BitVec.ofNat 32 ((if sign then 2 ^ 31 else 0) + min (e * 2 ^ 23 + m) (255 * 2 ^ 23))⟩

/-- The integer nearest to the fraction, ties to even. -/
def nearest (num den : ℕ) : ℕ :=
  let q := num / den
  let r := num % den
  if 2 * r < den ∨ (2 * r = den ∧ q % 2 = 0) then q else q + 1

/-- The value nearest to the fraction `num * 2 ^ -149 / den`. -/
def round (sign : Bool) (num den : ℕ) : F32 :=
  let e := Nat.log2 (num / den) - 23
  pack sign e (nearest num (den * 2 ^ e))

def isZero (x : F32) : Bool := x.bits.toNat % 2 ^ 31 = 0

def infinity (sign : Bool) : F32 := pack sign 255 0

def nan : F32 := ⟨0x7FC00000#32⟩

/-- The magnitude of a finite value, in units of `2 ^ -149`. -/
def magnitude (x : F32) : ℕ :=
  if x.exponent = 0 then x.fraction else (2 ^ 23 + x.fraction) * 2 ^ (x.exponent - 1)

/-- A finite value in units of `2 ^ -149`. -/
def units (x : F32) : ℤ := if x.bits.msb then -(magnitude x : ℤ) else magnitude x

def roundInt (zeroSign : Bool) (n : ℤ) : F32 :=
  if n = 0 then pack zeroSign 0 0 else round (n < 0) n.natAbs 1

def add (x y : F32) : F32 :=
  if x.isNaN || y.isNaN then nan
  else if !x.isFinite then
    if !y.isFinite && x.bits.msb != y.bits.msb then nan else x
  else if !y.isFinite then y
  else roundInt (x.bits.msb && y.bits.msb) (units x + units y)

def sub (x y : F32) : F32 := add x y.neg

def mul (x y : F32) : F32 :=
  let sign := x.bits.msb != y.bits.msb
  if x.isNaN || y.isNaN then nan
  else if !x.isFinite || !y.isFinite then
    if isZero x || isZero y then nan else infinity sign
  else round sign (magnitude x * magnitude y) (2 ^ 149)

def div (x y : F32) : F32 :=
  let sign := x.bits.msb != y.bits.msb
  if x.isNaN || y.isNaN then nan
  else if !x.isFinite then if y.isFinite then infinity sign else nan
  else if !y.isFinite then pack sign 0 0
  else if isZero y then if isZero x then nan else infinity sign
  else round sign (magnitude x * 2 ^ 149) (magnitude y)

def ofI32 (n : I32) : F32 := roundInt false (n.toInt * 2 ^ 149)

def truncToI32 (x : F32) : I32 := BitVec.ofInt 32 ((units x).tdiv (2 ^ 149))

/-! ## Integers are finite -/

theorem isFinite_pack {sign : Bool} {e m : ℕ} (h : e * 2 ^ 23 + m < 255 * 2 ^ 23) :
    (pack sign e m).isFinite := by
  simp only [pack, F32.isFinite, F32.exponent, BitVec.toNat_ofNat, ne_eq, decide_eq_true_eq]
  rw [min_eq_left h.le]
  cases sign
  · simp only [Bool.false_eq_true, if_false]
    omega
  · simp only [if_true]
    omega

theorem nearest_le (num den : ℕ) : nearest num den ≤ num / den + 1 := by
  unfold nearest
  simp only
  split <;> omega

theorem isFinite_round {sign : Bool} {num k : ℕ} (hk : Nat.log2 num = k + 23) (hle : k ≤ 200) :
    (round sign num 1).isFinite := by
  rw [round, Nat.div_one, hk, Nat.add_sub_cancel, one_mul]
  refine isFinite_pack ?_
  have hlt : num / 2 ^ k < 2 ^ 24 := by
    refine Nat.div_lt_of_lt_mul ?_
    rw [← pow_add, show k + 24 = Nat.log2 num + 1 by omega]
    exact Nat.lt_log2_self
  have := nearest_le num (2 ^ k)
  omega

theorem log2_mul_two_pow {n : ℕ} (hn : n ≠ 0) (k : ℕ) :
    Nat.log2 (n * 2 ^ k) = Nat.log2 n + k := by
  rw [Nat.log2_eq_iff (by positivity), pow_add, add_right_comm, pow_add]
  exact ⟨Nat.mul_le_mul_right _ (Nat.log2_self_le hn),
    Nat.mul_lt_mul_of_pos_right Nat.lt_log2_self (by positivity)⟩

theorem isFinite_ofI32 (n : I32) : (ofI32 n).isFinite := by
  unfold ofI32 roundInt
  split
  · exact isFinite_pack (by decide)
  · next hne =>
    have hn : n.toInt.natAbs ≠ 0 := fun h => hne (by rw [Int.natAbs_eq_zero.mp h, zero_mul])
    have hlt : n.toInt.natAbs < 2 ^ 32 := by
      have := BitVec.toInt_lt (x := n)
      have := BitVec.le_toInt n
      omega
    rw [Int.natAbs_mul, show (2 ^ 149 : ℤ).natAbs = 2 ^ 149 by rfl]
    have hlog : Nat.log2 n.toInt.natAbs < 32 := (Nat.log2_lt hn).mpr hlt
    have hmul := log2_mul_two_pow hn 149
    clear hne hlt
    generalize Nat.log2 n.toInt.natAbs = log at hlog hmul
    exact isFinite_round (hmul.trans (by omega : log + 149 = log + 126 + 23)) (by omega)

end SoftFloat

/-- The rounding operations by exact arithmetic. -/
@[reducible] def softFloat : F32Primitives where
  add := SoftFloat.add
  sub := SoftFloat.sub
  mul := SoftFloat.mul
  div := SoftFloat.div
  ofI32 := SoftFloat.ofI32
  truncToI32 := SoftFloat.truncToI32
  isFinite_ofI32 := SoftFloat.isFinite_ofI32

example : SoftFloat.ofI32 16777217#32 = ⟨0x4B800000#32⟩ := by decide +kernel
example : SoftFloat.mul ⟨0x3DCCCCCD#32⟩ ⟨0x3DCCCCCD#32⟩ = ⟨0x3C23D70B#32⟩ := by decide +kernel

end Speck
