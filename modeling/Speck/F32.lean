import Mathlib.Tactic.IntervalCases

/-!
# Single-precision values

An `f32` is its 32 bits. Everything the compiler decides about a value it decides on
the bits : whether it is finite, whether it is a NaN, how two values compare, and the
sign flip of unary minus. The rounding operations are the primitives of
`F32Primitives`, one set shared by the constant folder (Rust) and the generated code
(LLVM), of which only one fact is used : converting an `i32` never overflows.
-/

namespace Speck

/-- An IEEE 754 single-precision value. -/
structure F32 where
  bits : BitVec 32
  deriving DecidableEq, Repr

/-- A signed 32-bit integer. -/
abbrev I32 := BitVec 32

namespace F32

def exponent (x : F32) : ℕ := x.bits.toNat / 2 ^ 23 % 2 ^ 8

def fraction (x : F32) : ℕ := x.bits.toNat % 2 ^ 23

def isNaN (x : F32) : Bool := x.exponent = 255 && x.fraction ≠ 0

def isFinite (x : F32) : Bool := x.exponent ≠ 255

/-- Sign and magnitude read as an integer : it orders every value that is not a NaN,
and gives both zeros the same key. -/
def orderKey (x : F32) : ℤ :=
  if x.bits.msb then -((x.bits.toNat % 2 ^ 31 : ℕ) : ℤ) else (x.bits.toNat % 2 ^ 31 : ℕ)

/-- Neither operand is a NaN. -/
def ordered (x y : F32) : Bool := !x.isNaN && !y.isNaN

/-- Rust's `==`, LLVM's `fcmp oeq`. -/
def eq (x y : F32) : Bool := ordered x y && decide (x.orderKey = y.orderKey)

/-- Rust's `<`, LLVM's `fcmp olt`. -/
def lt (x y : F32) : Bool := ordered x y && decide (x.orderKey < y.orderKey)

/-- Rust's `<=`, LLVM's `fcmp ole`. -/
def le (x y : F32) : Bool := ordered x y && decide (x.orderKey ≤ y.orderKey)

/-- LLVM's `fcmp one` : ordered and unequal. Rust's `!=` is `!eq`, true on NaNs. -/
def one (x y : F32) : Bool := ordered x y && decide (x.orderKey ≠ y.orderKey)

/-- Unary minus flips the sign bit. -/
def neg (x : F32) : F32 := ⟨x.bits ^^^ 0x80000000#32⟩

/-- `0.0`. -/
def zero : F32 := ⟨0#32⟩

/-- `2147483648.0`. -/
def twoPow31 : F32 := ⟨0x4F000000#32⟩

/-- `-2147483648.0`. -/
def negTwoPow31 : F32 := ⟨0xCF000000#32⟩

theorem not_isNaN_of_isFinite {x : F32} (h : x.isFinite) : x.isNaN = false := by
  simp_all [isFinite, isNaN]

/-- On finite values Rust's `!=` and LLVM's ordered `one` agree. -/
theorem one_eq_not_eq {x y : F32} (hx : x.isFinite) (hy : y.isFinite) : one x y = !eq x y := by
  simp [one, eq, ordered, not_isNaN_of_isFinite hx, not_isNaN_of_isFinite hy]

/-- Flipping the sign bit keeps the exponent. -/
theorem isFinite_neg (x : F32) : x.neg.isFinite = x.isFinite := by
  have hand : (x.bits.toNat ^^^ 0x80000000) / 2 ^ 23 % 2 ^ 8 = x.bits.toNat / 2 ^ 23 % 2 ^ 8 := by
    apply Nat.eq_of_testBit_eq
    intro i
    simp only [Nat.testBit_mod_two_pow, Nat.testBit_div_two_pow, Nat.testBit_xor]
    by_cases hi : i < 8
    · have hbit : Nat.testBit 0x80000000 (i + 23) = false := by
        interval_cases i <;> decide
      simp [hi, hbit]
    · simp [hi]
  have hexp : x.neg.exponent = x.exponent := by
    rw [exponent, neg, BitVec.toNat_xor]
    exact hand
  rw [isFinite, hexp, isFinite]

end F32

/-- The rounding operations of single precision, as the hardware, Rust and LLVM share
them. -/
class F32Primitives where
  add : F32 → F32 → F32
  sub : F32 → F32 → F32
  mul : F32 → F32 → F32
  div : F32 → F32 → F32
  /-- `n as f32` and `sitofp`, rounding to nearest even. -/
  ofI32 : I32 → F32
  /-- Truncation toward zero of a value strictly between `-2^31` and `2^31`. -/
  truncToI32 : F32 → I32
  isFinite_ofI32 : ∀ n, (ofI32 n).isFinite

end Speck
