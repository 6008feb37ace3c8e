import Mathlib.Tactic.Common
import Mathlib.Order.MinMax

/-!
# Checked integers

The arithmetic of a language where the overflow of a signed integer has no meaning : an operation
gives the exact integer, or nothing where it does not fit. A computation that ends with a value has
overflowed nowhere. `countUp` is the loop that counts with such an integer.
-/

namespace Speck

/-! ## Widths -/

/-- A value of a signed integer of 32 bits. -/
def int32 (n : ℤ) : Option ℤ := if -2147483648 ≤ n ∧ n ≤ 2147483647 then some n else none

/-- A value of a signed integer of 64 bits. -/
def int64 (n : ℤ) : Option ℤ :=
  if -9223372036854775808 ≤ n ∧ n ≤ 9223372036854775807 then some n else none

theorem int32_eq {n : ℤ} (hlow : -2147483648 ≤ n) (hhigh : n ≤ 2147483647) : int32 n = some n :=
  if_pos ⟨hlow, hhigh⟩

theorem int32_natCast {n : ℕ} (h : n ≤ 2147483647) : int32 n = some (n : ℤ) :=
  int32_eq (by omega) (by omega)

theorem int64_eq {n : ℤ} (hlow : -9223372036854775808 ≤ n) (hhigh : n ≤ 9223372036854775807) :
    int64 n = some n :=
  if_pos ⟨hlow, hhigh⟩

/-! ## Loops -/

section Loops

variable {σ : Type}

/-- The rest of a loop, where `left` turns are left. -/
def countFrom (body : ℤ → σ → Option σ) : ℕ → ℤ → σ → Option σ
  | 0, _, s => some s
  | left + 1, i, s => do
    let s ← body i s
    let next ← int32 (i + 1)
    countFrom body left next s

/-- `for (i = low; i < high; ++i)`. -/
def countUp (body : ℤ → σ → Option σ) (low high : ℤ) (s : σ) : Option σ :=
  countFrom body (high - low).toNat low s

variable {body : ℤ → σ → Option σ} (inv : ℤ → σ → Prop)

theorem countFrom_ends {high : ℤ} (hhigh : high ≤ 2147483647)
    (hbody : ∀ i s, i < high → inv i s → ∃ s', body i s = some s' ∧ inv (i + 1) s') {left : ℕ}
    {i : ℤ} (hleft : i + left = high) (hi : -2147483648 ≤ i) {s : σ} (hs : inv i s) :
    ∃ s', countFrom body left i s = some s' ∧ inv high s' := by
  induction left generalizing i s with
  | zero =>
    obtain rfl : i = high := by omega
    exact ⟨s, rfl, hs⟩
  | succ left ih =>
    obtain ⟨s', hs', hinv⟩ := hbody i s (by omega) hs
    have hnext : int32 (i + 1) = some (i + 1) := int32_eq (by omega) (by omega)
    obtain ⟨s'', hs'', hend⟩ := @ih (i + 1) (by omega) (by omega) s' hinv
    refine ⟨s'', ?_, hend⟩
    rw [countFrom, hs', Option.bind_eq_bind, Option.bind_some, hnext]
    exact hs''

/-- The rule of the loop : what holds before it and is kept by every turn holds after it. -/
theorem countUp_ends {low high : ℤ} (hle : low ≤ high) (hlow : -2147483648 ≤ low)
    (hhigh : high ≤ 2147483647) {s : σ} (hs : inv low s)
    (hbody : ∀ i s, low ≤ i → i < high → inv i s → ∃ s', body i s = some s' ∧ inv (i + 1) s') :
    ∃ s', countUp body low high s = some s' ∧ inv high s' := by
  have hturn : ∀ i s, i < high → low ≤ i ∧ inv i s →
      ∃ s', body i s = some s' ∧ low ≤ i + 1 ∧ inv (i + 1) s' := by
    rintro i s hi ⟨hlow, hinv⟩
    obtain ⟨s', hs', hinv'⟩ := hbody i s hlow hi hinv
    exact ⟨s', hs', by omega, hinv'⟩
  have hleft : low + ((high - low).toNat : ℤ) = high := by omega
  obtain ⟨s', hs', -, hinv⟩ := countFrom_ends (fun i s => low ≤ i ∧ inv i s) hhigh hturn hleft hlow
    ⟨le_refl low, hs⟩
  exact ⟨s', hs', hinv⟩

end Loops

end Speck
