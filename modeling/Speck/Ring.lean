import Mathlib.Data.Nat.Basic
import Mathlib.Logic.Function.Basic
import Mathlib.Tactic.Common

/-!
# Rings

A queue in a ring of slots, with one sender and one receiver. The sender owns the write index and
the slot it points to, the receiver owns the read index. One slot stays free, so that equal
indices mean an empty ring. `Ring` relates the cells and the indices to the list of all that was
sent and to the number of elements that were taken.
-/

namespace Speck

variable {α : Type} {slots : ℕ} {cells : ℕ → α} {read write taken : ℕ} {sent : List α}

/-- The elements of `sent` from `taken` on are in the ring, each in the slot of its number. -/
structure Ring (slots : ℕ) (cells : ℕ → α) (read write taken : ℕ) (sent : List α) : Prop where
  read_eq : read = taken % slots
  write_eq : write = sent.length % slots
  taken_le : taken ≤ sent.length
  room : sent.length < taken + slots
  held : ∀ i element, taken ≤ i → sent[i]? = some element → cells (i % slots) = element

/-- Numbers less than a turn apart have the same slot only if they are equal. -/
theorem eq_of_mod_eq {a b : ℕ} (hle : a ≤ b) (hlt : b < a + slots) (h : a % slots = b % slots) :
    a = b := by
  have hzero : (b - a) % slots = 0 := Nat.sub_mod_eq_zero_of_mod_eq h.symm
  rw [Nat.mod_eq_of_lt (by omega)] at hzero
  omega

namespace Ring

theorem start (cells : ℕ → α) (h : 0 < slots) : Ring slots cells 0 0 0 [] where
  read_eq := (Nat.zero_mod slots).symm
  write_eq := (Nat.zero_mod slots).symm
  taken_le := le_rfl
  room := by simpa using h
  held := by simp

variable (r : Ring slots cells read write taken sent)

include r

/-- The ring is full when all slots but one are in use. -/
theorem full_iff : (write + 1) % slots = read ↔ sent.length + 1 = taken + slots := by
  have hle := r.taken_le
  have hroom := r.room
  rw [r.read_eq, r.write_eq, Nat.mod_add_mod]
  constructor
  · intro h
    by_contra hne
    have heq := eq_of_mod_eq (by omega : taken ≤ sent.length + 1) (by omega) h.symm
    omega
  · intro h
    rw [h, Nat.add_mod_right]

/-- An element that was not taken is not in the slot of the sender. -/
theorem slot_ne {i : ℕ} (hfrom : taken ≤ i) (hto : i < sent.length) : i % slots ≠ write := by
  intro h
  have hroom := r.room
  rw [r.write_eq] at h
  have heq := eq_of_mod_eq (Nat.le_of_lt hto) (by omega) h
  omega

/-- The sender fills its slot. -/
theorem put (element : α) : Ring slots (Function.update cells write element) read write taken
    sent where
  read_eq := r.read_eq
  write_eq := r.write_eq
  taken_le := r.taken_le
  room := r.room
  held := by
    intro i other hfrom hother
    obtain ⟨hto, -⟩ := List.getElem?_eq_some_iff.mp hother
    rw [Function.update_of_ne (r.slot_ne hfrom hto)]
    exact r.held i other hfrom hother

/-- The sender publishes its slot. -/
theorem publish (hroom : sent.length + 1 < taken + slots) :
    Ring slots cells read ((write + 1) % slots) taken (sent ++ [cells write]) where
  read_eq := r.read_eq
  write_eq := by rw [r.write_eq, Nat.mod_add_mod, List.length_append, List.length_singleton]
  taken_le := by
    have hle := r.taken_le
    rw [List.length_append]
    omega
  room := by simpa using hroom
  held := by
    intro i element hfrom helement
    rcases Nat.lt_or_ge i sent.length with hi | hi
    · rw [List.getElem?_append_left hi] at helement
      exact r.held i element hfrom helement
    · rw [List.getElem?_append_right hi, List.getElem?_singleton] at helement
      split at helement
      · next hzero =>
        obtain rfl : i = sent.length := by omega
        rw [← r.write_eq]
        exact Option.some.inj helement
      · cases helement

/-- The receiver frees a slot. -/
theorem pop (h : taken < sent.length) :
    Ring slots cells ((read + 1) % slots) write (taken + 1) sent where
  read_eq := by rw [r.read_eq, Nat.mod_add_mod]
  write_eq := r.write_eq
  taken_le := h
  room := by
    have hroom := r.room
    omega
  held := fun i element hfrom => r.held i element (by omega)

/-- The slot of the receiver holds the next element. -/
theorem front (h : taken < sent.length) : sent[taken]? = some (cells read) := by
  rw [List.getElem?_eq_getElem h, r.read_eq,
    r.held taken sent[taken] le_rfl (List.getElem?_eq_getElem h)]

end Ring

end Speck
