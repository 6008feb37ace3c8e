import Mathlib.Algebra.GroupWithZero.Nat
import Mathlib.Data.List.Nodup

/-!
# Worklists over a finite set

A worklist that visits every vertex of a finite set at most once ends because the weight of
the vertices not yet seen falls with each new one.
-/

namespace Speck

variable {α : Type} [DecidableEq α]

/-- The total weight of the members not in `seen`. -/
def unseenWeight (members : List α) (weight : α → ℕ) (seen : List α) : ℕ :=
  ((members.filter fun a => !decide (a ∈ seen)).map weight).sum

/-- Seeing a new member takes its weight off. -/
theorem unseenWeight_cons {members : List α} (hnodup : members.Nodup) (weight : α → ℕ)
    {seen : List α} {a : α} (hseen : a ∉ seen) (ha : a ∈ members) :
    unseenWeight members weight (a :: seen) + weight a = unseenWeight members weight seen := by
  induction members with
  | nil => simp at ha
  | cons b rest ih =>
    obtain ⟨hb, hnodup⟩ := List.nodup_cons.mp hnodup
    simp only [unseenWeight, List.filter_cons] at ih ⊢
    by_cases hab : a = b
    · subst hab
      have hrest : (rest.filter fun c => !decide (c ∈ a :: seen)) =
          rest.filter fun c => !decide (c ∈ seen) := by
        refine List.filter_congr fun c hc => ?_
        have : c ≠ a := fun h => hb (h ▸ hc)
        simp [this]
      simp only [hrest, List.mem_cons_self, decide_true, Bool.not_true, hseen, decide_false,
        Bool.not_false, if_true, List.map_cons, List.sum_cons]
      exact Nat.add_comm _ _
    · have ha : a ∈ rest := (List.mem_cons.mp ha).resolve_left hab
      have := ih hnodup ha
      by_cases hs : b ∈ seen
      · simpa [hs] using this
      · simp only [List.mem_cons, Ne.symm hab, hs, or_self, decide_false, Bool.not_false, if_true,
          List.map_cons, List.sum_cons]
        simp only [List.mem_cons] at this
        omega

end Speck
