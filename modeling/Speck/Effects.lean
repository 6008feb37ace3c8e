import Mathlib.Tactic.Common

/-!
# Effectful computations

A logic for computations that have a state and may stop early, `ExceptT ε (StateM σ)`. `Leads`
says what holds of the outcome of a computation and of the state that it leaves; its rules
follow the way a computation is composed.
-/

namespace Speck

variable {ε σ α β : Type}

theorem run_bind_eq (m : ExceptT ε (StateM σ) α) (k : α → ExceptT ε (StateM σ) β) (s : σ) :
    (m >>= k).run.run s =
      match m.run.run s with
      | (.ok a, s') => (k a).run.run s'
      | (.error stop, s') => (.error stop, s') := by
  rw [ExceptT.run_bind, StateT.run_bind]
  rcases m.run.run s with ⟨_ | a, s'⟩ <;> rfl

/-- `post` holds of the outcome and of the state after it. -/
def Leads (m : ExceptT ε (StateM σ) α) (s : σ) (post : Except ε α → σ → Prop) : Prop :=
  post (m.run.run s).1 (m.run.run s).2

variable {s : σ} {post : Except ε β → σ → Prop}

/-- A stop of the first computation is a stop of both. -/
theorem leads_bind {m : ExceptT ε (StateM σ) α} {k : α → ExceptT ε (StateM σ) β}
    {mid : Except ε α → σ → Prop} (h : Leads m s mid)
    (hok : ∀ a s', mid (.ok a) s' → Leads (k a) s' post)
    (hstop : ∀ stop s', mid (.error stop) s' → post (.error stop) s') :
    Leads (m >>= k) s post := by
  unfold Leads at h ⊢
  rw [run_bind_eq]
  rcases hm : m.run.run s with ⟨stop | a, s'⟩
  · rw [hm] at h
    exact hstop stop s' h
  · rw [hm] at h
    exact hok a s' h

theorem Leads.mono {m : ExceptT ε (StateM σ) β} {post' : Except ε β → σ → Prop}
    (h : Leads m s post) (hpost : ∀ r s', post r s' → post' r s') : Leads m s post' :=
  hpost _ _ h

end Speck
