import Mathlib.Data.List.Chain
import Mathlib.Logic.Relation

/-!
# Demand-driven definitions

A computation that may need the values of named definitions is a `Demand` : it is done,
it fails by itself, or it asks for one name and continues with the answer. `Demand.run`
answers the questions from a lookup and stops at the first one the lookup refuses; what
is left of the computation is then the question and its continuation.

A `sys` gives every defined name its computation. The lazy meaning of the system is
`Computes` : a name has the value its computation yields when every question is answered
with the lazy value of the name asked for. `Demands` is the reference graph of the lazy
evaluation, and only that : a name demands the names its computation really asks for. A
name with a value demands only names with values, along well-founded chains
(`Computes.acc`), so a cycle of demands has no value (`not_computes_of_cycle`). A name
without a value is demanded through a chain from a failing, undefined or cyclic one.
-/

namespace Speck

/-- A computation of an `A` that asks for `V`s by name, at a site `S`, or fails with an
`E`. -/
inductive Demand (N S V E A : Type) : Type where
  | done (a : A)
  | fail (e : E)
  | ask (n : N) (s : S) (k : V → Demand N S V E A)

namespace Demand

variable {N S V E E' A B C : Type}

def bind : Demand N S V E A → (A → Demand N S V E B) → Demand N S V E B
  | done a, f => f a
  | fail e, _ => fail e
  | ask n s k, f => ask n s fun v => (k v).bind f

instance : Monad (Demand N S V E) where
  pure := done
  bind := bind

@[simp] theorem pure_eq (a : A) : (pure a : Demand N S V E A) = done a := rfl

@[simp] theorem done_bind (a : A) (f : A → Demand N S V E B) : (done a >>= f) = f a := rfl

@[simp] theorem fail_bind (e : E) (f : A → Demand N S V E B) : (fail e >>= f) = fail e := rfl

@[simp] theorem ask_bind (n : N) (s : S) (k : V → Demand N S V E A) (f : A → Demand N S V E B) :
    (ask n s k >>= f) = ask n s fun v => k v >>= f := rfl

theorem bind_assoc (t : Demand N S V E A) (f : A → Demand N S V E B)
    (g : B → Demand N S V E C) : (t >>= f) >>= g = t >>= fun a => f a >>= g := by
  induction t with
  | done a => rfl
  | fail e => rfl
  | ask n s k ih => simp only [ask_bind, ih]

theorem bind_done (t : Demand N S V E A) : (t >>= done) = t := by
  induction t with
  | done a => rfl
  | fail e => rfl
  | ask n s k ih => simp only [ask_bind, ih]

/-- A computed failure or value as a computation. -/
def ofExcept : Except E A → Demand N S V E A
  | .ok a => done a
  | .error e => fail e

@[simp] theorem ofExcept_ok (a : A) : (ofExcept (.ok a) : Demand N S V E A) = done a := rfl

@[simp] theorem ofExcept_error (e : E) : (ofExcept (.error e) : Demand N S V E A) = fail e := rfl

/-- Questions about the names of `refuse` fail with its error. -/
def restrict (refuse : N → S → Option E) : Demand N S V E A → Demand N S V E A
  | done a => done a
  | fail e => fail e
  | ask n s k =>
    match refuse n s with
    | some e => fail e
    | none => ask n s fun v => restrict refuse (k v)

/-! ## Running against a lookup -/

/-- Where a run ends : with a result, with the computation's own failure, or at a
question the lookup refused. -/
inductive Halt (N S V E E' A : Type) : Type where
  | done (a : A)
  | fail (e : E)
  | stop (n : N) (s : S) (k : V → Demand N S V E A) (e : E')

/-- Answer the questions from `lookup` until it refuses one. -/
def run (lookup : N → S → Except E' V) : Demand N S V E A → Halt N S V E E' A
  | done a => .done a
  | fail e => .fail e
  | ask n s k =>
    match lookup n s with
    | .ok v => run lookup (k v)
    | .error e => .stop n s k e

/-- A halted run continued with `f`. -/
def Halt.bind (lookup : N → S → Except E' V) (f : A → Demand N S V E B) :
    Halt N S V E E' A → Halt N S V E E' B
  | .done a => run lookup (f a)
  | .fail e => .fail e
  | .stop n s k e => .stop n s (fun v => k v >>= f) e

theorem run_bind (lookup : N → S → Except E' V) (t : Demand N S V E A)
    (f : A → Demand N S V E B) : run lookup (t >>= f) = (run lookup t).bind lookup f := by
  induction t with
  | done a => rfl
  | fail e => rfl
  | ask n s k ih =>
    simp only [ask_bind, run]
    cases hl : lookup n s with
    | ok v => simpa [hl] using ih v
    | error e => simp [Halt.bind]

theorem run_bind_eq_done {lookup : N → S → Except E' V} {t : Demand N S V E A}
    {f : A → Demand N S V E B} {b : B} :
    run lookup (t >>= f) = .done b ↔ ∃ a, run lookup t = .done a ∧ run lookup (f a) = .done b := by
  rw [run_bind]
  cases run lookup t <;> simp [Halt.bind]

/-! ## Postconditions -/

/-- `t` ends in a result of `P`, if it ends in one, when the answers are `good`. -/
def Ensures (good : N → V → Prop) : Demand N S V E A → (A → Prop) → Prop
  | done a, P => P a
  | fail _, _ => True
  | ask n _ k, P => ∀ v, good n v → Ensures good (k v) P

section Ensures

variable {good : N → V → Prop}

theorem Ensures.mono {t : Demand N S V E A} {P Q : A → Prop} (h : t.Ensures good P)
    (hPQ : ∀ a, P a → Q a) : t.Ensures good Q := by
  induction t with
  | done a => exact hPQ a h
  | fail e => trivial
  | ask n s k ih => exact fun v hv => ih v (h v hv)

theorem Ensures.bind {t : Demand N S V E A} {f : A → Demand N S V E B} {P : A → Prop}
    {Q : B → Prop} (h : t.Ensures good P) (hf : ∀ a, P a → (f a).Ensures good Q) :
    (t >>= f).Ensures good Q := by
  induction t with
  | done a => exact hf a h
  | fail e => trivial
  | ask n s k ih => exact fun v hv => ih v (h v hv)

theorem ensures_ofExcept {r : Except E A} {P : A → Prop} (h : ∀ a, r = .ok a → P a) :
    (ofExcept r : Demand N S V E A).Ensures good P := by
  cases r with
  | ok a => exact h a rfl
  | error e => trivial

theorem Ensures.restrict {t : Demand N S V E A} {P : A → Prop} {refuse : N → S → Option E}
    (h : t.Ensures good P) : (restrict refuse t).Ensures good P := by
  induction t with
  | done a => exact h
  | fail e => trivial
  | ask n s k ih =>
    unfold Demand.restrict
    split
    · trivial
    · exact fun v hv => ih v (h v hv)

/-- A run against good answers ends in a result of the postcondition. -/
theorem Ensures.of_run {lookup : N → S → Except E' V}
    (hgood : ∀ n s v, lookup n s = .ok v → good n v) {t : Demand N S V E A} {P : A → Prop}
    (h : t.Ensures good P) {a : A} (hrun : run lookup t = .done a) : P a := by
  induction t with
  | done a' =>
    cases hrun
    exact h
  | fail e => cases hrun
  | ask n s k ih =>
    rw [run] at hrun
    split at hrun
    · next v hv => exact ih v (h v (hgood n s v hv)) hrun
    · cases hrun

end Ensures

/-! ## The lazy meaning of a system -/

variable (sys : N → Option (Demand N S V E V))

mutual

/-- `n` has the lazy value `v`. -/
inductive Computes : N → V → Prop where
  | intro {n t v} : sys n = some t → Yields t v → Computes n v

/-- `t` yields `v` when every question gets its lazy value. -/
inductive Yields : Demand N S V E V → V → Prop where
  | done (v) : Yields (.done v) v
  | ask {n s k v w} : Computes n v → Yields (k v) w → Yields (.ask n s k) w

end

/-- Evaluating `t` lazily asks for `m`. -/
inductive Asks : Demand N S V E A → N → Prop where
  | here {n s k} : Asks (.ask n s k) n
  | later {n s k v m} : Computes sys n v → Asks (k v) m → Asks (.ask n s k) m

/-- Evaluating `t` lazily ends in its own failure `e`. -/
inductive Fails : Demand N S V E V → E → Prop where
  | fail (e) : Fails (.fail e) e
  | ask {n s k v e} : Computes sys n v → Fails (k v) e → Fails (.ask n s k) e

/-- The lazy evaluation of `n` asks for `m`. -/
def Demands (n m : N) : Prop := ∃ t, sys n = some t ∧ Asks sys t m

variable {sys}

theorem computes_iff {n : N} {v : V} :
    Computes sys n v ↔ ∃ t, sys n = some t ∧ Yields sys t v :=
  ⟨fun h => by cases h with | intro hs hy => exact ⟨_, hs, hy⟩, fun ⟨_, hs, hy⟩ => .intro hs hy⟩

theorem Computes.unique {n : N} {v w : V} (h : Computes sys n v) (h' : Computes sys n w) :
    v = w := by
  refine Computes.rec (motive_1 := fun n v _ => ∀ w, Computes sys n w → v = w)
    (motive_2 := fun t v _ => ∀ w, Yields sys t w → v = w) ?_ ?_ ?_ h w h'
  · intro n t v hs _ ih w hw
    obtain ⟨t', hs', hy⟩ := computes_iff.mp hw
    obtain rfl := Option.some.inj (hs.symm.trans hs')
    exact ih w hy
  · intro v w hy
    cases hy
    rfl
  · intro n s k v w _ _ ihn ihk w' hy
    cases hy with
    | ask hn' hk' =>
      obtain rfl := ihn _ hn'
      exact ihk _ hk'

theorem Yields.unique {t : Demand N S V E V} {v w : V} (h : Yields sys t v)
    (h' : Yields sys t w) : v = w := by
  induction t with
  | done a =>
    cases h
    cases h'
    rfl
  | fail e => cases h
  | ask n s k ih =>
    cases h with
    | ask hn hk =>
      cases h' with
      | ask hn' hk' =>
        obtain rfl := hn.unique hn'
        exact ih _ hk hk'

/-- A computation that asks a name without a value yields nothing. -/
theorem Asks.not_yields {t : Demand N S V E V} {m : N} {v : V} (h : Asks sys t m)
    (hm : ∀ w, ¬Computes sys m w) : ¬Yields sys t v := by
  intro hy
  induction h with
  | here =>
    cases hy with
    | ask hn _ => exact hm _ hn
  | later hn _ ih =>
    cases hy with
    | ask hn' hk' =>
      obtain rfl := hn.unique hn'
      exact ih hm hk'

theorem Fails.not_yields {t : Demand N S V E V} {e : E} {v : V} (h : Fails sys t e) :
    ¬Yields sys t v := by
  intro hy
  induction h with
  | fail e => cases hy
  | ask hn _ ih =>
    cases hy with
    | ask hn' hk' =>
      obtain rfl := hn.unique hn'
      exact ih hk'

/-- Postconditions of the definitions hold of the lazy values. -/
theorem Computes.ensures {good : N → V → Prop}
    (h : ∀ n t, sys n = some t → t.Ensures good (good n)) {n : N} {v : V}
    (hc : Computes sys n v) : good n v := by
  refine Computes.rec (motive_1 := fun n v _ => good n v)
    (motive_2 := fun t v _ => ∀ P : V → Prop, t.Ensures good P → P v) ?_ ?_ ?_ hc
  · exact fun hs _ ih => ih _ (h _ _ hs)
  · exact fun v P hP => hP
  · exact fun _ _ ihn ihk P hP => ihk P (hP _ ihn)

/-- Everything a name with a value demands has a value. -/
theorem Computes.of_demands {n m : N} {v : V} (h : Computes sys n v)
    (hd : Demands sys n m) : ∃ w, Computes sys m w := by
  obtain ⟨t, hs, ha⟩ := hd
  obtain ⟨t', hs', hy⟩ := computes_iff.mp h
  obtain rfl := Option.some.inj (hs.symm.trans hs')
  by_contra hm
  exact ha.not_yields (not_exists.mp hm) hy

/-- The demands below a name with a value are well-founded. -/
theorem Computes.acc {n : N} {v : V} (h : Computes sys n v) :
    Acc (fun m n => Demands sys n m) n := by
  refine Computes.rec (motive_1 := fun n _ _ => Acc (fun m n => Demands sys n m) n)
    (motive_2 := fun t _ _ => ∀ m, Asks sys t m → Acc (fun m n => Demands sys n m) m)
    ?_ ?_ ?_ h
  · intro n t v hs _ ih
    refine Acc.intro n fun m hd => ?_
    obtain ⟨t', hs', ha⟩ := hd
    obtain rfl := Option.some.inj (hs.symm.trans hs')
    exact ih m ha
  · intro v m ha
    cases ha
  · intro n s k v w hn _ ihn ihk m ha
    cases ha with
    | here => exact ihn
    | later hn' ha' =>
      obtain rfl := hn.unique hn'
      exact ihk m ha'

/-- A name on a cycle of demands has no value. -/
theorem not_computes_of_cycle {n : N} (h : Relation.TransGen (Demands sys) n n) (v : V) :
    ¬Computes sys n v := by
  intro hc
  have key : ∀ n, Acc (fun m n => Demands sys n m) n → ¬Relation.TransGen (Demands sys) n n := by
    intro n hacc
    induction hacc with
    | intro n _ ih =>
      intro hcycle
      obtain ⟨m, hnm, hmn⟩ := Relation.TransGen.head'_iff.mp hcycle
      exact ih m hnm (Relation.TransGen.tail' hmn hnm)
  exact key n hc.acc h

/-- A name that demands, through others, a name without a value has none. -/
theorem not_computes_of_reaches {n m : N} (h : Relation.ReflTransGen (Demands sys) n m)
    (hm : ∀ w, ¬Computes sys m w) (v : V) : ¬Computes sys n v := by
  induction h using Relation.ReflTransGen.head_induction_on generalizing v with
  | refl => exact hm v
  | head hd _ ih =>
    intro hc
    obtain ⟨w, hw⟩ := hc.of_demands hd
    exact ih w hw

/-! ## Running with lazy values -/

/-- A lookup that answers only lazy values. -/
def SoundLookup (sys : N → Option (Demand N S V E V)) (lookup : N → S → Except E' V) : Prop :=
  ∀ n s v, lookup n s = .ok v → Computes sys n v

/-- `t'` is what is left of `t` after some questions were answered from `lookup`. -/
inductive Answered (lookup : N → S → Except E' V) :
    Demand N S V E A → Demand N S V E A → Prop where
  | refl (t) : Answered lookup t t
  | ask {n s k v t'} : lookup n s = .ok v → Answered lookup (k v) t' →
      Answered lookup (.ask n s k) t'

namespace Answered

variable {lookup lookup' : N → S → Except E' V}

theorem trans {t t' t'' : Demand N S V E A} (h : Answered lookup t t')
    (h' : Answered lookup t' t'') : Answered lookup t t'' := by
  induction h with
  | refl => exact h'
  | ask hl _ ih => exact .ask hl (ih h')

theorem mono (hle : ∀ n s v, lookup n s = .ok v → lookup' n s = .ok v)
    {t t' : Demand N S V E A} (h : Answered lookup t t') : Answered lookup' t t' := by
  induction h with
  | refl => exact .refl _
  | ask hl _ ih => exact .ask (hle _ _ _ hl) ih

theorem yields_iff (hl : SoundLookup sys lookup) {t t' : Demand N S V E V}
    (h : Answered lookup t t') {v : V} : Yields sys t v ↔ Yields sys t' v := by
  induction h with
  | refl => rfl
  | @ask n s k w t' ha _ ih =>
    rw [← ih]
    constructor
    · intro hy
      cases hy with
      | ask hn hk =>
        obtain rfl := hn.unique (hl _ _ _ ha)
        exact hk
    · exact fun hy => .ask (hl _ _ _ ha) hy

theorem asks (hl : SoundLookup sys lookup) {t t' : Demand N S V E V}
    (h : Answered lookup t t') {m : N} (hm : Asks sys t' m) : Asks sys t m := by
  induction h with
  | refl => exact hm
  | ask ha _ ih => exact .later (hl _ _ _ ha) (ih hm)

theorem fails (hl : SoundLookup sys lookup) {t t' : Demand N S V E V}
    (h : Answered lookup t t') {e : E} (he : Fails sys t' e) : Fails sys t e := by
  induction h with
  | refl => exact he
  | ask ha _ ih => exact .ask (hl _ _ _ ha) (ih he)

/-- What the whole computation asks was answered, or is asked by what is left. -/
theorem of_asks (hl : SoundLookup sys lookup) {t t' : Demand N S V E V}
    (h : Answered lookup t t') {m : N} (hm : Asks sys t m) :
    (∃ s v, lookup m s = .ok v) ∨ Asks sys t' m := by
  induction h with
  | refl => exact .inr hm
  | ask ha _ ih =>
    cases hm with
    | here => exact .inl ⟨_, _, ha⟩
    | later hn hk =>
      obtain rfl := hn.unique (hl _ _ _ ha)
      exact ih hk

end Answered

/-- What is left where a run halts. -/
theorem run_answered (lookup : N → S → Except E' V) (t : Demand N S V E A) :
    match run lookup t with
    | .done a => Answered lookup t (done a)
    | .fail e => Answered lookup t (fail e)
    | .stop n s k e => Answered lookup t (ask n s k) ∧ lookup n s = .error e := by
  induction t with
  | done a => exact .refl _
  | fail e => exact .refl _
  | ask n s k ih =>
    simp only [run]
    cases ha : lookup n s with
    | error e => exact ⟨.refl _, ha⟩
    | ok v =>
      have hv := ih v
      simp only
      cases hr : run lookup (k v) with
      | done a =>
        rw [hr] at hv
        exact Answered.ask ha hv
      | fail e =>
        rw [hr] at hv
        exact Answered.ask ha hv
      | stop m s' k' e =>
        rw [hr] at hv
        exact ⟨Answered.ask ha hv.1, hv.2⟩

/-- A lookup that answers more goes on where another one halted. -/
theorem Answered.run_eq {lookup lookup' : N → S → Except E' V}
    (hle : ∀ n s v, lookup n s = .ok v → lookup' n s = .ok v) {t t' : Demand N S V E A}
    (h : Answered lookup t t') : run lookup' t = run lookup' t' := by
  induction h with
  | refl => rfl
  | ask hl _ ih =>
    rw [run, hle _ _ _ hl]
    exact ih

/-- Lazy answers lead to the lazy result. -/
theorem yields_of_run {lookup : N → S → Except E' V} (hl : SoundLookup sys lookup)
    {t : Demand N S V E V} {v : V} (h : run lookup t = .done v) : Yields sys t v := by
  have hans := run_answered lookup t
  rw [h] at hans
  exact (hans.yields_iff hl).mpr (.done v)

theorem Asks.bind_left {t : Demand N S V E A} {f : A → Demand N S V E B} {m : N}
    (h : Asks sys t m) : Asks sys (t >>= f) m := by
  induction h with
  | here => exact .here
  | later hn _ ih => exact .later hn ih

theorem Asks.bind_right {lookup : N → S → Except E' V} (hl : SoundLookup sys lookup)
    {t : Demand N S V E A} {f : A → Demand N S V E B} {a : A} {m : N}
    (hrun : run lookup t = .done a) (h : Asks sys (f a) m) : Asks sys (t >>= f) m := by
  induction t with
  | done a' =>
    cases hrun
    exact h
  | fail e => cases hrun
  | ask n s k ih =>
    rw [run] at hrun
    split at hrun
    · next v hv => exact .later (hl n s v hv) (ih v hrun)
    · cases hrun

/-- A lookup that knows everything asked for leads to the lazy result. -/
theorem run_of_yields {lookup : N → S → Except E' V} (hl : SoundLookup sys lookup)
    {t : Demand N S V E V} {v : V} (hknown : ∀ n s, Asks sys t n → ∃ w, lookup n s = .ok w)
    (h : Yields sys t v) : run lookup t = .done v := by
  induction t with
  | done a =>
    cases h
    rfl
  | fail e => cases h
  | ask n s k ih =>
    cases h with
    | ask hn hk =>
      obtain ⟨w, hw⟩ := hknown n s .here
      obtain rfl := hn.unique (hl n s w hw)
      rw [run, hw]
      exact ih _ (fun m s hm => hknown m s (.later hn hm)) hk

/-- A computation yields the same in another system that gives the names it asks for the same
values, and refuses none of them. -/
theorem yields_bind_of_run {sys' : N → Option (Demand N S V E V)} {lookup : N → S → Except E' V}
    {refuse : N → S → Option E} (hl : SoundLookup sys lookup) {t : Demand N S V E A} {a : A}
    {f : A → Demand N S V E V} {v : V} (hrun : run lookup t = .done a) (hf : Yields sys' (f a) v)
    (hasked : ∀ n w, Asks sys t n → Computes sys n w →
      (∀ s, refuse n s = none) ∧ Computes sys' n w) :
    Yields sys' (restrict refuse t >>= f) v := by
  induction t with
  | done a' =>
    cases hrun
    exact hf
  | fail e => cases hrun
  | ask n s k ih =>
    rw [run] at hrun
    split at hrun
    · next w hw =>
      have hn := hl n s w hw
      obtain ⟨hrefuse, hn'⟩ := hasked n w .here hn
      simp only [restrict, hrefuse s, ask_bind]
      exact .ask hn' (ih w hrun fun m u hm => hasked m u (.later hn hm))
    · cases hrun

end Demand

end Speck
