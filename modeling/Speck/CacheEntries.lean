import Speck.DirectEvaluation
import Speck.TypeResolution

/-!
# The entries of a cache

A cache of a phase is a fixed point : every entry is what its definition evaluates to directly,
when references stand for the entries of the same cache (`ConstantValues.Fixed`). The scheduler
keeps this invariant (`evaluate_fixed`), so a literal is evaluated the same for an array length,
for a constant and for a global, in any order of the declarations.
-/

set_option linter.unusedSectionVars false

namespace Speck

open Demand

namespace ConstantValues

/-- What the cache knows of a name. -/
def entry (cache : ConstantValues) (name : String) : Option (Except Diagnostic ConstantValue) :=
  match cache.values.lookup name with
  | some value => some (.ok value)
  | none => (cache.failures.lookup name).map .error

/-- The references of a cached definition stand for entries; no other name is asked for. -/
def environment (cache : ConstantValues) : Environment := fun name _ =>
  (cache.entry name).getD (.error unbalanced)

/-- A computation has a result by the entries of the cache. -/
def Decided (cache : ConstantValues) (t : ConstantDemand ConstantValue)
    (result : Except Diagnostic ConstantValue) : Prop :=
  match run cache.lookup t with
  | .done value => result = .ok value
  | .fail d | .stop _ _ _ (.diagnostic d) => result = .error d
  | .stop _ _ _ (.dependency _ _) => False

/-- Every entry is the result of its definition. -/
def Fixed (sys : String → Option (ConstantDemand ConstantValue)) (cache : ConstantValues) : Prop :=
  ∀ name t result, sys name = some t → cache.entry name = some result → cache.Decided t result

/-- The entries of a cache are entries of another. -/
def Grows (cache cache' : ConstantValues) : Prop :=
  ∀ name result, cache.entry name = some result → cache'.entry name = some result

/-! ## Entries -/

theorem lookup_eq_entry (cache : ConstantValues) (name : String) (span : Span) :
    cache.lookup name span =
      match cache.entry name with
      | some (.ok value) => .ok value
      | some (.error d) => .error (.diagnostic d)
      | none => .error (.dependency name span) := by
  unfold lookup entry
  cases cache.values.lookup name with
  | some value => rfl
  | none => cases cache.failures.lookup name <;> rfl

theorem entry_eq_none {cache : ConstantValues} {name : String} :
    cache.entry name = none ↔ ¬cache.Known name := by
  rw [known_iff, entry]
  cases cache.values.lookup name with
  | some value => simp
  | none => cases cache.failures.lookup name <;> simp

/-- Evaluating by the entries of a cache is evaluating in its environment. -/
theorem Decided.outcome {cache : ConstantValues} {t : ConstantDemand ConstantValue}
    {result : Except Diagnostic ConstantValue} (h : cache.Decided t result) :
    result = outcome cache.environment t := by
  induction t with
  | done value => exact h
  | fail d => exact h
  | ask name span k ih =>
    have hlookup := lookup_eq_entry cache name span
    unfold Decided at h
    rw [run] at h
    rw [Speck.outcome, environment]
    cases hentry : cache.entry name with
    | none =>
      simp only [hlookup, hentry] at h
    | some known =>
      cases known with
      | ok value =>
        simp only [hlookup, hentry] at h
        exact ih value h
      | error d =>
        simp only [hlookup, hentry] at h
        exact h

theorem Grows.refl (cache : ConstantValues) : Grows cache cache := fun _ _ => id

theorem Grows.trans {cache cache' cache'' : ConstantValues} (h : Grows cache cache')
    (h' : Grows cache' cache'') : Grows cache cache'' :=
  fun name result hentry => h' name result (h name result hentry)

theorem Decided.mono {cache cache' : ConstantValues} (hgrows : Grows cache cache')
    {t : ConstantDemand ConstantValue} {result : Except Diagnostic ConstantValue}
    (h : cache.Decided t result) : cache'.Decided t result := by
  induction t with
  | done value => exact h
  | fail d => exact h
  | ask name span k ih =>
    unfold Decided at h ⊢
    rw [run, lookup_eq_entry] at h ⊢
    cases hentry : cache.entry name with
    | none => simp only [hentry] at h
    | some known =>
      rw [hgrows name known hentry]
      cases known with
      | ok value =>
        simp only [hentry] at h
        exact ih value h
      | error d =>
        simp only [hentry] at h
        exact h

theorem entry_addValue {cache : ConstantValues} {name : String} {value : ConstantValue} :
    (cache.addValue name value).entry name = some (.ok value) := by
  simp [entry, addValue]

theorem entry_addValue_ne {cache : ConstantValues} {name other : String} {value : ConstantValue}
    (h : other ≠ name) : (cache.addValue name value).entry other = cache.entry other := by
  simp [entry, addValue, AList.lookup_insert_ne h]

theorem grows_addValue {cache : ConstantValues} {name : String} (h : ¬cache.Known name)
    (value : ConstantValue) : Grows cache (cache.addValue name value) := by
  intro other result hentry
  have hne : other ≠ name := by
    rintro rfl
    rw [entry_eq_none.mpr h] at hentry
    cases hentry
  rw [entry_addValue_ne hne, hentry]

theorem entry_failAll_of_notMem {cache : ConstantValues} {names : List String} {d : Diagnostic}
    {name : String} (h : name ∉ names) : (cache.failAll names d).entry name = cache.entry name := by
  unfold entry
  rw [lookup_failAll_of_notMem h]
  rfl

theorem entry_failAll {cache : ConstantValues} {names : List String} {d : Diagnostic}
    {name : String} (hnodup : names.Nodup) (hmem : name ∈ names) (hnew : ¬cache.Known name) :
    (cache.failAll names d).entry name = some (.error d) := by
  have hnone : (cache.failAll names d).values.lookup name = none :=
    AList.lookup_eq_none.mpr fun hv => hnew (.inl hv)
  rw [entry, hnone, lookup_failAll_of_mem hnodup hmem]
  rfl

theorem grows_failAll {cache : ConstantValues} {names : List String}
    (hnew : ∀ name ∈ names, ¬cache.Known name) (d : Diagnostic) :
    Grows cache (cache.failAll names d) := by
  intro name result hentry
  have hnot : name ∉ names := by
    intro hmem
    rw [entry_eq_none.mpr (hnew name hmem)] at hentry
    cases hentry
  rw [entry_failAll_of_notMem hnot, hentry]

/-! ## The scheduler -/

section Scheduler

variable {State : Type} {ev : Evaluator State} {base : HashMap ConstantValue}
  {sys : String → Option (ConstantDemand ConstantValue)}
  {left : String → ConstantDefinition → State → ConstantDemand ConstantValue}

/-- What was answered from a cache has its result by the cache. -/
theorem decided_of_answered {cache : ConstantValues} {t t' : ConstantDemand ConstantValue}
    (h : Answered cache.lookup t t') {result : Except Diagnostic ConstantValue} :
    cache.Decided t result ↔ cache.Decided t' result := by
  unfold Decided
  rw [h.run_eq fun _ _ _ => id]

theorem fixed_new (R : ev.Refines base sys left) : Fixed sys ⟨base, ∅⟩ := by
  intro name t result hsys hentry
  cases hvalue : base.lookup name with
  | none => simp [entry, hvalue] at hentry
  | some value =>
    obtain rfl := Option.some.inj ((R.predefined hvalue).symm.trans hsys)
    have heq : some (.ok value) = some result := by simpa [entry, hvalue] using hentry
    exact (Option.some.inj heq).symm

theorem Fixed.addValue {cache : ConstantValues} (h : Fixed sys cache) {name : String}
    (hnew : ¬cache.Known name) {value : ConstantValue}
    (hvalue : ∀ t, sys name = some t → cache.Decided t (.ok value)) :
    Fixed sys (cache.addValue name value) := by
  have hgrows := grows_addValue hnew value
  intro other t result hsys hentry
  by_cases hother : other = name
  · subst hother
    obtain rfl := Option.some.inj (entry_addValue.symm.trans hentry)
    exact (hvalue t hsys).mono hgrows
  · rw [entry_addValue_ne hother] at hentry
    exact (h other t result hsys hentry).mono hgrows

theorem Fixed.failAll {cache : ConstantValues} (h : Fixed sys cache) {names : List String}
    (hnodup : names.Nodup) (hnew : ∀ name ∈ names, ¬cache.Known name) {d : Diagnostic}
    (hfail : ∀ name ∈ names, ∀ t, sys name = some t →
      (cache.failAll names d).Decided t (.error d)) : Fixed sys (cache.failAll names d) := by
  intro name t result hsys hentry
  by_cases hmem : name ∈ names
  · rw [entry_failAll hnodup hmem (hnew name hmem)] at hentry
    obtain rfl := Option.some.inj hentry
    exact hfail name hmem t hsys
  · rw [entry_failAll_of_notMem hmem] at hentry
    exact (h name t result hsys hentry).mono (grows_failAll hnew d)

/-- The computation of a started definition that waits for a failure fails with it. -/
theorem decided_of_waits (R : ev.Refines base sys left) {cache cache' : ConstantValues}
    (hs : Sound ev base sys cache) (hgrows : Grows cache cache') {p : Pending State}
    (hfresh : ¬cache.Known p.name) (hstarted : Started ev left cache p) {m : String}
    (hw : Waits ev left p m) {d : Diagnostic} (hm : cache'.entry m = some (.error d))
    {t : ConstantDemand ConstantValue} (ht : sys p.name = some t) :
    cache'.Decided t (.error d) := by
  obtain ⟨definition, span, k, hdef, hleft⟩ := hw
  obtain rfl := Option.some.inj ((R.initial (hs.lookup_base hfresh) hdef).symm.trans ht)
  have hanswered : Answered cache'.lookup
      (left p.name definition (ev.initialState definition)) (ask m span k) := by
    rw [← hleft]
    refine (hstarted definition hdef).mono fun n s v hl => ?_
    rw [lookup_eq_entry] at hl ⊢
    cases hentry : cache.entry n with
    | none => simp [hentry] at hl
    | some known =>
      rw [hgrows n known hentry]
      simpa only [hentry] using hl
  rw [decided_of_answered hanswered, Decided, run, lookup_eq_entry, hm]

/-- The result of resuming the top is the one of its computation. -/
theorem decided_resumeTop (R : ev.Refines base sys left) {cache : ConstantValues}
    (hs : Sound ev base sys cache) {current : Pending State} (hfresh : ¬cache.Known current.name)
    (hstarted : Started ev left cache current) {t : ConstantDemand ConstantValue}
    (ht : sys current.name = some t) :
    match (resumeTop ev cache current).2 with
    | .ok value => cache.Decided t (.ok value)
    | .error (.diagnostic d) => cache.Decided t (.error d)
    | .error (.dependency _ _) => True := by
  have hbase := hs.lookup_base hfresh
  unfold resumeTop
  cases hdef : ev.definitions.lookup current.name with
  | none =>
    rw [R.undefined hbase hdef] at ht
    cases ht
  | some definition =>
    obtain rfl := Option.some.inj ((R.initial hbase hdef).symm.trans ht)
    have hrun := (hstarted definition hdef).run_eq fun _ _ _ => id
    have hresume := R.resumes current.name definition
      (current.state.getD (ev.initialState definition)) cache
    simp only [Decided, hrun]
    revert hresume
    cases run cache.lookup (left current.name definition
        (current.state.getD (ev.initialState definition))) with
    | done value =>
      intro hresume
      simp only at hresume
      simp only [hresume]
    | fail d =>
      intro hresume
      simp only at hresume
      simp only [hresume]
    | stop m s k error =>
      rintro ⟨hresume, -⟩
      simp only [hresume]
      cases error with
      | diagnostic d => rfl
      | dependency name span => trivial

theorem Stack.fresh_order {root : String} {cache : ConstantValues} {pending : List (Pending State)}
    {active : HashMap ℕ} (h : Stack ev left root cache pending active) :
    ∀ name ∈ order pending, ¬cache.Known name := by
  intro name hname
  obtain ⟨p, hp, rfl⟩ : ∃ p ∈ pending, p.name = name := by simpa [order] using hname
  exact h.fresh p hp

/-- The declarations on the stack fail with what the top fails with, or with the failure that it
waits for on the stack. -/
theorem Stack.fixed_failAll (R : ev.Refines base sys left) {root : String} {cache : ConstantValues}
    {current : Pending State} {below : List (Pending State)} {active : HashMap ℕ}
    (hs : Sound ev base sys cache) (hfixed : Fixed sys cache)
    (h : Stack ev left root cache (current :: below) active) {d : Diagnostic}
    (htop : ∀ t, sys current.name = some t →
      (cache.failAll (order (current :: below)) d).Decided t (.error d)) :
    Fixed sys (cache.failAll (order (current :: below)) d) ∧
      Grows cache (cache.failAll (order (current :: below)) d) := by
  have hnew := h.fresh_order
  have hgrows := grows_failAll hnew d
  refine ⟨hfixed.failAll h.nodup hnew fun name hname t ht => ?_, hgrows⟩
  obtain ⟨p, hp, rfl⟩ : ∃ p ∈ current :: below, p.name = name := by
    simpa [order, or_comm, eq_comm] using hname
  rcases List.mem_cons.mp hp with rfl | hbelow
  · exact htop t ht
  · obtain ⟨upper, hupper, hw⟩ := h.waits_below p hbelow
    have hentry := entry_failAll (d := d) h.nodup (mem_order hupper)
      (hnew _ (mem_order hupper))
    exact decided_of_waits R hs hgrows (h.fresh p hp) (h.started p hp) hw hentry ht

/-- The loop keeps the cache a fixed point, and its entries. -/
theorem loop_fixed (R : ev.Refines base sys left) {root : String} (fuel : ℕ)
    {cache cache' : ConstantValues} {pending : List (Pending State)} {active : HashMap ℕ}
    {result : Except Diagnostic ConstantValue} (hs : Sound ev base sys cache)
    (hfixed : Fixed sys cache) (h : Stack ev left root cache pending active)
    (hloop : loop ev root fuel cache pending active = some (cache', result)) :
    Fixed sys cache' ∧ Grows cache cache' := by
  induction fuel generalizing cache pending active with
  | zero => cases hloop
  | succ fuel ih =>
    cases pending with
    | nil => cases hloop
    | cons current below =>
      have hfresh := h.fresh current List.mem_cons_self
      have hstarted := h.started current List.mem_cons_self
      have htop := resumeTop_spec R hs hfresh hstarted
      have hdecided := fun t ht => decided_resumeTop (t := t) R hs hfresh hstarted ht
      rw [loop] at hloop
      generalize resumeTop ev cache current = top at htop hdecided hloop
      cases htop with
      | value p v hv hclosed =>
        have hs' := hs.addValue hfresh hv hclosed
        have hfixed' := hfixed.addValue hfresh hdecided
        have hgrows := grows_addValue hfresh v
        simp only at hloop
        cases below with
        | nil =>
          obtain ⟨value, -, heq⟩ := Option.map_eq_some_iff.mp hloop
          obtain ⟨rfl, -⟩ := Prod.mk.inj heq
          exact ⟨hfixed', hgrows⟩
        | cons lower below =>
          obtain ⟨hlast, hlater⟩ := ih hs' hfixed' (h.pop (by simp) v) hloop
          exact ⟨hlast, hgrows.trans hlater⟩
      | failed p d hname hd hclosed =>
        obtain ⟨rfl, -⟩ := Prod.mk.inj (Option.some.inj hloop)
        have horder : ((p :: below).map (·.name)).reverse = order (current :: below) := by
          simp [order, hname]
        rw [horder]
        exact h.fixed_failAll R hs hfixed fun t ht =>
          (hdecided t ht).mono (grows_failAll h.fresh_order d)
      | waits p m s hname hstarted' hw hm =>
        have h' := h.suspend hname hstarted'
        simp only at hloop
        cases hactive : active.lookup m with
        | none =>
          rw [hactive] at hloop
          exact ih hs hfixed (h'.push (by simpa using hw) hm hactive s) hloop
        | some start =>
          rw [hactive] at hloop
          obtain ⟨definition, hdef, heq⟩ := Option.map_eq_some_iff.mp hloop
          obtain ⟨rfl, -⟩ := Prod.mk.inj heq
          -- the failure of `m` is the one that is recorded for the whole stack
          have hmem : m ∈ order (p :: below) :=
            List.mem_of_getElem? ((h'.active m start).mp hactive)
          refine h'.fixed_failAll R hs hfixed fun t ht => ?_
          exact decided_of_waits R hs (grows_failAll h'.fresh_order _)
            (h'.fresh p List.mem_cons_self) hstarted' hw
            (entry_failAll h'.nodup hmem (h'.fresh_order m hmem)) ht

/-- A request is answered with an entry. -/
theorem Answers.entry {root : String} {cache cache' : ConstantValues}
    {result : Except Diagnostic ConstantValue} (h : Answers ev base sys root cache cache' result) :
    cache'.entry root = some result := by
  have hresult := h.result
  cases result with
  | ok value =>
    simp only at hresult
    rw [ConstantValues.entry, hresult]
  | error d =>
    simp only at hresult
    have hnone : cache'.values.lookup root = none :=
      Option.eq_none_iff_forall_ne_some.mpr fun value hvalue =>
        (h.sound.failures hresult).not_computes value (h.sound.values hvalue)
    rw [ConstantValues.entry, hnone, hresult]
    rfl

/-- A request keeps the cache a fixed point, and its entries. -/
theorem evaluate_fixed (R : ev.Refines base sys left) {cache cache' : ConstantValues}
    (hs : Sound ev base sys cache) (hfixed : Fixed sys cache) {name : String} {span : Span}
    {result : Except Diagnostic ConstantValue}
    (h : evaluate ev cache name span = some (cache', result)) :
    Fixed sys cache' ∧ Grows cache cache' := by
  unfold evaluate at h
  cases hlook : cache.lookup name span with
  | ok value =>
    rw [hlook] at h
    obtain ⟨rfl, -⟩ := Prod.mk.inj (Option.some.inj h)
    exact ⟨hfixed, .refl _⟩
  | error error =>
    rw [hlook] at h
    cases error with
    | diagnostic d =>
      obtain ⟨rfl, -⟩ := Prod.mk.inj (Option.some.inj h)
      exact ⟨hfixed, .refl _⟩
    | dependency m s =>
      obtain ⟨rfl, rfl, hnew⟩ := lookup_eq_dependency hlook
      exact loop_fixed R _ hs hfixed (stack_start hnew s) h

/-- A sequence of requests makes a fixed point, in which each is answered with its entry. -/
theorem evaluateAll_fixed (R : ev.Refines base sys left) {cache cache' : ConstantValues}
    (hs : Sound ev base sys cache) (hfixed : Fixed sys cache) {requests : List (String × Span)}
    {results : List (Except Diagnostic ConstantValue)}
    (h : evaluateAll ev cache requests = some (cache', results)) :
    Fixed sys cache' ∧ Grows cache cache' ∧
      List.Forall₂ (fun request result => cache'.entry request.1 = some result) requests
        results := by
  induction requests generalizing cache results with
  | nil =>
    obtain ⟨rfl, rfl⟩ := Prod.mk.inj (Option.some.inj h)
    exact ⟨hfixed, .refl _, .nil⟩
  | cons request requests ih =>
    obtain ⟨name, span⟩ := request
    obtain ⟨next, result, heval, hanswers⟩ := evaluate_spec R hs name span
    obtain ⟨hfixed', hgrows⟩ := evaluate_fixed R hs hfixed heval
    simp only [evaluateAll, heval, Option.bind_eq_bind, Option.bind_some] at h
    obtain ⟨⟨last, rest⟩, hrest, heq⟩ := Option.bind_eq_some_iff.mp h
    obtain ⟨rfl, rfl⟩ := Prod.mk.inj (Option.some.inj heq)
    obtain ⟨hlast, hlater, hresults⟩ := ih hanswers.sound hfixed' hrest
    exact ⟨hlast, hgrows.trans hlater, .cons (hlater _ _ hanswers.entry) hresults⟩

end Scheduler

end ConstantValues

end Speck
