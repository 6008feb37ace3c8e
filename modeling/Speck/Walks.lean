import Mathlib.Data.List.Chain

/-!
# Longest walks

Walks in a graph given by the targets of each vertex. `Longest a height` says that the longest
walk from `a` has `height` vertices; it follows from the longest walks of the targets. A vertex
on a cycle has walks of any length, so none.
-/

namespace Speck

variable {α : Type} {targets : α → List α}

/-- A walk from `a`. -/
structure Walk (targets : α → List α) (a : α) (walk : List α) : Prop where
  head : walk.head? = some a
  chain : walk.IsChain fun a b => b ∈ targets a

/-- The longest walk from `a` has `height` vertices. -/
structure Longest (targets : α → List α) (a : α) (height : ℕ) : Prop where
  reached : ∃ walk, Walk targets a walk ∧ walk.length = height
  bound : ∀ walk, Walk targets a walk → walk.length ≤ height

/-- `b` can be reached from `a`. -/
abbrev Reachable (targets : α → List α) : α → α → Prop :=
  Relation.ReflTransGen fun a b => b ∈ targets a

/-- The maximum of some heights, 0 if there are none. -/
def maxHeight (heights : List ℕ) : ℕ := heights.foldr max 0

theorem le_maxHeight {heights : List ℕ} {height : ℕ} (h : height ∈ heights) :
    height ≤ maxHeight heights := by
  induction heights with
  | nil => cases h
  | cons first heights ih =>
    rcases List.mem_cons.mp h with rfl | h
    · exact le_max_left _ _
    · exact (ih h).trans (le_max_right _ _)

theorem maxHeight_mem {heights : List ℕ} (hne : heights ≠ []) : maxHeight heights ∈ heights := by
  induction heights with
  | nil => exact absurd rfl hne
  | cons first heights ih =>
    cases heights with
    | nil => simp [maxHeight]
    | cons second heights =>
      have h := ih (by simp)
      rcases Nat.le_total (maxHeight (second :: heights)) first with hle | hle
      · exact List.mem_cons.mpr (.inl (Nat.max_eq_left hle))
      · refine List.mem_cons_of_mem _ ?_
        have hmax : maxHeight (first :: second :: heights) = maxHeight (second :: heights) :=
          Nat.max_eq_right hle
        rwa [hmax]

namespace Walk

theorem singleton (a : α) : Walk targets a [a] := ⟨rfl, .singleton a⟩

theorem cons {a b : α} {walk : List α} (hb : b ∈ targets a) (h : Walk targets b walk) :
    Walk targets a (a :: walk) := by
  refine ⟨rfl, h.chain.cons fun c hc => ?_⟩
  obtain rfl : b = c := Option.some.inj (h.head.symm.trans hc)
  exact hb

/-- A walk is its first vertex, or goes on from one of its targets. -/
theorem cases_on {a : α} {walk : List α} (h : Walk targets a walk) :
    walk = [a] ∨ ∃ b ∈ targets a, ∃ rest, walk = a :: rest ∧ Walk targets b rest := by
  obtain ⟨hhead, hchain⟩ := h
  cases walk with
  | nil => cases hhead
  | cons first rest =>
    obtain rfl : first = a := Option.some.inj hhead
    cases rest with
    | nil => exact .inl rfl
    | cons b rest =>
      obtain ⟨hb, hrest⟩ := List.isChain_cons_cons.mp hchain
      exact .inr ⟨b, hb, b :: rest, rfl, rfl, hrest⟩

/-- A walk that ends at a vertex goes on with any walk from a target of it. -/
theorem append {a b c : α} {walk rest : List α} (h : Walk targets a walk)
    (hlast : walk.getLast? = some b) (hc : c ∈ targets b) (hrest : Walk targets c rest) :
    Walk targets a (walk ++ rest) := by
  refine ⟨?_, h.chain.append hrest.chain fun x hx y hy => ?_⟩
  · rw [List.head?_append, h.head]
    rfl
  · obtain rfl : b = x := Option.some.inj (hlast.symm.trans hx)
    obtain rfl : c = y := Option.some.inj (hrest.head.symm.trans hy)
    exact hc

/-- The last vertex of a walk can be reached. -/
theorem reachable {a b : α} {walk : List α} (h : Walk targets a walk)
    (hlast : walk.getLast? = some b) : Reachable targets a b := by
  induction walk generalizing a with
  | nil => cases hlast
  | cons first walk ih =>
    rcases h.cases_on with hsingle | ⟨c, hc, rest, hrest, hwalk⟩
    · rw [hsingle] at hlast
      obtain rfl : a = b := Option.some.inj hlast
      exact .refl
    · obtain ⟨rfl, rfl⟩ := List.cons_eq_cons.mp hrest
      have hne : walk ≠ [] := by
        rintro rfl
        cases hwalk.head
      rw [List.getLast?_cons_of_ne_nil hne] at hlast
      exact .head hc (ih hwalk hlast)

end Walk

/-- A walk from `b` goes on from any walk to `b`. -/
theorem exists_walk_of_reachable {a b : α} (h : Reachable targets a b) {walk : List α}
    (hwalk : Walk targets b walk) : ∃ walk', Walk targets a walk' ∧ walk.length ≤ walk'.length := by
  induction h using Relation.ReflTransGen.head_induction_on with
  | refl => exact ⟨walk, hwalk, le_refl _⟩
  | head hc _ ih =>
    obtain ⟨walk', hwalk', hle⟩ := ih
    exact ⟨_, hwalk'.cons hc, by rw [List.length_cons]; omega⟩

/-- Walks go round a cycle as often as one likes. -/
theorem exists_long_walk {a : α} (h : Relation.TransGen (fun a b => b ∈ targets a) a a) (n : ℕ) :
    ∃ walk, Walk targets a walk ∧ n < walk.length := by
  induction n with
  | zero => exact ⟨[a], .singleton a, by simp⟩
  | succ n ih =>
    obtain ⟨walk, hwalk, hlong⟩ := ih
    obtain ⟨b, hb, hreach⟩ := Relation.TransGen.head'_iff.mp h
    obtain ⟨walk', hwalk', hle⟩ := exists_walk_of_reachable hreach hwalk
    exact ⟨a :: walk', hwalk'.cons hb, by rw [List.length_cons]; omega⟩

/-- Where walks are bounded, no reachable vertex is on a cycle. -/
theorem acyclic_of_bound {a : α} {limit : ℕ}
    (hbound : ∀ walk, Walk targets a walk → walk.length ≤ limit) {b : α}
    (hb : Reachable targets a b) : ¬Relation.TransGen (fun a b => b ∈ targets a) b b := by
  intro hcycle
  obtain ⟨walk, hwalk, hlong⟩ := exists_long_walk hcycle limit
  obtain ⟨walk', hwalk', hle⟩ := exists_walk_of_reachable hb hwalk
  have hlimit := hbound walk' hwalk'
  omega

/-- Every walk from `a` has at most `limit` vertices. -/
def Within (targets : α → List α) (limit : ℕ) (a : α) : Prop :=
  ∀ walk, Walk targets a walk → walk.length ≤ limit

theorem Within.mono {limit limit' : ℕ} {a : α} (h : Within targets limit a)
    (hle : limit ≤ limit') : Within targets limit' a :=
  fun walk hwalk => (h walk hwalk).trans hle

theorem Within.of_targets {limit : ℕ} {a : α} (h : ∀ b ∈ targets a, Within targets limit b) :
    Within targets (limit + 1) a := by
  intro walk hwalk
  rcases hwalk.cases_on with rfl | ⟨b, hb, rest, rfl, hrest⟩
  · simp
  · have hle := h b hb rest hrest
    rw [List.length_cons]
    omega

/-- The longest walk is one more than the longest of the targets' longest walks. -/
theorem Longest.of_targets {a : α} {heights : List ℕ}
    (h : List.Forall₂ (Longest targets) (targets a) heights) :
    Longest targets a (1 + maxHeight heights) := by
  constructor
  · by_cases hne : heights = []
    · exact ⟨[a], .singleton a, by simp [hne, maxHeight]⟩
    · obtain ⟨i, hi, hheight⟩ := List.getElem_of_mem (maxHeight_mem hne)
      have hi' : i < (targets a).length := by rw [h.length_eq]; exact hi
      obtain ⟨walk, hwalk, hlength⟩ := (h.get hi' hi).reached
      refine ⟨a :: walk, hwalk.cons (List.getElem_mem hi'), ?_⟩
      rw [List.length_cons, hlength]
      simp only [List.get_eq_getElem] at hheight ⊢
      omega
  · intro walk hwalk
    rcases hwalk.cases_on with rfl | ⟨b, hb, rest, rfl, hrest⟩
    · simp
    · obtain ⟨i, hi, rfl⟩ := List.getElem_of_mem hb
      have hi' : i < heights.length := by rw [← h.length_eq]; exact hi
      have hlength := (h.get hi hi').bound rest hrest
      have hmax := le_maxHeight (List.getElem_mem hi')
      rw [List.length_cons]
      simp only [List.get_eq_getElem] at hlength
      omega

end Speck
