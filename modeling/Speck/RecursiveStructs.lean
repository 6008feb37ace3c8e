import Mathlib.Data.String.Basic
import Speck.Components
import Speck.EarlyPhase
import Speck.StructGraph

/-!
# Structs that contain themselves

What `StructTypeAnalysis` computes. Its two passes find the vertices on cycles, whatever the
sharing (`mem_recursiveMembers`) : the first pass leaves a finishing order (`finishOrder_spec`), and
against the edges the second one marks exactly a component at a time. The failed lengths are
propagated to all that reaches them (`mem_spread_dependents`). `structTypeAnalysis_exact` says it
for declarations.
-/

set_option linter.unusedSectionVars false

namespace Speck

open Relation

section Graph

variable {n : ℕ} {edges : Fin n → List (Fin n)}

/-- An edge of the graph. -/
def Edge (edges : Fin n → List (Fin n)) (a b : Fin n) : Prop := b ∈ edges a

/-! ## The first pass -/

/-- Every vertex of a path reaches the head that it leads to. -/
theorem reaches_head {α : Type} {r : α → α → Prop} {a : α} {as : List α}
    (h : (a :: as).IsChain fun upper lower => r lower upper) :
    ∀ b ∈ as, ReflTransGen r b a := by
  induction as generalizing a with
  | nil => exact nofun
  | cons c as ih =>
    obtain ⟨hedge, hrest⟩ := List.isChain_cons_cons.mp h
    refine List.forall_mem_cons.mpr ⟨.single hedge, fun b hb => ?_⟩
    exact (ih hrest b hb).tail hedge

/-- The search in progress : the finished vertices, and a path of frames that are not. -/
structure Searching (edges : Fin n → List (Fin n)) (visited finished : List (Fin n))
    (stack : List (Fin n × ℕ)) : Prop where
  nodup : (finished ++ stack.map (·.1)).Nodup
  found : ∀ v, v ∈ visited ↔ v ∈ finished ∨ v ∈ stack.map (·.1)
  path : (stack.map (·.1)).IsChain fun upper lower => Edge edges lower upper
  finishedEdges : ∀ v ∈ finished, ∀ w ∈ edges v, w ∈ visited
  frameEdges : ∀ frame ∈ stack, ∀ i < frame.2, ∀ w, (edges frame.1)[i]? = some w → w ∈ visited
  after : ∀ {earlier v later}, finished = earlier ++ v :: later →
    ∀ {w}, ReflTransGen (Edge edges) v w → w ∈ earlier ∨ w = v ∨
      ∃ u ∈ later ++ stack.map (·.1), Mutual (Edge edges) v u

namespace Searching

variable {visited finished : List (Fin n)} {node target : Fin n} {k : ℕ}
  {stack : List (Fin n × ℕ)}

/-- Everything on the path reaches its top. -/
theorem reaches_top (h : Searching edges visited finished ((node, k) :: stack)) :
    ∀ v ∈ stack.map (·.1), ReflTransGen (Edge edges) v node := by
  have hpath := h.path
  rw [List.map_cons] at hpath
  exact reaches_head hpath

/-- The edges of a vertex without edges left were all passed. -/
theorem edges_visited (h : Searching edges visited finished ((node, k) :: stack))
    (hend : (edges node)[k]? = none) : ∀ w ∈ edges node, w ∈ visited := by
  intro w hw
  obtain ⟨i, hi⟩ := List.mem_iff_getElem?.mp hw
  have hlength := List.getElem?_eq_none_iff.mp hend
  have hlt := (List.getElem?_eq_some_iff.mp hi).1
  exact h.frameEdges (node, k) List.mem_cons_self i (by omega) w hi

/-- An edge to a vertex that was visited is passed. -/
theorem skip (h : Searching edges visited finished ((node, k) :: stack))
    (htarget : (edges node)[k]? = some target) (hvisited : target ∈ visited) :
    Searching edges visited finished ((node, k + 1) :: stack) where
  nodup := h.nodup
  found := h.found
  path := h.path
  finishedEdges := h.finishedEdges
  frameEdges := by
    obtain ⟨htop, hrest⟩ := List.forall_mem_cons.mp h.frameEdges
    refine List.forall_mem_cons.mpr ⟨fun i hi w hw => ?_, hrest⟩
    rcases Nat.lt_succ_iff_lt_or_eq.mp hi with hlt | rfl
    · exact htop i hlt w hw
    · obtain rfl := Option.some.inj (htarget.symm.trans hw)
      exact hvisited
  after := h.after

/-- An edge to a new vertex extends the path. -/
theorem push (h : Searching edges visited finished ((node, k) :: stack))
    (htarget : (edges node)[k]? = some target) (hnew : target ∉ visited) :
    Searching edges (target :: visited) finished ((target, 0) :: (node, k + 1) :: stack) where
  nodup := by
    have hmem : target ∉ finished ++ node :: stack.map (·.1) := fun hin =>
      hnew ((h.found target).mpr (List.mem_append.mp hin))
    exact List.nodup_middle.mpr (List.nodup_cons.mpr ⟨hmem, h.nodup⟩)
  found v := by
    have hfound := h.found v
    simp only [List.map_cons, List.mem_cons] at hfound ⊢
    rw [hfound]
    exact or_left_comm
  path := List.isChain_cons_cons.mpr ⟨List.mem_of_getElem? htarget, h.path⟩
  finishedEdges v hv w hw := List.mem_cons_of_mem _ (h.finishedEdges v hv w hw)
  frameEdges := by
    obtain ⟨htop, hrest⟩ := List.forall_mem_cons.mp h.frameEdges
    refine List.forall_mem_cons.mpr ⟨fun i hi => absurd hi (Nat.not_lt_zero i),
      List.forall_mem_cons.mpr ⟨fun i hi w hw => ?_, fun frame hframe i hi w hw =>
        List.mem_cons_of_mem _ (hrest frame hframe i hi w hw)⟩⟩
    rcases Nat.lt_succ_iff_lt_or_eq.mp hi with hlt | rfl
    · exact List.mem_cons_of_mem _ (htop i hlt w hw)
    · obtain rfl := Option.some.inj (htarget.symm.trans hw)
      exact List.mem_cons_self
  after hsplit w hw := by
    rcases h.after hsplit hw with hearlier | rfl | ⟨u, hu, hmutual⟩
    · exact .inl hearlier
    · exact .inr (.inl rfl)
    · refine .inr (.inr ⟨u, ?_, hmutual⟩)
      rcases List.mem_append.mp hu with hlater | hstack
      · exact List.mem_append_left _ hlater
      · exact List.mem_append_right _ (List.mem_cons_of_mem _ hstack)

/-- What a vertex reaches when it is finished was finished before it, or is reached through a
vertex below it, which is of its component. -/
theorem reached (h : Searching edges visited finished ((node, k) :: stack))
    (hend : (edges node)[k]? = none) {w : Fin n} (hw : ReflTransGen (Edge edges) node w) :
    w ∈ finished ∨ w = node ∨ ∃ u ∈ stack.map (·.1), Mutual (Edge edges) node u := by
  induction hw with
  | refl => exact .inr (.inl rfl)
  | tail hreach hedge ih =>
    rename_i b c
    have hvisited (hb : b ∈ finished ∨ b = node) : c ∈ visited := by
      rcases hb with hb | rfl
      · exact h.finishedEdges b hb c hedge
      · exact h.edges_visited hend c hedge
    have hnext (hc : c ∈ visited) :
        c ∈ finished ∨ c = node ∨ ∃ u ∈ stack.map (·.1), Mutual (Edge edges) node u := by
      rcases (h.found c).mp hc with hfinished | hstack
      · exact .inl hfinished
      · rcases List.mem_cons.mp hstack with rfl | hbelow
        · exact .inr (.inl rfl)
        · exact .inr (.inr ⟨c, hbelow, hreach.tail hedge, h.reaches_top c hbelow⟩)
    rcases ih with hb | hb | hmutual
    · exact hnext (hvisited (.inl hb))
    · exact hnext (hvisited (.inr hb))
    · exact .inr (.inr hmutual)

/-- A vertex without edges left is finished. -/
theorem finish (h : Searching edges visited finished ((node, k) :: stack))
    (hend : (edges node)[k]? = none) :
    Searching edges visited (finished ++ [node]) stack where
  nodup := by
    have hnodup := h.nodup
    rw [List.map_cons] at hnodup
    rwa [List.append_assoc, List.singleton_append]
  found v := by
    have hfound := h.found v
    rw [List.map_cons, List.mem_cons] at hfound
    rw [hfound, List.mem_append, List.mem_singleton, or_assoc]
  path := by
    have hpath := h.path
    rw [List.map_cons] at hpath
    exact hpath.tail
  finishedEdges v hv := by
    rcases List.mem_append.mp hv with hv | hv
    · exact h.finishedEdges v hv
    · obtain rfl := List.mem_singleton.mp hv
      exact h.edges_visited hend
  frameEdges frame hframe := h.frameEdges frame (List.mem_cons_of_mem _ hframe)
  after {earlier v later} hsplit w hw := by
    rcases List.eq_nil_or_concat later with rfl | ⟨later, last, rfl⟩
    · obtain ⟨rfl, hlast⟩ := List.append_inj' hsplit rfl
      obtain rfl := List.head_eq_of_cons_eq hlast
      exact h.reached hend hw
    · rw [List.concat_eq_append, ← List.cons_append, ← List.append_assoc] at hsplit
      obtain ⟨rfl, hlast⟩ := List.append_inj' hsplit rfl
      obtain rfl := List.head_eq_of_cons_eq hlast
      have hafter := h.after rfl hw
      rw [List.map_cons] at hafter
      rwa [List.concat_eq_append, List.append_assoc, List.singleton_append]

end Searching

/-- A search finishes all that it starts with. -/
theorem finishFrom_spec {visited finished : List (Fin n)} {stack : List (Fin n × ℕ)}
    (h : Searching edges visited finished stack) :
    let result := finishFrom edges visited finished stack
    Searching edges result.1 result.2 [] ∧ ∀ v ∈ visited, v ∈ result.1 := by
  induction visited, finished, stack using finishFrom.induct edges with
  | case1 visited finished =>
    rw [finishFrom]
    exact ⟨h, fun _ => id⟩
  | case2 visited finished node k stack target htarget hvisited ih =>
    rw [finishFrom]
    split
    · next other hother =>
      obtain rfl := Option.some.inj (htarget.symm.trans hother)
      rw [if_pos hvisited]
      exact ih (h.skip htarget hvisited)
    · next hnone => cases htarget.symm.trans hnone
  | case3 visited finished node k stack target htarget hnew ih =>
    rw [finishFrom]
    split
    · next other hother =>
      obtain rfl := Option.some.inj (htarget.symm.trans hother)
      rw [if_neg hnew]
      obtain ⟨hsearched, hkept⟩ := ih (h.push htarget hnew)
      exact ⟨hsearched, fun v hv => hkept v (List.mem_cons_of_mem _ hv)⟩
    · next hnone => cases htarget.symm.trans hnone
  | case4 visited finished node k stack hend ih =>
    rw [finishFrom]
    split
    · next other hother => cases hend.symm.trans hother
    · exact ih (h.finish hend)

/-- A new root starts a search. -/
theorem Searching.start {visited finished : List (Fin n)} {root : Fin n}
    (h : Searching edges visited finished []) (hnew : root ∉ visited) :
    Searching edges (root :: visited) finished [(root, 0)] where
  nodup := by
    have hmem : root ∉ finished := fun hin => hnew ((h.found root).mpr (.inl hin))
    have hnodup : finished.Nodup := by simpa using h.nodup
    rw [List.map_cons, List.map_nil, ← List.concat_eq_append]
    exact hnodup.concat hmem
  found v := by
    rw [List.mem_cons, h.found v]
    simp [or_comm]
  path := List.isChain_singleton _
  finishedEdges v hv w hw := List.mem_cons_of_mem _ (h.finishedEdges v hv w hw)
  frameEdges := List.forall_mem_singleton.mpr fun i hi => absurd hi (Nat.not_lt_zero i)
  after hsplit w hw := by
    rcases h.after hsplit hw with hearlier | rfl | ⟨u, hu, hmutual⟩
    · exact .inl hearlier
    · exact .inr (.inl rfl)
    · refine .inr (.inr ⟨u, ?_, hmutual⟩)
      rw [List.map_nil, List.append_nil] at hu
      exact List.mem_append_left _ hu

/-- The searches from some roots finish them. -/
theorem searched_roots (roots : List (Fin n)) {visited finished : List (Fin n)}
    (h : Searching edges visited finished []) :
    let result := roots.foldl (fun state root =>
      if root ∈ state.1 then state
      else finishFrom edges (root :: state.1) state.2 [(root, 0)]) (visited, finished)
    Searching edges result.1 result.2 [] ∧ (∀ v ∈ visited, v ∈ result.1) ∧
      ∀ root ∈ roots, root ∈ result.1 := by
  induction roots generalizing visited finished with
  | nil => exact ⟨h, fun _ => id, nofun⟩
  | cons root roots ih =>
    rw [List.foldl_cons]
    dsimp only
    by_cases hvisited : root ∈ visited
    · rw [if_pos hvisited]
      obtain ⟨hsearched, hkept, hroots⟩ := ih h
      exact ⟨hsearched, hkept, List.forall_mem_cons.mpr ⟨hkept root hvisited, hroots⟩⟩
    · rw [if_neg hvisited]
      obtain ⟨hone, hmore⟩ := finishFrom_spec (h.start hvisited)
      obtain ⟨hsearched, hkept, hroots⟩ := ih hone
      refine ⟨hsearched, fun v hv => hkept v (hmore v (List.mem_cons_of_mem _ hv)),
        List.forall_mem_cons.mpr ⟨hkept root (hmore root List.mem_cons_self), hroots⟩⟩

variable (edges) in
/-- The first pass leaves a finishing order. -/
theorem finishOrder_spec : FinishOrder (Edge edges) (finishOrder edges).reverse := by
  have hempty : Searching edges [] [] [] :=
    ⟨List.nodup_nil, fun _ => by simp, List.isChain_nil, nofun, nofun, fun hsplit => by
      simp at hsplit⟩
  obtain ⟨hsearched, -, hroots⟩ := searched_roots (List.finRange n) hempty
  rw [finishOrder]
  refine ⟨?_, fun v => ?_, fun {before v later} hsplit w hw => ?_⟩
  · rw [List.nodup_reverse]
    simpa using hsearched.nodup
  · have hfound := (hsearched.found v).mp (hroots v (List.mem_finRange v))
    simpa using hfound
  · have hfinished := congrArg List.reverse hsplit
    rw [List.reverse_reverse, List.reverse_append, List.reverse_cons, List.append_assoc,
      List.singleton_append] at hfinished
    simpa using hsearched.after hfinished hw

/-! ## Spreading -/

theorem mem_markAll (targets visited pending : List (Fin n)) (v : Fin n) :
    (v ∈ (markAll targets visited pending).1 ↔ v ∈ visited ∨ v ∈ targets) ∧
      (v ∈ (markAll targets visited pending).2 ↔
        v ∈ pending ∨ v ∈ targets ∧ v ∉ visited) := by
  induction targets generalizing visited pending with
  | nil => simp [markAll]
  | cons target targets ih =>
    rw [markAll, List.foldl_cons, ← markAll]
    dsimp only
    by_cases htarget : target ∈ visited
    · rw [if_pos htarget, (ih visited pending).1, (ih visited pending).2]
      constructor
      · rw [List.mem_cons]
        constructor
        · exact Or.imp_right .inr
        · rintro (hv | rfl | hv)
          · exact .inl hv
          · exact .inl htarget
          · exact .inr hv
      · rw [List.mem_cons]
        constructor
        · exact Or.imp_right fun hv => ⟨.inr hv.1, hv.2⟩
        · rintro (hv | ⟨rfl | hv, hnew⟩)
          · exact .inl hv
          · exact absurd htarget hnew
          · exact .inr ⟨hv, hnew⟩
    · rw [if_neg htarget, (ih _ _).1, (ih _ _).2]
      simp only [List.mem_cons]
      constructor
      · tauto
      · by_cases hv : v = target
        · subst hv
          simp [htarget]
        · simp [hv]

theorem nodup_markAll {popped : List (Fin n)} (targets : List (Fin n)) {visited pending : List (Fin n)}
    (hnodup : (popped ++ pending).Nodup) (hvisited : ∀ v ∈ popped ++ pending, v ∈ visited) :
    (popped ++ (markAll targets visited pending).2).Nodup := by
  induction targets generalizing visited pending with
  | nil => exact hnodup
  | cons target targets ih =>
    rw [markAll, List.foldl_cons, ← markAll]
    dsimp only
    by_cases htarget : target ∈ visited
    · rw [if_pos htarget]
      exact ih hnodup hvisited
    · rw [if_neg htarget]
      have hmem : target ∉ popped ++ pending := fun hin => htarget (hvisited target hin)
      refine ih (List.nodup_middle.mpr (List.nodup_cons.mpr ⟨hmem, hnodup⟩)) fun v hv => ?_
      rcases List.mem_cons.mp (List.perm_middle.mem_iff.mp hv) with rfl | hin
      · exact List.mem_cons_self
      · exact List.mem_cons_of_mem _ (hvisited v hin)

/-- What spreading from the pending vertices marks and pops. -/
structure Spread (edges : Fin n → List (Fin n)) (visited pending popped : List (Fin n))
    (result : List (Fin n) × List (Fin n)) : Prop where
  kept : ∀ v ∈ visited, v ∈ result.1
  taken : ∀ v, v ∈ result.2 ↔ v ∈ popped ∨ v ∈ pending ∨ v ∈ result.1 ∧ v ∉ visited
  nodup : result.2.Nodup
  closed : ∀ v ∈ result.2, v ∉ popped → ∀ w ∈ edges v, w ∈ result.1
  least : ∀ S : Fin n → Prop, (∀ v ∈ pending, S v) →
    (∀ v, S v → ∀ w ∈ edges v, w ∉ visited → S w) → ∀ v ∈ result.1, v ∈ visited ∨ S v

theorem spread_spec {visited pending popped : List (Fin n)} (hnodup : (popped ++ pending).Nodup)
    (hvisited : ∀ v ∈ popped ++ pending, v ∈ visited) :
    Spread edges visited pending popped (spread edges visited pending popped) := by
  induction visited, pending, popped using spread.induct edges with
  | case1 visited popped =>
    rw [spread]
    rw [List.append_nil] at hnodup
    refine ⟨fun _ => id, fun v => ?_, hnodup, fun v hv hnot => absurd hv hnot, fun S _ _ v => .inl⟩
    simp
  | case2 visited popped node pending marked ih =>
    have hmem := mem_markAll (edges node) visited pending
    have hmore : ∀ v ∈ visited, v ∈ marked.1 := fun v hv => ((hmem v).1).mpr (.inl hv)
    have hnodup' : ((popped ++ [node]) ++ pending).Nodup := by
      rwa [List.append_assoc, List.singleton_append]
    have hvisited' : ∀ v ∈ (popped ++ [node]) ++ pending, v ∈ visited := by
      rwa [List.append_assoc, List.singleton_append]
    obtain ⟨hkept, htaken, hlast, hclosed, hleast⟩ := ih (nodup_markAll _ hnodup' hvisited')
      fun v hv => by
        rcases List.mem_append.mp hv with hv | hv
        · exact hmore v (hvisited' v (List.mem_append_left _ hv))
        · rcases ((hmem v).2).mp hv with hv | hv
          · exact hmore v (hvisited' v (List.mem_append_right _ hv))
          · exact ((hmem v).1).mpr (.inr hv.1)
    rw [spread]
    refine ⟨fun v hv => hkept v (hmore v hv), fun v => ?_, hlast, fun v hv hnot w hw => ?_,
      fun S hpending hstep v hv => ?_⟩
    · rw [htaken v, List.mem_append, List.mem_singleton, (hmem v).2, (hmem v).1, List.mem_cons]
      have hedge (hv : v ∈ edges node) : v ∈ (spread edges marked.1 marked.2 (popped ++ [node])).1 :=
        hkept v (((hmem v).1).mpr (.inr hv))
      tauto
    · by_cases hnode : v = node
      · subst hnode
        exact hkept w (((hmem w).1).mpr (.inr hw))
      · exact hclosed v hv (by simp [hnot, hnode]) w hw
    · obtain ⟨hnode, hpending⟩ := List.forall_mem_cons.mp hpending
      have hmarked : ∀ v ∈ marked.2, S v := fun v hv => by
        rcases ((hmem v).2).mp hv with hv | ⟨hv, hnew⟩
        · exact hpending v hv
        · exact hstep node hnode v hv hnew
      rcases hleast S hmarked (fun v hv w hw hnew => hstep v hv w hw fun hin => hnew (hmore w hin)) v
        hv with hin | hin
      · by_cases hold : v ∈ visited
        · exact .inl hold
        · exact .inr (hstep node hnode v ((((hmem v).1).mp hin).resolve_left hold) hold)
      · exact .inr hin

/-! ## The second pass -/

section Second

variable {dependencies dependents : Fin n → List (Fin n)} {order before later : List (Fin n)}
  {root : Fin n} {visited : List (Fin n)}

/-- Against the edges, the next unmarked vertex marks its component. -/
theorem mem_component (hdual : ∀ a b, b ∈ dependents a ↔ a ∈ dependencies b)
    (horder : FinishOrder (Edge dependencies) order) (hsplit : order = before ++ root :: later)
    (hvisited : ∀ v, v ∈ visited ↔ ∃ p ∈ before, Mutual (Edge dependencies) p v)
    (hroot : root ∉ visited) :
    let component := spread dependents (root :: visited) [root] []
    component.2.Nodup ∧ (∀ v, v ∈ component.2 ↔ Mutual (Edge dependencies) root v) ∧
      ∀ v, v ∈ component.1 ↔ v ∈ visited ∨ Mutual (Edge dependencies) root v := by
  intro component
  have hspread : Spread dependents (root :: visited) [root] [] component :=
    spread_spec (List.nodup_singleton root) (List.forall_mem_singleton.mpr List.mem_cons_self)
  have hmarked : ∀ v ∈ component.1, v ∈ root :: visited ∨ Mutual (Edge dependencies) root v := by
    refine hspread.least _ (List.forall_mem_singleton.mpr (.refl root)) fun v hv w hw hnew => ?_
    have hedge : Edge dependencies w v := (hdual v w).mp hw
    have hw : ∀ p ∈ before, ¬Mutual (Edge dependencies) p w := fun p hp hmutual =>
      hnew (List.mem_cons_of_mem _ ((hvisited w).mpr ⟨p, hp, hmutual⟩))
    exact (horder.mutual_iff hsplit hw).mp (hv.2.head hedge)
  have hnot {v : Fin n} (hv : Mutual (Edge dependencies) root v) : v ∉ visited := fun hin => by
    obtain ⟨p, hp, hmutual⟩ := (hvisited v).mp hin
    exact hroot ((hvisited root).mpr ⟨p, hp, hmutual.trans hv.symm⟩)
  have htaken : ∀ v, v ∈ component.2 ↔ Mutual (Edge dependencies) root v := by
    refine fun v => ⟨fun hv => ?_, fun hv => ?_⟩
    · rcases (hspread.taken v).mp hv with hv | hv | ⟨hv, hnew⟩
      · cases hv
      · obtain rfl := List.mem_singleton.mp hv
        exact .refl v
      · exact (hmarked v hv).resolve_left hnew
    · obtain ⟨hforth, hback⟩ := hv
      -- along the path to the root, which stays in its component
      induction hback using ReflTransGen.head_induction_on with
      | refl => exact (hspread.taken root).mpr (.inr (.inl List.mem_cons_self))
      | head hedge hback ih =>
        rename_i a c
        have hc := ih (hforth.tail hedge)
        have ha : a ∈ component.1 := hspread.closed c hc nofun a ((hdual c a).mpr hedge)
        by_cases hsame : a = root
        · exact (hspread.taken a).mpr (.inr (.inl (List.mem_singleton.mpr hsame)))
        · have hnew : a ∉ root :: visited := fun hin =>
            hnot ⟨hforth, hback.head hedge⟩ ((List.mem_cons.mp hin).resolve_left hsame)
          exact (hspread.taken a).mpr (.inr (.inr ⟨ha, hnew⟩))
  refine ⟨hspread.nodup, htaken, fun v => ⟨fun hv => ?_, ?_⟩⟩
  · rcases hmarked v hv with hin | hmutual
    · rcases List.mem_cons.mp hin with rfl | hin
      · exact .inr (.refl v)
      · exact .inl hin
    · exact .inr hmutual
  · rintro (hv | hv)
    · exact hspread.kept v (List.mem_cons_of_mem _ hv)
    · rcases (hspread.taken v).mp ((htaken v).mpr hv) with hin | hin | ⟨hin, -⟩
      · cases hin
      · exact hspread.kept v (List.mem_cons.mpr (.inl (List.mem_singleton.mp hin)))
      · exact hin

/-- The members of a component are on a cycle if it has several, or an edge to itself. -/
theorem transGen_self_iff_component {r : Fin n → Fin n → Prop} {component : List (Fin n)}
    (hnodup : component.Nodup) (hmem : ∀ v, v ∈ component ↔ Mutual r root v) {v : Fin n}
    (hv : Mutual r root v) : TransGen r v v ↔ 1 < component.length ∨ r root root := by
  constructor
  · intro hcycle
    by_cases hlength : 1 < component.length
    · exact .inl hlength
    have halone : ∀ w ∈ component, w = root := by
      intro w hw
      have hroot := (hmem root).mpr (.refl root)
      obtain ⟨a, ha⟩ : ∃ a, component = [a] :=
        List.length_eq_one_iff.mp (le_antisymm (not_lt.mp hlength) (List.length_pos_of_mem hw))
      rw [ha, List.mem_singleton] at hw hroot
      exact hw.trans hroot.symm
    obtain rfl := halone v ((hmem v).mpr hv)
    rcases transGen_self_iff.mp hcycle with hself | ⟨w, hne, hmutual⟩
    · exact .inr hself
    · exact absurd (halone w ((hmem w).mpr hmutual)) hne
  · rintro (hlength | hself)
    · by_contra hno
      have hsub : component ⊆ [v] := fun w hw => by
        by_contra hne
        refine hno (transGen_self_iff.mpr (.inr ⟨w, fun heq => ?_, hv.symm.trans ((hmem w).mp hw)⟩))
        exact hne (List.mem_singleton.mpr heq)
      have hle := (List.subperm_of_subset hnodup hsub).length_le
      rw [List.length_singleton] at hle
      omega
    · by_cases hsame : root = v
      · exact hsame ▸ .single hself
      · exact transGen_self_iff.mpr (.inr ⟨root, hsame, hv.symm⟩)

/-- The second pass from the roots that are left. -/
theorem mem_recursive_fold (hdual : ∀ a b, b ∈ dependents a ↔ a ∈ dependencies b)
    (horder : FinishOrder (Edge dependencies) order) (rest : List (Fin n))
    {before visited recursive : List (Fin n)} (hsplit : order = before ++ rest)
    (hvisited : ∀ v, v ∈ visited ↔ ∃ p ∈ before, Mutual (Edge dependencies) p v)
    (hrecursive : ∀ v, v ∈ recursive ↔ v ∈ visited ∧ TransGen (Edge dependencies) v v) (v : Fin n) :
    v ∈ (rest.foldl (fun state root =>
      if root ∈ state.1 then state
      else
        let component := spread dependents (root :: state.1) [root] []
        if 1 < component.2.length ∨ root ∈ dependencies root then
          (component.1, state.2 ++ component.2)
        else (component.1, state.2)) (visited, recursive)).2 ↔ TransGen (Edge dependencies) v v := by
  induction rest generalizing before visited recursive with
  | nil =>
    rw [List.append_nil] at hsplit
    have hin : v ∈ visited := (hvisited v).mpr ⟨v, hsplit ▸ horder.complete v, .refl v⟩
    exact (hrecursive v).trans (and_iff_right hin)
  | cons root rest ih =>
    have hnext : order = (before ++ [root]) ++ rest := by
      rw [hsplit, List.append_assoc, List.singleton_append]
    have hstep (w : Fin n) : (∃ p ∈ before ++ [root], Mutual (Edge dependencies) p w) ↔
        (∃ p ∈ before, Mutual (Edge dependencies) p w) ∨ Mutual (Edge dependencies) root w := by
      simp only [List.mem_append, List.mem_singleton, or_and_right, exists_or, exists_eq_left]
    rw [List.foldl_cons]
    dsimp only
    by_cases hroot : root ∈ visited
    · rw [if_pos hroot]
      refine ih hnext (fun w => ?_) hrecursive
      rw [hstep, ← hvisited w]
      refine ⟨.inl, fun hw => hw.elim id fun hmutual => ?_⟩
      obtain ⟨p, hp, hfirst⟩ := (hvisited root).mp hroot
      exact (hvisited w).mpr ⟨p, hp, hfirst.trans hmutual⟩
    · rw [if_neg hroot]
      obtain ⟨hnodup, hmem, hmarked⟩ := mem_component hdual horder hsplit hvisited hroot
      have hcycle {w : Fin n} (hw : Mutual (Edge dependencies) root w) :=
        transGen_self_iff_component hnodup hmem hw
      have hvisited' (w : Fin n) : w ∈ (spread dependents (root :: visited) [root] []).1 ↔
          ∃ p ∈ before ++ [root], Mutual (Edge dependencies) p w := by
        rw [hstep, ← hvisited w, hmarked w]
      split
      · next hsome =>
        refine ih hnext hvisited' fun w => ?_
        rw [List.mem_append, hrecursive w, hmem w, hmarked w, or_and_right]
        exact or_congr_right ⟨fun hw => ⟨hw, (hcycle hw).mpr hsome⟩, And.left⟩
      · next hnone =>
        refine ih hnext hvisited' fun w => ?_
        rw [hrecursive w, hmarked w, or_and_right]
        exact (or_iff_left fun hw => hnone ((hcycle hw.1).mp hw.2)).symm

/-- The vertices found are the ones on cycles. -/
theorem mem_recursiveMembers (hdual : ∀ a b, b ∈ dependents a ↔ a ∈ dependencies b) (v : Fin n) :
    v ∈ recursiveMembers dependencies dependents ↔ TransGen (Edge dependencies) v v :=
  mem_recursive_fold hdual (finishOrder_spec dependencies) _ (List.nil_append _).symm
    (fun w => by simp) (fun w => by simp) v

end Second

/-- Against the edges, everything that reaches a pending vertex is marked. -/
theorem mem_spread_dependents {dependencies dependents : Fin n → List (Fin n)}
    (hdual : ∀ a b, b ∈ dependents a ↔ a ∈ dependencies b) {pending : List (Fin n)}
    {visited : List (Fin n)} (hnodup : pending.Nodup) (hsame : ∀ v, v ∈ visited ↔ v ∈ pending)
    (v : Fin n) : v ∈ (spread dependents visited pending []).1 ↔
      ∃ p ∈ pending, ReflTransGen (Edge dependencies) v p := by
  have hspread : Spread dependents visited pending [] (spread dependents visited pending []) :=
    spread_spec hnodup fun w hw => (hsame w).mpr hw
  constructor
  · intro hv
    rcases hspread.least (fun w => ∃ p ∈ pending, ReflTransGen (Edge dependencies) w p)
      (fun w hw => ⟨w, hw, .refl⟩) (fun w ⟨p, hp, hreach⟩ u hu _ =>
        ⟨p, hp, hreach.head ((hdual w u).mp hu)⟩) v hv with hin | hreach
    · exact ⟨v, (hsame v).mp hin, .refl⟩
    · exact hreach
  · rintro ⟨p, hp, hreach⟩
    induction hreach using ReflTransGen.head_induction_on with
    | refl => exact hspread.kept p ((hsame p).mpr hp)
    | head hedge _hrest ih =>
      rename_i a c
      have hc : c ∈ (spread dependents visited pending []).2 := by
        rw [hspread.taken c]
        by_cases hin : c ∈ visited
        · exact .inr (.inl ((hsame c).mp hin))
        · exact .inr (.inr ⟨ih, hin⟩)
      exact hspread.closed c hc nofun a ((hdual c a).mpr hedge)

end Graph

/-! ## Declarations -/

section Declarations

variable {structs : HashMap StructDecl}

/-- A field of one struct is made of another one, directly or as the element of arrays. -/
def Contains (structs : HashMap StructDecl) (name name' : String) : Prop :=
  ∃ declaration field, structs.lookup name = some declaration ∧ field ∈ declaration.fields ∧
    field.ty.structName = some name'

/-- Every declaration is in the table under its own name. -/
def Named (structs : HashMap StructDecl) : Prop :=
  ∀ name declaration, structs.lookup name = some declaration → declaration.name = name

/-- The order of the diagnostics. -/
def Before (a b : StructDecl) : Prop :=
  a.span.start < b.span.start ∨ a.span.start = b.span.start ∧ a.name < b.name

theorem mem_sortDeclarations (hnamed : Named structs) {declaration : StructDecl} :
    declaration ∈ sortDeclarations structs ↔
      structs.lookup declaration.name = some declaration := by
  rw [sortDeclarations, List.mem_insertionSort, List.mem_map]
  constructor
  · rintro ⟨⟨name, declared⟩, hentry, rfl⟩
    have hlookup : structs.lookup name = some declared := AList.mem_lookup_iff.mpr hentry
    rw [hnamed name declared hlookup]
    exact hlookup
  · intro hlookup
    exact ⟨⟨declaration.name, declaration⟩, AList.mem_lookup_iff.mp hlookup, rfl⟩

/-- Declarations have different names. -/
theorem names_sortDeclarations (hnamed : Named structs) :
    ((sortDeclarations structs).map (·.name)).Nodup := by
  have hperm : ((sortDeclarations structs).map (·.name)).Perm structs.keys := by
    refine ((List.perm_insertionSort _ _).map _).trans ?_
    rw [List.map_map, AList.keys, List.keys]
    refine List.Perm.of_eq (List.map_congr_left fun entry hentry => ?_)
    exact hnamed entry.1 entry.2 (AList.mem_lookup_iff.mpr hentry)
  exact hperm.nodup_iff.mpr structs.keys_nodup

/-- Declarations are ordered by the start of their spans, then by name. -/
theorem sortDeclarations_before (hnamed : Named structs) :
    (sortDeclarations structs).Pairwise Before := by
  let le (a b : StructDecl) : Prop :=
    a.span.start < b.span.start ∨ a.span.start = b.span.start ∧ a.name ≤ b.name
  have htotal : Std.Total le := ⟨fun a b => by
    rcases lt_trichotomy a.span.start b.span.start with hlt | heq | hgt
    · exact .inl (.inl hlt)
    · exact (le_total a.name b.name).imp (fun hname => .inr ⟨heq, hname⟩)
        fun hname => .inr ⟨heq.symm, hname⟩
    · exact .inr (.inl hgt)⟩
  have htrans : IsTrans StructDecl le := ⟨fun a b c hab hbc => by
    rcases hab with hab | ⟨hab, hname⟩ <;> rcases hbc with hbc | ⟨hbc, hname'⟩
    · exact .inl (hab.trans hbc)
    · exact .inl (hbc ▸ hab)
    · exact .inl (hab ▸ hbc)
    · exact .inr ⟨hab.trans hbc, le_trans hname hname'⟩⟩
  have hsorted : (sortDeclarations structs).Pairwise le := List.pairwise_insertionSort le _
  have hnames := List.pairwise_map.mp (names_sortDeclarations hnamed)
  refine (hsorted.and hnames).imp fun {a b} h => ?_
  obtain ⟨hstart | ⟨hstart, hname⟩, hne⟩ := h
  · exact .inl hstart
  · exact .inr ⟨hstart, lt_of_le_of_ne hname hne⟩

theorem declarationIndex_eq_some (hnamed : Named structs) {name : String}
    {i : Fin (sortDeclarations structs).length} :
    declarationIndex (sortDeclarations structs) name = some i ↔
      ((sortDeclarations structs).get i).name = name := by
  rw [declarationIndex]
  constructor
  · intro h
    have hname := List.find?_some h
    exact eq_of_beq hname
  · intro h
    cases hfound : (List.finRange (sortDeclarations structs).length).find? fun i =>
        ((sortDeclarations structs).get i).name == name with
    | none =>
      have hno := List.find?_eq_none.mp hfound i (List.mem_finRange i)
      exact absurd (beq_iff_eq.mpr h) hno
    | some j =>
      have hj := List.find?_some hfound
      have hsame : ((sortDeclarations structs).get j).name =
          ((sortDeclarations structs).get i).name := (eq_of_beq hj).trans h.symm
      have hsameDeclaration := List.inj_on_of_nodup_map (names_sortDeclarations hnamed)
        (List.get_mem _ j) (List.get_mem _ i) hsame
      exact congrArg some ((names_sortDeclarations hnamed).of_map.get_inj_iff.mp hsameDeclaration)

/-- The graph is the relation of the declarations. -/
theorem edge_dependencies (hnamed : Named structs) (i j : Fin (sortDeclarations structs).length) :
    Edge (dependencies (sortDeclarations structs)) i j ↔
      Contains structs ((sortDeclarations structs).get i).name
        ((sortDeclarations structs).get j).name := by
  have hlookup := (mem_sortDeclarations hnamed).mp (List.get_mem (sortDeclarations structs) i)
  rw [Edge, dependencies, List.mem_filterMap]
  constructor
  · rintro ⟨field, hfield, hindex⟩
    obtain ⟨name, hname, hfound⟩ := Option.bind_eq_some_iff.mp hindex
    rw [declarationIndex_eq_some hnamed] at hfound
    exact ⟨_, field, hlookup, hfield, hname.trans (congrArg some hfound.symm)⟩
  · rintro ⟨declaration, field, hdeclared, hfield, hname⟩
    obtain rfl := Option.some.inj (hlookup.symm.trans hdeclared)
    refine ⟨field, hfield, ?_⟩
    rw [hname, Option.bind_some, declarationIndex_eq_some hnamed]

theorem mem_dependents (declarations : List StructDecl) (a b : Fin declarations.length) :
    b ∈ dependents declarations a ↔ a ∈ dependencies declarations b := by
  rw [dependents, List.mem_flatMap]
  constructor
  · rintro ⟨i, -, hmem⟩
    obtain ⟨j, hj, rfl⟩ := List.mem_map.mp hmem
    obtain ⟨hj, heq⟩ := List.mem_filter.mp hj
    exact of_decide_eq_true heq ▸ hj
  · intro h
    refine ⟨b, List.mem_finRange b, List.mem_map.mpr ⟨a, List.mem_filter.mpr ⟨h, ?_⟩, rfl⟩⟩
    exact decide_eq_true rfl

/-- Every declared struct has a position. -/
theorem exists_position (hnamed : Named structs) {name : String} {declaration : StructDecl}
    (h : structs.lookup name = some declaration) :
    ∃ i, (sortDeclarations structs).get i = declaration ∧
      ((sortDeclarations structs).get i).name = name := by
  have hname := hnamed name declaration h
  have hmem : declaration ∈ sortDeclarations structs :=
    (mem_sortDeclarations hnamed).mpr (hname ▸ h)
  obtain ⟨i, hi⟩ := List.mem_iff_get.mp hmem
  exact ⟨i, hi, by rw [hi, hname]⟩

/-- A struct that contains another one is declared. -/
theorem Contains.exists_position (hnamed : Named structs) {name name' : String}
    (h : Contains structs name name') : ∃ i, ((sortDeclarations structs).get i).name = name := by
  obtain ⟨declaration, field, hlookup, -, -⟩ := h
  obtain ⟨i, -, hi⟩ := Speck.exists_position hnamed hlookup
  exact ⟨i, hi⟩

/-- A path of positions is one of names. -/
theorem reflTransGen_dependencies (hnamed : Named structs)
    (i j : Fin (sortDeclarations structs).length) :
    ReflTransGen (Edge (dependencies (sortDeclarations structs))) i j ↔
      ReflTransGen (Contains structs) ((sortDeclarations structs).get i).name
        ((sortDeclarations structs).get j).name := by
  constructor
  · intro h
    induction h with
    | refl => exact .refl
    | tail _ hedge ih => exact ih.tail ((edge_dependencies hnamed _ _).mp hedge)
  · intro h
    generalize hname : ((sortDeclarations structs).get i).name = name at h
    induction h using ReflTransGen.head_induction_on generalizing i with
    | refl =>
      have hj := (declarationIndex_eq_some hnamed).mpr hname
      have hi := (declarationIndex_eq_some hnamed (i := j)).mpr rfl
      obtain rfl := Option.some.inj (hj.symm.trans hi)
      exact .refl
    | head hedge hrest ih =>
      rename_i a c
      rcases hrest.cases_head with rfl | ⟨d, hnext, -⟩
      · exact .single ((edge_dependencies hnamed i j).mpr (hname ▸ hedge))
      · obtain ⟨k, hk⟩ := hnext.exists_position hnamed
        exact (ih k hk).head ((edge_dependencies hnamed i k).mpr (hname ▸ hk ▸ hedge))

/-- A cycle of positions is one of names. -/
theorem transGen_dependencies (hnamed : Named structs) (i : Fin (sortDeclarations structs).length) :
    TransGen (Edge (dependencies (sortDeclarations structs))) i i ↔
      TransGen (Contains structs) ((sortDeclarations structs).get i).name
        ((sortDeclarations structs).get i).name := by
  constructor
  · intro h
    obtain ⟨j, hedge, hback⟩ := TransGen.head'_iff.mp h
    exact TransGen.head' ((edge_dependencies hnamed i j).mp hedge)
      ((reflTransGen_dependencies hnamed j i).mp hback)
  · intro h
    obtain ⟨name, hedge, hback⟩ := TransGen.head'_iff.mp h
    rcases hback.cases_head with rfl | ⟨d, hnext, -⟩
    · exact .single ((edge_dependencies hnamed i i).mpr hedge)
    · obtain ⟨k, rfl⟩ := hnext.exists_position hnamed
      exact TransGen.head' ((edge_dependencies hnamed i k).mpr hedge)
        ((reflTransGen_dependencies hnamed k i).mpr hback)

/-- What a type is made of, as a path of structs. -/
theorem reaches_iff {ty : ValueType} {name : String} : Reaches structs ty name ↔
    ∃ first, ty.structName = some first ∧ ReflTransGen (Contains structs) first name := by
  constructor
  · intro h
    induction h with
    | here hname => exact ⟨_, hname, .refl⟩
    | field _ hlookup hfield hname ih =>
      obtain ⟨first, hfirst, hpath⟩ := ih
      exact ⟨first, hfirst, hpath.tail ⟨_, _, hlookup, hfield, hname⟩⟩
  · rintro ⟨first, hfirst, hpath⟩
    induction hpath with
    | refl => exact .here hfirst
    | tail _ hedge ih =>
      obtain ⟨declaration, field, hlookup, hfield, hname⟩ := hedge
      exact .field ih hlookup hfield hname

/-- The declarations of a program are in its table under their own names. -/
theorem named_declareStructs (declarations : List StructDecl) {names : HashMap String}
    (hnamed : Named structs) : Named (declareStructs structs names declarations).value.1 := by
  induction declarations generalizing structs names with
  | nil => exact hnamed
  | cons declaration rest ih =>
    refine ih fun name declared hlookup => ?_
    by_cases hsame : name = declaration.name
    · subst hsame
      rw [AList.lookup_insert] at hlookup
      exact congrArg _ (Option.some.inj hlookup).symm
    · rw [AList.lookup_insert_ne hsame] at hlookup
      exact hnamed name declared hlookup

namespace StructTypeAnalysis

/-- The structs with an unresolved length in what they are made of. -/
theorem mem_invalidLengths (hnamed : Named structs) {name : String} :
    name ∈ (new structs).1.invalidLengths ↔ ∃ name' declaration field,
      ReflTransGen (Contains structs) name name' ∧ structs.lookup name' = some declaration ∧
        field ∈ declaration.fields ∧ field.ty.hasInvalidArrayLength := by
  have hnodup : (invalidMembers (sortDeclarations structs)).reverse.Nodup :=
    List.nodup_reverse.mpr ((List.nodup_finRange _).filter _)
  have hmarked := mem_spread_dependents (fun a b => mem_dependents (sortDeclarations structs) a b)
    hnodup fun _ => List.mem_reverse.symm
  have hinvalid (i : Fin (sortDeclarations structs).length) :
      i ∈ invalidMembers (sortDeclarations structs) ↔ ∃ field ∈
        ((sortDeclarations structs).get i).fields, field.ty.hasInvalidArrayLength := by
    rw [invalidMembers, List.mem_filter, and_iff_right (List.mem_finRange i), List.any_eq_true]
  have hnew : name ∈ (new structs).1.invalidLengths ↔
      ∃ i, i ∈ (spread (dependents (sortDeclarations structs))
        (invalidMembers (sortDeclarations structs))
        (invalidMembers (sortDeclarations structs)).reverse []).1 ∧
          ((sortDeclarations structs).get i).name = name := by
    simp only [new, List.mem_map, List.mem_filter, List.mem_finRange, true_and, decide_eq_true_eq]
  rw [hnew]
  constructor
  · rintro ⟨i, hi, rfl⟩
    obtain ⟨j, hj, hpath⟩ := (hmarked i).mp hi
    obtain ⟨field, hfield, hlength⟩ := (hinvalid j).mp (List.mem_reverse.mp hj)
    have hlookup := (mem_sortDeclarations hnamed).mp (List.get_mem (sortDeclarations structs) j)
    exact ⟨_, _, field, (reflTransGen_dependencies hnamed i j).mp hpath, hlookup, hfield, hlength⟩
  · rintro ⟨name', declaration, field, hpath, hlookup, hfield, hlength⟩
    obtain ⟨j, hj, hname'⟩ := exists_position hnamed hlookup
    have hi : ∃ i, ((sortDeclarations structs).get i).name = name := by
      rcases hpath.cases_head with rfl | ⟨c, hnext, -⟩
      · exact ⟨j, hname'⟩
      · exact hnext.exists_position hnamed
    obtain ⟨i, rfl⟩ := hi
    refine ⟨i, (hmarked i).mpr ⟨j, List.mem_reverse.mpr ((hinvalid j).mpr ?_), ?_⟩, rfl⟩
    · exact ⟨field, hj ▸ hfield, hlength⟩
    · exact (reflTransGen_dependencies hnamed i j).mpr (hname' ▸ hpath)

/-- The diagnostic of a struct that contains itself. -/
def diagnostic (declaration : StructDecl) : Diagnostic :=
  ⟨s!"recursive value type is not supported: struct `{declaration.name}` contains itself",
    declaration.span⟩

/-- The structs that are reported : in their order, the ones on cycles. -/
theorem recursiveDiagnostics_spec (hnamed : Named structs) : ∃ members : List StructDecl,
    recursiveDiagnostics structs = members.map diagnostic ∧ members.Pairwise Before ∧
      ∀ declaration, declaration ∈ members ↔
        structs.lookup declaration.name = some declaration ∧
          TransGen (Contains structs) declaration.name declaration.name := by
  let declarations := sortDeclarations structs
  let recursive := recursiveMembers (dependencies declarations) (dependents declarations)
  have hrecursive (i : Fin declarations.length) : i ∈ recursive ↔
      TransGen (Contains structs) (declarations.get i).name (declarations.get i).name :=
    (mem_recursiveMembers (fun a b => mem_dependents declarations a b) i).trans
      (transGen_dependencies hnamed i)
  refine ⟨((List.finRange declarations.length).filter (· ∈ recursive)).map declarations.get,
    ?_, ?_, fun declaration => ?_⟩
  · rw [List.map_map]
    rfl
  · have hsorted : ((List.finRange declarations.length).map declarations.get).Pairwise Before := by
      rw [List.map_get_finRange]
      exact sortDeclarations_before hnamed
    exact hsorted.sublist (List.filter_sublist.map _)
  · rw [List.mem_map]
    constructor
    · rintro ⟨i, hi, rfl⟩
      have hcycle := (hrecursive i).mp (of_decide_eq_true (List.mem_filter.mp hi).2)
      exact ⟨(mem_sortDeclarations hnamed).mp (List.get_mem declarations i), hcycle⟩
    · rintro ⟨hlookup, hcycle⟩
      obtain ⟨i, rfl⟩ := List.mem_iff_get.mp ((mem_sortDeclarations hnamed).mpr hlookup)
      exact ⟨i, List.mem_filter.mpr ⟨List.mem_finRange i, decide_eq_true ((hrecursive i).mpr hcycle)⟩,
        rfl⟩

end StructTypeAnalysis

/-- The analysis is exact : it reports the structs that contain themselves, each once and in order,
and a type has failed when a length in what it is made of is unresolved. -/
theorem structTypeAnalysis_exact (hnamed : Named structs) :
    (∃ members : List StructDecl,
      (StructTypeAnalysis.new structs).2 = members.map StructTypeAnalysis.diagnostic ∧
        members.Pairwise Before ∧ ∀ declaration, declaration ∈ members ↔
          structs.lookup declaration.name = some declaration ∧
            TransGen (Contains structs) declaration.name declaration.name) ∧
      ∀ ty, (StructTypeAnalysis.new structs).1.resolutionFailed ty = true ↔
        ty.hasInvalidArrayLength ∨ ∃ name declaration field, Reaches structs ty name ∧
          structs.lookup name = some declaration ∧ field ∈ declaration.fields ∧
            field.ty.hasInvalidArrayLength := by
  refine ⟨StructTypeAnalysis.recursiveDiagnostics_spec hnamed, fun ty => ?_⟩
  rw [StructTypeAnalysis.resolutionFailed, Bool.or_eq_true, Option.any_eq_true]
  refine or_congr_right ?_
  simp only [decide_eq_true_eq, StructTypeAnalysis.mem_invalidLengths hnamed, reaches_iff]
  constructor
  · rintro ⟨first, hfirst, name, declaration, field, hpath, hrest⟩
    exact ⟨name, declaration, field, ⟨first, hfirst, hpath⟩, hrest⟩
  · rintro ⟨name, declaration, field, ⟨first, hfirst, hpath⟩, hrest⟩
    exact ⟨first, hfirst, name, declaration, field, hpath, hrest⟩

end Declarations

/-- A struct in an array of its own, and a wrapper of it. -/
def nestedStructs : List StructDecl :=
  [⟨"Node", [⟨"next", .array (.struct "Node") (.resolved 2), ⟨⟨0⟩, 0, 0⟩⟩], ⟨⟨0⟩, 0, 0⟩⟩,
    ⟨"Holder", [⟨"node", .struct "Node", ⟨⟨0⟩, 1, 1⟩⟩], ⟨⟨0⟩, 1, 1⟩⟩]

theorem structTypeAnalysis_exact_nested :
    let structs := (declareStructs ∅ ∅ nestedStructs).value.1
    Named structs ∧ TransGen (Contains structs) "Node" "Node" ∧ ∃ members : List StructDecl,
      (StructTypeAnalysis.new structs).2 = members.map StructTypeAnalysis.diagnostic ∧
        members.Pairwise Before ∧ ∀ declaration, declaration ∈ members ↔
          structs.lookup declaration.name = some declaration ∧
            TransGen (Contains structs) declaration.name declaration.name := by
  intro structs
  have hnamed : Named structs := named_declareStructs nestedStructs nofun
  have hcycle : Contains structs "Node" "Node" :=
    ⟨_, _, rfl, List.mem_cons_self, rfl⟩
  exact ⟨hnamed, .single hcycle, (structTypeAnalysis_exact hnamed).1⟩

end Speck
