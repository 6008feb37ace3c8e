import Mathlib.Data.Set.Basic

/-!
# Paths of a flow graph

The paths from the entry of a graph of blocks, and what is defined on all of them. Where every edge
carries only what is defined at its start (`Carries`), what is defined in front of a block is defined in
a block that every path to it has left (`Path.defined`).
-/

namespace FlowGraph

variable {Block Name : Type} {entry : Block} {next : Block → Block → Prop}

/-- The blocks that a path has left, and the block that it has reached. -/
inductive Path (entry : Block) (next : Block → Block → Prop) : List Block → Block → Prop
  | entry : Path entry next [] entry
  | step {left : List Block} {a b : Block} : Path entry next left a → next a b →
    Path entry next (left ++ [a]) b

/-- Nothing is defined in front of the entry, and in front of another block only what is defined in
front of or in each block that goes to it. -/
structure Carries (entry : Block) (next : Block → Block → Prop) (inside before : Block → Set Name) :
    Prop where
  entry : before entry = ∅
  next : ∀ {a b}, next a b → before b ⊆ before a ∪ inside a

theorem Path.defined {inside before : Block → Set Name} (hcarries : Carries entry next inside before)
    {left : List Block} {b : Block} (h : Path entry next left b) {name : Name}
    (hname : name ∈ before b) : ∃ a ∈ left, name ∈ inside a := by
  induction h with
  | entry =>
    rw [hcarries.entry] at hname
    exact hname.elim
  | @step left a b hpath hnext ih =>
    rcases hcarries.next hnext hname with hbefore | hinside
    · obtain ⟨home, hhome, hdefined⟩ := ih hbefore
      exact ⟨home, List.mem_append_left _ hhome, hdefined⟩
    · exact ⟨a, List.mem_append_right _ (List.mem_singleton_self a), hinside⟩

end FlowGraph
