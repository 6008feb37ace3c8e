import Speck.ParserExpression
import Speck.ResolvedTypes
import Speck.Walks

/-!
# The nesting of a syntax tree

A path from a block goes down through nested blocks and then through expression edges, and a path
in a type through its elements. `check_expression` bounds the paths from an expression
(`within_of_checkPending`).
-/

namespace Speck

/-- What a later pass recurses on. -/
inductive SyntaxNode where
  | block (statements : Block)
  | expression (e : Expr)

/-- The blocks and expressions of a statement. -/
def Stmt.parts : Stmt → List SyntaxNode
  | .letVar _ _ init _ => [.expression init]
  | .assign target _ value _ => [.expression target, .expression value]
  | .expr e _ => [.expression e]
  | .ifElse condition thenBlock elseBlock _ =>
    .expression condition :: .block thenBlock :: (elseBlock.map SyntaxNode.block).toList
  | .whileLoop condition body _ => [.expression condition, .block body]
  | .forLoop _ _ lower upper body _ => [.expression lower, .expression upper, .block body]
  | .ret value _ => (value.map SyntaxNode.expression).toList

def SyntaxNode.parts : SyntaxNode → List SyntaxNode
  | .block statements => statements.flatMap Stmt.parts
  | .expression e => e.parts.map SyntaxNode.expression

def ValueType.parts : ValueType → List ValueType
  | .array element _ => [element]
  | _ => []

/-- No path from the node has more than `limit` nodes. -/
abbrev SyntaxNode.Within (limit : ℕ) (node : SyntaxNode) : Prop :=
  Speck.Within SyntaxNode.parts limit node

abbrev Expr.Within (limit : ℕ) (e : Expr) : Prop := SyntaxNode.Within limit (.expression e)

abbrev ValueType.Within (limit : ℕ) (ty : ValueType) : Prop :=
  Speck.Within ValueType.parts limit ty

theorem Expr.within_of_parts {e : Expr} {limit : ℕ} (h : ∀ part ∈ e.parts, part.Within limit) :
    e.Within (limit + 1) := by
  refine Speck.Within.of_targets fun node hnode => ?_
  obtain ⟨part, hpart, rfl⟩ := List.mem_map.mp hnode
  exact h part hpart

theorem SyntaxNode.within_block {block : Block} {limit : ℕ}
    (h : ∀ statement ∈ block, ∀ node ∈ statement.parts, node.Within limit) :
    SyntaxNode.Within (limit + 1) (.block block) := by
  refine Speck.Within.of_targets fun node hnode => ?_
  obtain ⟨statement, hstatement, hnode⟩ := List.mem_flatMap.mp hnode
  exact h statement hstatement node hnode

theorem Expr.parts_withSpan (e : Expr) (span : Span) : (e.withSpan span).parts = e.parts := by
  cases e <;> rfl

theorem Expr.within_withSpan {e : Expr} {limit : ℕ} (h : e.Within limit) (span : Span) :
    (e.withSpan span).Within limit := by
  intro walk hwalk
  rcases hwalk.cases_on with rfl | ⟨node, hnode, rest, rfl, hrest⟩
  · exact h [.expression e] (.singleton _)
  · have hparts : SyntaxNode.parts (.expression (e.withSpan span)) =
        SyntaxNode.parts (.expression e) := by
      simp only [SyntaxNode.parts, Expr.parts_withSpan]
    rw [hparts] at hnode
    exact h (.expression e :: rest) (hrest.cons hnode)

open Speck.Parser (maxNesting checkPending)

/-- The worklist checks the depth of every node below its expressions. -/
theorem within_of_checkPending {pending : List (Expr × ℕ)} (h : checkPending pending = .ok ()) :
    ∀ item ∈ pending, item.2 ≤ maxNesting ∧ item.1.Within (maxNesting + 1 - item.2) := by
  fun_induction checkPending pending with
  | case1 => simp
  | case2 e depth pending hdeep => cases h
  | case3 e depth pending hdeep ih =>
    have hrest := ih h
    refine List.forall_mem_cons.mpr ⟨⟨not_lt.mp hdeep, ?_⟩, fun item hitem =>
      hrest item (List.mem_append_right _ hitem)⟩
    have hparts : ∀ part ∈ e.parts, part.Within (maxNesting - depth) := by
      intro part hpart
      have hmem : (part, depth + 1) ∈ (e.parts.map (·, depth + 1)).reverse ++ pending := by
        simp [hpart]
      have hpart := (hrest _ hmem).2
      rwa [Nat.add_sub_add_right] at hpart
    have hle := not_lt.mp hdeep
    have hlimit : maxNesting + 1 - depth = maxNesting - depth + 1 := by omega
    dsimp only
    rw [hlimit]
    exact Expr.within_of_parts hparts

end Speck
