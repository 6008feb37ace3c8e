import Mathlib.Data.List.FinRange
import Mathlib.Data.List.Sort
import Speck.TypeResolution

/-!
# The graph of struct declarations

`sema/struct_graph.rs` : which structs contain themselves, found as the strongly connected
components of the declarations (Kosaraju's two passes with explicit stacks), and which ones
contain a field whose array length could not be resolved. A vertex is the position of a
declaration.
-/

namespace Speck

/-! ## The two passes -/

section Graph

variable {n : ℕ} (edges : Fin n → List (Fin n))

/-- The first pass from one root : every vertex is finished after the ones it reaches. A
frame holds a vertex and the next of its edges. -/
def finishFrom (visited finished : List (Fin n)) (stack : List (Fin n × ℕ)) :
    List (Fin n) × List (Fin n) :=
  match stack with
  | [] => (visited, finished)
  | (node, nextEdge) :: stack =>
    match _h : (edges node)[nextEdge]? with
    | some target =>
      if target ∈ visited then finishFrom visited finished ((node, nextEdge + 1) :: stack)
      else finishFrom (target :: visited) finished ((target, 0) :: (node, nextEdge + 1) :: stack)
    | none => finishFrom visited (finished ++ [node]) stack
termination_by unseenWeight (List.finRange n) (fun v => (edges v).length + 2) visited +
  (stack.map fun frame => (edges frame.1).length - frame.2 + 1).sum
decreasing_by
  · have := (List.getElem?_eq_some_iff.mp _h).1
    simp only [List.map_cons, List.sum_cons]
    omega
  · have hlt := (List.getElem?_eq_some_iff.mp _h).1
    have := unseenWeight_cons (List.nodup_finRange n) (fun v => (edges v).length + 2) (by assumption)
      (List.mem_finRange target)
    simp only [List.map_cons, List.sum_cons]
    omega
  · simp only [List.map_cons, List.sum_cons]
    omega

def finishOrder : List (Fin n) :=
  ((List.finRange n).foldl (fun state root =>
    if root ∈ state.1 then state else finishFrom edges (root :: state.1) state.2 [(root, 0)])
    ([], [])).2

/-- Mark the unmarked targets of one vertex and queue them. -/
def markAll (targets : List (Fin n)) (visited pending : List (Fin n)) :
    List (Fin n) × List (Fin n) :=
  targets.foldl (fun state target =>
    if target ∈ state.1 then state else (target :: state.1, target :: state.2)) (visited, pending)

theorem weight_markAll (targets visited pending : List (Fin n)) :
    unseenWeight (List.finRange n) (fun _ => 1) (markAll targets visited pending).1 +
        (markAll targets visited pending).2.length =
      unseenWeight (List.finRange n) (fun _ => 1) visited + pending.length := by
  induction targets generalizing visited pending with
  | nil => rfl
  | cons target targets ih =>
    rw [markAll, List.foldl_cons, ← markAll]
    by_cases h : target ∈ visited
    · rw [if_pos h]
      exact ih visited pending
    · rw [if_neg h, ih]
      have := unseenWeight_cons (List.nodup_finRange n) (fun _ => 1) h (List.mem_finRange target)
      simp only [List.length_cons]
      omega

/-- Everything marked from the pending vertices along the edges, and the vertices popped. -/
def spread (visited pending popped : List (Fin n)) : List (Fin n) × List (Fin n) :=
  match pending with
  | [] => (visited, popped)
  | node :: pending =>
    let marked := markAll (edges node) visited pending
    spread marked.1 marked.2 (popped ++ [node])
termination_by unseenWeight (List.finRange n) (fun _ => 1) visited + pending.length
decreasing_by
  have := weight_markAll (edges node) visited pending
  simp only [List.length_cons]
  omega

end Graph

/-- The vertices on a cycle : the members of the components with an edge inside. -/
def recursiveMembers {n : ℕ} (dependencies dependents : Fin n → List (Fin n)) : List (Fin n) :=
  ((finishOrder dependencies).reverse.foldl (fun state root =>
    if root ∈ state.1 then state
    else
      let component := spread dependents (root :: state.1) [root] []
      if 1 < component.2.length ∨ root ∈ dependencies root then
        (component.1, state.2 ++ component.2)
      else (component.1, state.2)) ([], [])).2

/-! ## Declarations -/

/-- The declarations in the order of their positions. -/
def sortDeclarations (structs : HashMap StructDecl) : List StructDecl :=
  (structs.entries.map (·.2)).insertionSort fun a b =>
    a.span.start < b.span.start ∨ a.span.start = b.span.start ∧ a.name ≤ b.name

def declarationIndex (declarations : List StructDecl) (name : String) :
    Option (Fin declarations.length) :=
  (List.finRange declarations.length).find? fun i => (declarations.get i).name == name

/-- The declarations that the fields of declaration `i` are made of. -/
def dependencies (declarations : List StructDecl) (i : Fin declarations.length) :
    List (Fin declarations.length) :=
  (declarations.get i).fields.filterMap fun field =>
    field.ty.structName.bind (declarationIndex declarations)

def dependents (declarations : List StructDecl) (j : Fin declarations.length) :
    List (Fin declarations.length) :=
  (List.finRange declarations.length).flatMap fun i =>
    ((dependencies declarations i).filter (· = j)).map fun _ => i

structure StructTypeAnalysis where
  invalidLengths : HashSet

namespace StructTypeAnalysis

/-- The declarations with an unresolved length of their own. -/
def invalidMembers (declarations : List StructDecl) : List (Fin declarations.length) :=
  (List.finRange declarations.length).filter fun i =>
    (declarations.get i).fields.any (·.ty.hasInvalidArrayLength)

def recursiveDiagnostics (structs : HashMap StructDecl) : List Diagnostic :=
  let declarations := sortDeclarations structs
  let recursive := recursiveMembers (dependencies declarations) (dependents declarations)
  ((List.finRange declarations.length).filter (· ∈ recursive)).map fun i =>
    ⟨s!"recursive value type is not supported: struct `{(declarations.get i).name}` contains itself",
      (declarations.get i).span⟩

def new (structs : HashMap StructDecl) : StructTypeAnalysis × List Diagnostic :=
  let declarations := sortDeclarations structs
  let invalid := invalidMembers declarations
  let marked := (spread (dependents declarations) invalid invalid.reverse []).1
  (⟨((List.finRange declarations.length).filter (· ∈ marked)).map fun i =>
      (declarations.get i).name⟩, recursiveDiagnostics structs)

def resolutionFailed (analysis : StructTypeAnalysis) (ty : ValueType) : Bool :=
  ty.hasInvalidArrayLength || ty.structName.any (· ∈ analysis.invalidLengths)

/-- Without an unresolved length in a declaration, none is propagated. -/
theorem invalidLengths_new {structs : HashMap StructDecl}
    (h : ∀ name declaration, structs.lookup name = some declaration →
      ∀ field ∈ declaration.fields, field.ty.hasInvalidArrayLength = false) :
    (new structs).1.invalidLengths = [] := by
  have hnone : invalidMembers (sortDeclarations structs) = [] := by
    rw [invalidMembers, List.filter_eq_nil_iff]
    intro i _
    simp only [List.any_eq_true, not_exists, not_and, Bool.not_eq_true]
    intro field hfield
    have hmem : (sortDeclarations structs).get i ∈ structs.entries.map (·.2) :=
      (List.mem_insertionSort _).mp (List.get_mem _ i)
    obtain ⟨entry, hentry, heq⟩ := List.mem_map.mp hmem
    refine h entry.1 entry.2 ?_ field (heq ▸ hfield)
    exact List.mem_dlookup structs.nodupKeys hentry
  simp [new, hnone, spread]

end StructTypeAnalysis

end Speck
