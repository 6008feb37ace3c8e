import Mathlib.Data.List.AList
import Speck.F32

/-!
# Abstract syntax

The syntax tree of `ast.rs`, with its spans. An expression carries its span in every
constructor (`Expr.span`). The target of a conversion is a numeric type : the parser
builds `i32(..)` and `f32(..)` only (`NumericType`).
-/

namespace Speck

/-- A map with string keys, `std::collections::HashMap<String, _>`. -/
abbrev HashMap (α : Type) := AList fun _ : String => α

namespace HashMap

variable {α : Type}

/-- Insert pairs in order; a later pair replaces an earlier one. -/
def extend (m : HashMap α) (pairs : List (String × α)) : HashMap α :=
  pairs.foldl (fun m p => m.insert p.1 p.2) m

/-- `collect()`. -/
def ofList (pairs : List (String × α)) : HashMap α := extend ∅ pairs

theorem lookup_extend_of_notMem {m : HashMap α} {pairs : List (String × α)} {k : String}
    (h : k ∉ pairs.map (·.1)) : (m.extend pairs).lookup k = m.lookup k := by
  induction pairs generalizing m with
  | nil => rfl
  | cons p pairs ih =>
    simp only [List.map_cons, List.mem_cons, not_or] at h
    rw [extend, List.foldl_cons, ← extend, ih h.2, AList.lookup_insert_ne h.1]

theorem lookup_extend_of_mem {m : HashMap α} {pairs : List (String × α)} {k : String} {v : α}
    (hnodup : (pairs.map (·.1)).Nodup) (h : (k, v) ∈ pairs) :
    (m.extend pairs).lookup k = some v := by
  induction pairs generalizing m with
  | nil => simp at h
  | cons p pairs ih =>
    simp only [List.map_cons, List.nodup_cons] at hnodup
    rw [extend, List.foldl_cons, ← extend]
    rcases List.mem_cons.mp h with rfl | h
    · rw [lookup_extend_of_notMem hnodup.1, AList.lookup_insert]
    · exact ih hnodup.2 h

/-- A collected value is one of the pairs, or was there before. -/
theorem mem_of_lookup_extend {m : HashMap α} {pairs : List (String × α)} {k : String} {v : α}
    (h : (m.extend pairs).lookup k = some v) : (k, v) ∈ pairs ∨ m.lookup k = some v := by
  induction pairs generalizing m with
  | nil => exact .inr h
  | cons p pairs ih =>
    rw [extend, List.foldl_cons, ← extend] at h
    rcases ih h with hm | hm
    · exact .inl (List.mem_cons_of_mem _ hm)
    · by_cases hk : k = p.1
      · subst hk
        rw [AList.lookup_insert] at hm
        obtain rfl := Option.some.inj hm
        exact .inl List.mem_cons_self
      · rw [AList.lookup_insert_ne hk] at hm
        exact .inr hm

theorem mem_of_lookup_ofList {pairs : List (String × α)} {k : String} {v : α}
    (h : (ofList pairs).lookup k = some v) : (k, v) ∈ pairs := by
  simpa using mem_of_lookup_extend h

theorem lookup_ofList_of_mem {pairs : List (String × α)} {k : String} {v : α}
    (hnodup : (pairs.map (·.1)).Nodup) (h : (k, v) ∈ pairs) : (ofList pairs).lookup k = some v :=
  lookup_extend_of_mem hnodup h

theorem lookup_ofList_eq_none {pairs : List (String × α)} {k : String}
    (h : k ∉ pairs.map (·.1)) : (ofList pairs).lookup k = none := by
  rw [ofList, lookup_extend_of_notMem h, AList.lookup_empty]

theorem mem_extend {m : HashMap α} {pairs : List (String × α)} {k : String} :
    k ∈ m.extend pairs ↔ k ∈ m ∨ k ∈ pairs.map (·.1) := by
  induction pairs generalizing m with
  | nil => simp [extend]
  | cons p pairs ih =>
    rw [extend, List.foldl_cons, ← extend, ih, AList.mem_insert, List.map_cons, List.mem_cons]
    tauto

theorem mem_ofList {pairs : List (String × α)} {k : String} :
    k ∈ ofList pairs ↔ k ∈ pairs.map (·.1) := by
  rw [ofList, mem_extend]
  simp

theorem lookup_extend_map {β : Type} (f : α → β) (m : HashMap α) (m' : HashMap β)
    (pairs : List (String × α)) (k : String) (h : m'.lookup k = (m.lookup k).map f) :
    (m'.extend (pairs.map fun p => (p.1, f p.2))).lookup k = ((m.extend pairs).lookup k).map f := by
  induction pairs generalizing m m' with
  | nil => exact h
  | cons p pairs ih =>
    rw [List.map_cons]
    refine ih (m.insert p.1 p.2) (m'.insert p.1 (f p.2)) ?_
    by_cases hk : k = p.1
    · subst hk
      rw [AList.lookup_insert, AList.lookup_insert]
      rfl
    · rw [AList.lookup_insert_ne hk, AList.lookup_insert_ne hk, h]

/-- Collecting commutes with a function on the values. -/
theorem lookup_ofList_map {β : Type} (f : α → β) (pairs : List (String × α)) (k : String) :
    (ofList (pairs.map fun p => (p.1, f p.2))).lookup k = ((ofList pairs).lookup k).map f :=
  lookup_extend_map f ∅ ∅ pairs k rfl

/-- A name of the list has the one value, any other keeps its own. -/
theorem lookup_extend_const {β : Type} (m : HashMap α) (as : List β) (f : β → String) (v : α)
    (k : String) : (m.extend (as.map fun a => (f a, v))).lookup k =
      if k ∈ as.map f then some v else m.lookup k := by
  induction as generalizing m with
  | nil => rfl
  | cons a as ih =>
    rw [List.map_cons, extend, List.foldl_cons, ← extend, ih]
    simp only [List.map_cons, List.mem_cons]
    by_cases hmem : k ∈ as.map f
    · simp [hmem]
    · by_cases hk : k = f a
      · subst hk
        simp [AList.lookup_insert]
      · simp [hmem, hk, AList.lookup_insert_ne hk]

theorem lookup_singleton {k k' : String} {v v' : α} :
    (AList.singleton k v : HashMap α).lookup k' = some v' ↔ k' = k ∧ v = v' := by
  rw [← AList.insert_empty]
  by_cases hk : k' = k
  · subst hk
    rw [AList.lookup_insert]
    simp
  · rw [AList.lookup_insert_ne hk]
    simp [hk]

end HashMap

/-- Distinct keys tell the elements of a list apart. -/
theorem find?_key_of_mem {α : Type} (key : α → String) {as : List α} {a : α}
    (hnodup : (as.map key).Nodup) (h : a ∈ as) : as.find? (key · == key a) = some a := by
  induction as with
  | nil => cases h
  | cons b as ih =>
    obtain ⟨hnew, hnodup⟩ := List.nodup_cons.mp hnodup
    rcases List.mem_cons.mp h with rfl | h
    · simp
    · have hne : key b ≠ key a := fun heq => hnew (List.mem_map.mpr ⟨a, h, heq.symm⟩)
      rw [List.find?_cons, beq_false_of_ne hne]
      exact ih hnodup h

/-! ## Spans and diagnostics -/

/-- The index of a file in the source map. -/
structure SourceId where
  id : ℕ
  deriving DecidableEq, Repr, Inhabited

/-- Byte offsets into one file. -/
structure Span where
  source : SourceId
  start : ℕ
  stop : ℕ
  deriving DecidableEq, Repr, Inhabited

structure Diagnostic where
  message : String
  span : Span
  deriving DecidableEq, Repr

/-! ## Types -/

inductive ArrayLength where
  | literal (value : ℤ) (span : Span)
  | constant (name : String) (span : Span)
  | resolved (length : ℕ)
  | invalid
  deriving DecidableEq, Repr

inductive ValueType where
  | i32
  | f32
  | bool
  | struct (name : String)
  | array (element : ValueType) (length : ArrayLength)
  deriving DecidableEq, Repr

def ArrayLength.display : ArrayLength → String
  | .literal value _ => toString value
  | .constant name _ => name
  | .resolved value => toString value
  | .invalid => "<invalid>"

namespace ValueType

def name : ValueType → String
  | i32 => "i32"
  | f32 => "f32"
  | bool => "bool"
  | struct name => name
  | array element length => s!"[{element.name}; {length.display}]"

def isNumeric : ValueType → Bool
  | i32 | f32 => true
  | _ => false

def resolvedArray : ValueType → Option (ValueType × ℕ)
  | array element (.resolved length) => some (element, length)
  | _ => none

def hasInvalidArrayLength : ValueType → Bool
  | array element length => length == .invalid || element.hasInvalidArrayLength
  | _ => false

end ValueType

/-- The target of a numeric conversion. -/
abbrev NumericType := {ty : ValueType // ty.isNumeric}

theorem isNumeric_i32 : ValueType.i32.isNumeric := rfl

theorem isNumeric_f32 : ValueType.f32.isNumeric := rfl

inductive ReturnType where
  | value (ty : ValueType)
  | void
  deriving DecidableEq, Repr

def ReturnType.name : ReturnType → String
  | value ty => ty.name
  | void => "void"

def ReturnType.valueType : ReturnType → Option ValueType
  | value ty => some ty
  | void => none

/-! ## Constant values -/

inductive ConstantValue where
  | i32 (value : I32)
  | f32 (value : F32)
  | bool (value : Bool)
  | struct (name : String) (fields : List (String × ConstantValue))
  | array (elementType : ValueType) (elements : List ConstantValue)

/-- The type of a value, read off its surface. -/
def ConstantValue.ty : ConstantValue → ValueType
  | i32 _ => .i32
  | f32 _ => .f32
  | bool _ => .bool
  | struct name _ => .struct name
  | array elementType elements => .array elementType (.resolved elements.length)

/-! ## Expressions -/

inductive UnaryOp where
  | negate
  | not
  deriving DecidableEq, Repr

inductive BinaryOp where
  | add
  | subtract
  | multiply
  | divide
  | remainder
  | equal
  | notEqual
  | less
  | lessEqual
  | greater
  | greaterEqual
  | logicalAnd
  | logicalOr
  deriving DecidableEq, Repr

/-- `&&` and `||`. -/
def BinaryOp.isLogical : BinaryOp → Bool
  | logicalAnd | logicalOr => true
  | _ => false

/-- One `name: value` of a struct literal, over the expressions being defined. -/
structure FieldInitializer (E : Type) where
  name : String
  value : E
  span : Span

inductive Expr where
  | i32 (value : ℤ) (span : Span)
  | f32 (value : F32) (span : Span)
  | bool (value : Bool) (span : Span)
  | arrayLiteral (elements : List Expr) (span : Span)
  | structLiteral (name : String) (fields : List (FieldInitializer Expr)) (span : Span)
  | var (name : String) (span : Span)
  | index (base index : Expr) (span : Span)
  | field (base : Expr) (name : String) (nameSpan : Span) (span : Span)
  | unary (op : UnaryOp) (operand : Expr) (span : Span)
  | binary (left : Expr) (op : BinaryOp) (right : Expr) (span : Span)
  | call (name : String) (args : List Expr) (span : Span)
  | conversion (target : NumericType) (args : List Expr) (span : Span)

namespace Expr

def span : Expr → Span
  | i32 _ s | f32 _ s | bool _ s | arrayLiteral _ s | structLiteral _ _ s | var _ s => s
  | index _ _ s | field _ _ _ s | unary _ _ s | binary _ _ _ s | call _ _ s => s
  | conversion _ _ s => s

/-- Is this the literal `2147483648`, whose negation is read as `i32::MIN`? -/
def isMinMagnitude : Expr → Bool
  | i32 value _ => value == 2147483648
  | _ => false

def isArrayLiteral : Expr → Bool
  | arrayLiteral _ _ => true
  | _ => false

def isVar : Expr → Bool
  | var _ _ => true
  | _ => false

/-- Induction on expressions, with the hypothesis for every element, argument and field
initializer of a node. -/
@[elab_as_elim, induction_eliminator]
theorem induct {P : Expr → Prop}
    (i32 : ∀ value span, P (.i32 value span))
    (f32 : ∀ value span, P (.f32 value span))
    (bool : ∀ value span, P (.bool value span))
    (arrayLiteral : ∀ elements span, (∀ e ∈ elements, P e) → P (.arrayLiteral elements span))
    (structLiteral : ∀ name fields span, (∀ f ∈ fields, P f.value) →
      P (.structLiteral name fields span))
    (var : ∀ name span, P (.var name span))
    (index : ∀ base index span, P base → P index → P (.index base index span))
    (field : ∀ base name nameSpan span, P base → P (.field base name nameSpan span))
    (unary : ∀ op operand span, P operand → P (.unary op operand span))
    (binary : ∀ left op right span, P left → P right → P (.binary left op right span))
    (call : ∀ name args span, (∀ e ∈ args, P e) → P (.call name args span))
    (conversion : ∀ target args span, (∀ e ∈ args, P e) → P (.conversion target args span))
    (e : Expr) : P e :=
  Expr.rec (motive_1 := P) (motive_2 := fun es => ∀ e ∈ es, P e)
    (motive_3 := fun fs => ∀ f ∈ fs, P f.value) (motive_4 := fun f => P f.value)
    i32 f32 bool (fun es s ih => arrayLiteral es s ih)
    (fun n fs s ih => structLiteral n fs s ih) var
    (fun b i s hb hi => index b i s hb hi) (fun b n ns s hb => field b n ns s hb)
    (fun op e s he => unary op e s he) (fun l op r s hl hr => binary l op r s hl hr)
    (fun n es s ih => call n es s ih) (fun t es s ih => conversion t es s ih)
    (by simp) (fun _ _ h ht => by simpa using ⟨h, ht⟩)
    (by simp) (fun _ _ h ht => by simpa using ⟨h, ht⟩)
    (fun _ _ _ h => h) e

end Expr

/-! ## Statements -/

inductive AssignOp where
  | set
  | add
  | subtract
  | multiply
  | divide
  | remainder
  deriving DecidableEq, Repr

inductive Stmt where
  | letVar (name : String) (ty : ValueType) (init : Expr) (span : Span)
  | assign (target : Expr) (op : AssignOp) (value : Expr) (span : Span)
  | expr (expression : Expr) (span : Span)
  | ifElse (condition : Expr) (thenBlock : List Stmt) (elseBlock : Option (List Stmt))
      (span : Span)
  | whileLoop (condition : Expr) (body : List Stmt) (span : Span)
  | forLoop (name : String) (nameSpan : Span) (lower upper : Expr) (body : List Stmt)
      (span : Span)
  | ret (value : Option Expr) (span : Span)

abbrev Block := List Stmt

namespace Stmt

def span : Stmt → Span
  | letVar _ _ _ s | assign _ _ _ s | expr _ s | ifElse _ _ _ s => s
  | whileLoop _ _ s | forLoop _ _ _ _ _ s | ret _ s => s

/-- Induction on statements, with the hypothesis for every statement of a nested block. -/
@[elab_as_elim, induction_eliminator]
theorem induct {P : Stmt → Prop}
    (letVar : ∀ name ty init span, P (.letVar name ty init span))
    (assign : ∀ target op value span, P (.assign target op value span))
    (expr : ∀ expression span, P (.expr expression span))
    (ifElse : ∀ condition thenBlock elseBlock span, (∀ s ∈ thenBlock, P s) →
      (∀ block ∈ elseBlock, ∀ s ∈ block, P s) → P (.ifElse condition thenBlock elseBlock span))
    (whileLoop : ∀ condition body span, (∀ s ∈ body, P s) → P (.whileLoop condition body span))
    (forLoop : ∀ name nameSpan lower upper body span, (∀ s ∈ body, P s) →
      P (.forLoop name nameSpan lower upper body span))
    (ret : ∀ value span, P (.ret value span)) (s : Stmt) : P s :=
  Stmt.rec (motive_1 := P) (motive_2 := fun ss => ∀ s ∈ ss, P s)
    (motive_3 := fun o => ∀ block ∈ o, ∀ s ∈ block, P s)
    letVar assign expr (fun c t e s ht he => ifElse c t e s ht he)
    (fun c b s ih => whileLoop c b s ih) (fun n ns l u b s ih => forLoop n ns l u b s ih) ret
    (by simp) (fun _ _ h ht => by simpa using ⟨h, ht⟩)
    (by simp) (fun _ h => by simpa using h) s

end Stmt

/-! ## Programs -/

/-- A logical framebuffer size. -/
structure Resolution where
  width : ℕ
  height : ℕ
  width_mem : 1 ≤ width ∧ width ≤ 4096
  height_mem : 1 ≤ height ∧ height ≤ 4096

theorem Resolution.dimension_mem (dimension : {value : ℕ // 1 ≤ value ∧ value ≤ 4096}) :
    1 ≤ dimension.1 ∧ dimension.1 ≤ 4096 := dimension.2

def Resolution.default : Resolution := ⟨320, 180, by decide, by decide⟩

structure SoundAsset where
  name : String
  path : String
  handle : I32
  pcm : List UInt8
  span : Span

structure StructField where
  name : String
  ty : ValueType
  span : Span

structure StructDecl where
  name : String
  fields : List StructField
  span : Span

structure Constant where
  name : String
  ty : ValueType
  init : Expr
  value : Option ConstantValue
  span : Span

structure Global where
  name : String
  ty : ValueType
  init : Expr
  value : Option ConstantValue
  span : Span

inductive FunctionKind where
  | named
  | start
  | update
  | draw
  deriving DecidableEq, Repr

structure Param where
  name : String
  ty : ValueType
  span : Span

structure Function where
  name : String
  kind : FunctionKind
  params : List Param
  returnType : ReturnType
  body : Block
  span : Span

structure Program where
  resolution : Resolution
  title : String
  titleSpan : Span
  structs : List StructDecl
  sounds : List SoundAsset
  constants : List Constant
  globals : List Global
  functions : List Function

end Speck
