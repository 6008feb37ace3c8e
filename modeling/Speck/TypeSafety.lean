import Speck.Effects
import Speck.Source

/-!
# Type safety

A run of a program that `check` accepts is never stuck. Every expression that it evaluates gives a
value of the type that the checker inferred, every call passes values of the declared parameter
types, every function returns a value of its return type, and no assignment writes a constant or a
loop variable.

`Typed` is the invariant of a run in the scopes of the checker, and `Safe` says that a computation
keeps it. The rules for the operations come first; the expressions follow their typing derivation
and the statements their syntax.
-/

namespace Speck

namespace Source

/-! ## Paths -/

section Paths

variable {structs : HashMap StructDecl}

inductive StepTyped (structs : HashMap StructDecl) : ValueType → Step → ValueType → Prop
  | index {element length position} : position < length →
    StepTyped structs (.array element (.resolved length)) (.index position) element
  | field {structName declaration name field} : structs.lookup structName = some declaration →
    (declaration.fields.map (·.name)).Nodup →
    declaration.fields.find? (·.name == name) = some field →
    StepTyped structs (.struct structName) (.field name) field.ty

/-- A path leads from a type to a type. -/
inductive PathTyped (structs : HashMap StructDecl) : ValueType → List Step → ValueType → Prop
  | nil {ty} : PathTyped structs ty [] ty
  | cons {ty step mid path result} : StepTyped structs ty step mid →
    PathTyped structs mid path result → PathTyped structs ty (step :: path) result

theorem PathTyped.append {ty mid result : ValueType} {path : List Step} {step : Step}
    (h : PathTyped structs ty path mid) (hstep : StepTyped structs mid step result) :
    PathTyped structs ty (path ++ [step]) result := by
  induction h with
  | nil => exact .cons hstep .nil
  | cons hfirst _ ih => exact .cons hfirst (ih hstep)

theorem StepTyped.select {ty result : ValueType} {step : Step} {v : ConstantValue}
    (h : StepTyped structs ty step result) (hv : v.HasType structs ty) :
    ∃ w, select v step = some w ∧ w.HasType structs result := by
  cases h with
  | index hposition =>
    cases hv with
    | array helements =>
      exact ⟨_, List.getElem?_eq_getElem hposition, helements _ (List.getElem_mem hposition)⟩
  | field hd _ hf =>
    obtain ⟨fields, w, rfl, hw, hty⟩ := hv.field hd hf
    exact ⟨w, hw, hty⟩

/-- Replacing a field keeps the names and the types of all. -/
theorem replace_field_typed {fields : List (String × ConstantValue)} {declared : List StructField}
    {field : StructField} {w : ConstantValue} (hnodup : (declared.map (·.name)).Nodup)
    (hfield : field ∈ declared) (hnames : fields.map (·.1) = declared.map (·.name))
    (hw : w.HasType structs field.ty)
    (hfields : ∀ p ∈ fields.zip declared, p.1.2.HasType structs p.2.ty) :
    ∀ p ∈ (fields.map fun p => if p.1 = field.name then (p.1, w) else p).zip declared,
      p.1.2.HasType structs p.2.ty := by
  intro p hp
  rw [List.zip_map_left] at hp
  obtain ⟨⟨⟨name, v⟩, d⟩, hmem, rfl⟩ := List.mem_map.mp hp
  have hname : name = d.name := by
    have hforall : List.Forall₂ (fun (p : String × ConstantValue) (d : StructField) => p.1 = d.name)
        fields declared := by
      rw [← List.forall₂_eq_eq_eq, List.forall₂_map_left_iff, List.forall₂_map_right_iff] at hnames
      exact hnames
    exact (List.forall₂_iff_zip.mp hforall).2 hmem
  by_cases heq : name = field.name
  · have hd : d = field := List.inj_on_of_nodup_map hnodup (List.of_mem_zip hmem).2 hfield
      (hname.symm.trans heq)
    simpa [heq, hd] using hw
  · simpa [heq] using hfields _ hmem

theorem StepTyped.replace {ty result : ValueType} {step : Step} {v w : ConstantValue}
    (h : StepTyped structs ty step result) (hv : v.HasType structs ty)
    (hw : w.HasType structs result) : (replace v step w).HasType structs ty := by
  cases h with
  | @index _ _ position _ =>
    cases hv with
    | @array _ elements helements =>
      have hset : ∀ v ∈ elements.set position w, v.HasType structs result := fun v hmem => by
        rcases List.mem_or_eq_of_mem_set hmem with hmem | rfl
        · exact helements v hmem
        · exact hw
      simpa [Source.replace] using ConstantValue.HasType.array hset
  | @field _ _ name field hd hnodup hf =>
    cases hv with
    | struct hd' hnames hfields =>
      obtain rfl := Option.some.inj (hd.symm.trans hd')
      obtain rfl : field.name = name := by simpa using List.find?_some hf
      refine .struct hd ?_
        (replace_field_typed hnodup (List.mem_of_find?_eq_some hf) hnames hw hfields)
      rw [← hnames, List.map_map]
      refine List.map_congr_left fun p _ => ?_
      dsimp only [Function.comp_apply]
      split <;> rfl

theorem PathTyped.readPath {ty result : ValueType} {path : List Step} {v : ConstantValue}
    (h : PathTyped structs ty path result) (hv : v.HasType structs ty) :
    ∃ w, readPath v path = some w ∧ w.HasType structs result := by
  induction h generalizing v with
  | nil => exact ⟨v, rfl, hv⟩
  | cons hstep _ ih =>
    obtain ⟨u, hu, huty⟩ := hstep.select hv
    obtain ⟨w, hw, hwty⟩ := ih huty
    exact ⟨w, by rw [Source.readPath, hu]; exact hw, hwty⟩

theorem PathTyped.writePath {ty result : ValueType} {path : List Step} {v w : ConstantValue}
    (h : PathTyped structs ty path result) (hv : v.HasType structs ty)
    (hw : w.HasType structs result) :
    ∃ v', writePath v path w = some v' ∧ v'.HasType structs ty := by
  induction h generalizing v with
  | nil => exact ⟨w, rfl, hw⟩
  | cons hstep _ ih =>
    obtain ⟨u, hu, huty⟩ := hstep.select hv
    obtain ⟨u', hu', hu'ty⟩ := ih huty hw
    exact ⟨_, by simp [Source.writePath, hu, hu'], hstep.replace hv hu'ty⟩

end Paths

/-! ## Scopes -/

/-- Values of the types, for the same names. -/
def ScopeTyped {α : Type} (structs : HashMap StructDecl) (ty : α → ValueType) (types : HashMap α)
    (values : HashMap ConstantValue) : Prop :=
  ∀ name, (∀ a, types.lookup name = some a → ∃ v, values.lookup name = some v ∧
    v.HasType structs (ty a)) ∧ (types.lookup name = none → values.lookup name = none)

section Scopes

variable {structs : HashMap StructDecl}

theorem ScopeTyped.insert {α : Type} {ty : α → ValueType} {types : HashMap α}
    {values : HashMap ConstantValue} {name : String} {a : α} {v : ConstantValue}
    (h : ScopeTyped structs ty types values) (hv : v.HasType structs (ty a)) :
    ScopeTyped structs ty (types.insert name a) (values.insert name v) := by
  intro n
  by_cases hn : n = name
  · subst hn
    rw [AList.lookup_insert, AList.lookup_insert]
    simpa using hv
  · rw [AList.lookup_insert_ne hn, AList.lookup_insert_ne hn]
    exact h n

/-- A value of the type that a name has already. -/
theorem ScopeTyped.update {α : Type} {ty : α → ValueType} {types : HashMap α}
    {values : HashMap ConstantValue} {name : String} {a : α} {v : ConstantValue}
    (h : ScopeTyped structs ty types values) (ha : types.lookup name = some a)
    (hv : v.HasType structs (ty a)) : ScopeTyped structs ty types (values.insert name v) := by
  intro n
  by_cases hn : n = name
  · subst hn
    rw [AList.lookup_insert, ha]
    simpa using hv
  · rw [AList.lookup_insert_ne hn]
    exact h n

theorem ScopeTyped.mem_iff {α : Type} {ty : α → ValueType} {types : HashMap α}
    {values : HashMap ConstantValue} (h : ScopeTyped structs ty types values)
    {name : String} : name ∈ values ↔ ∃ a, types.lookup name = some a := by
  obtain ⟨hsome, hnone⟩ := h name
  constructor
  · intro hmem
    cases ha : types.lookup name with
    | none => exact absurd (hnone ha) (AList.lookup_isSome.mpr hmem |> Option.isSome_iff_ne_none.mp)
    | some a => exact ⟨a, rfl⟩
  · rintro ⟨a, ha⟩
    obtain ⟨v, hv, -⟩ := hsome a ha
    exact AList.lookup_isSome.mp (by rw [hv]; rfl)

/-- A frame holds a value of its type for each local. -/
theorem lookupScopes_typed {scopes : Scopes}
    {locals : List (HashMap ConstantValue)} {name : String}
    (h : List.Forall₂ (ScopeTyped structs Binding.ty) scopes locals) :
    (∀ b, lookupScopes scopes name = some b →
      ∃ v, lookupScopes locals name = some v ∧ v.HasType structs b.ty) ∧
    (lookupScopes scopes name = none → lookupScopes locals name = none) := by
  induction h with
  | nil => simp [lookupScopes]
  | @cons scope values scopes locals hscope _ ih =>
    obtain ⟨hsome, hnone⟩ := hscope name
    simp only [lookupScopes, List.findSome?_cons] at ih ⊢
    cases hb : scope.lookup name with
    | none =>
      rw [hnone hb]
      exact ih
    | some b =>
      obtain ⟨v, hv, hty⟩ := hsome b hb
      rw [hv]
      simpa using hty

theorem assignLocal_typed {scopes : Scopes}
    {locals : List (HashMap ConstantValue)} {name : String} {b : Binding} {v : ConstantValue}
    (h : List.Forall₂ (ScopeTyped structs Binding.ty) scopes locals)
    (hb : lookupScopes scopes name = some b) (hv : v.HasType structs b.ty) :
    List.Forall₂ (ScopeTyped structs Binding.ty) scopes (assignLocal locals name v) := by
  induction h with
  | nil => exact .nil
  | @cons scope values scopes locals hscope hrest ih =>
    rw [assignLocal]
    rw [lookupScopes, List.findSome?_cons] at hb
    by_cases hmem : name ∈ values
    · obtain ⟨b', hb'⟩ := hscope.mem_iff.mp hmem
      rw [hb'] at hb
      obtain rfl := Option.some.inj hb
      rw [if_pos hmem]
      exact .cons (hscope.update hb' hv) hrest
    · have hnone : scope.lookup name = none := by
        by_contra hsome
        obtain ⟨b', hb'⟩ := Option.ne_none_iff_exists'.mp hsome
        exact hmem (hscope.mem_iff.mpr ⟨b', hb'⟩)
      rw [hnone] at hb
      rw [if_neg hmem]
      exact .cons hscope (ih hb)

end Scopes

/-! ## Operations -/

section Operations

variable {structs : HashMap StructDecl}

theorem runUnary_typed {op : UnaryOp} {ty result : ValueType} {v : ConstantValue}
    (hop : op.result ty = some result) (hv : v.HasType structs ty) :
    ∃ w, runUnary op v = .ok w ∧ w.HasType structs result := by
  unfold UnaryOp.result at hop
  split at hop <;> cases hop <;> cases hv
  · exact ⟨_, rfl, .i32⟩
  · exact ⟨_, rfl, .f32⟩
  · exact ⟨_, rfl, .bool⟩

theorem runI32_typed {op : BinaryOp} {result : ValueType} (l r : I32)
    (hop : op.result .i32 = some result) : runI32 l op r ≠ .error .stuck ∧
      ∀ w, runI32 l op r = .ok w → w.HasType structs result := by
  cases op <;> cases hop <;> simp only [runI32]
  case divide | remainder =>
    split
    · simp
    · exact ⟨by simp, fun w h => by cases h; exact .i32⟩
  case add | subtract | multiply => exact ⟨by simp, fun w h => by cases h; exact .i32⟩
  all_goals exact ⟨by simp, fun w h => by cases h; exact .bool⟩

/-- A position that passes the check is one of the array. -/
theorem checkIndex_typed {element : ValueType} {length : ℕ} {index array : ConstantValue}
    (hindex : index.HasType structs .i32)
    (harray : array.HasType structs (.array element (.resolved length))) :
    checkIndex index array ≠ .error .stuck ∧
      ∀ position, checkIndex index array = .ok position → position < length := by
  obtain ⟨index, rfl⟩ := hindex.i32_inv
  cases harray with
  | @array _ elements _ =>
    dsimp only [checkIndex]
    by_cases hbounds : 0 ≤ index.toInt ∧ index.toInt < elements.length
    · rw [if_pos hbounds]
      refine ⟨by simp, fun position h => ?_⟩
      cases h
      omega
    · rw [if_neg hbounds]
      simp

variable [F32Primitives]

theorem runF32_typed {op : BinaryOp} {result : ValueType} (l r : F32)
    (hop : op.result .f32 = some result) : runF32 l op r ≠ .error .stuck ∧
      ∀ w, runF32 l op r = .ok w → w.HasType structs result := by
  cases op <;> cases hop <;> simp only [runF32]
  case add | subtract | multiply | divide =>
    exact ⟨by simp, fun w h => by cases h; exact .f32⟩
  all_goals exact ⟨by simp, fun w h => by cases h; exact .bool⟩

theorem runBinary_typed {op : BinaryOp} {ty result : ValueType} {l r : ConstantValue}
    (hop : op.result ty = some result) (hlogical : op.isLogical = false)
    (hl : l.HasType structs ty) (hr : r.HasType structs ty) :
    runBinary l op r ≠ .error .stuck ∧
      ∀ w, runBinary l op r = .ok w → w.HasType structs result := by
  obtain rfl | rfl | rfl := BinaryOp.scalar_of_result hop
  · obtain ⟨l, rfl⟩ := hl.i32_inv
    obtain ⟨r, rfl⟩ := hr.i32_inv
    exact runI32_typed l r hop
  · obtain ⟨l, rfl⟩ := hl.f32_inv
    obtain ⟨r, rfl⟩ := hr.f32_inv
    exact runF32_typed l r hop
  · obtain ⟨l, rfl⟩ := hl.bool_inv
    obtain ⟨r, rfl⟩ := hr.bool_inv
    cases op <;> cases hop <;> cases hlogical <;> simp only [runBinary] <;>
      exact ⟨by simp, fun w h => by cases h; exact .bool⟩

theorem runConversion_typed {target : NumericType} {ty : ValueType} {v : ConstantValue}
    (hty : ty.isNumeric) (hv : v.HasType structs ty) :
    ∃ w, runConversion target.val v = .ok w ∧ w.HasType structs target.val := by
  obtain ⟨target, htarget⟩ := target
  cases ty <;> cases hty <;> cases hv <;> cases target <;> cases htarget
  · exact ⟨_, rfl, .i32⟩
  · exact ⟨_, rfl, .f32⟩
  · exact ⟨_, rfl, .i32⟩
  · exact ⟨_, rfl, .f32⟩

end Operations

variable [F32Primitives]

/-! ## The invariant -/

/-- The result of an expression or of a function of a type. -/
def ResultTyped (structs : HashMap StructDecl) : ReturnType → Option ConstantValue → Prop
  | .void, result => result = none
  | .value ty, result => ∃ v, result = some v ∧ v.HasType structs ty

/-- What the checker promises of an event. -/
def Event.Sound (c : FunctionChecker) : Event → Prop
  | .value scopes e expected result =>
    if e.isArrayLiteral then
      ∃ ty, expected = some ty ∧ ResultTyped c.structs (.value ty) result ∧
        ∀ description, (c.requireValueAs scopes e ty description).value = some ty
    else ∃ r, (c.inferExpr scopes e).value = some r ∧ ResultTyped c.structs r result
  | .call name args => ∃ signature, c.functions.lookup name = some signature ∧
    List.Forall₂ (ConstantValue.HasType c.structs) args signature.params
  | .assign scopes root => ∃ b, c.binding scopes root = some b ∧ b.mutability = .mutable
  | .return returnType result => ResultTyped c.structs returnType result

/-- The state of a run in the scopes `Γ` of the checker. -/
structure Typed (c : FunctionChecker) (Γ : Scopes) (s : RunState) : Prop where
  scopes : s.scopes = Γ
  wellFormed : Γ.WellFormed c.structs
  locals : List.Forall₂ (ScopeTyped c.structs Binding.ty) Γ s.locals
  globals : ScopeTyped c.structs id c.globals s.globals
  events : ∀ event ∈ s.events, event.Sound c

/-- The run is not stuck, it ends with sound events, and `post` holds of a result. -/
def Safe {α : Type} (c : FunctionChecker) (m : RunM α) (s : RunState)
    (post : α → RunState → Prop) : Prop :=
  Leads m s fun result s' =>
    match result with
    | .ok a => post a s'
    | .error .stuck => False
    | .error _ => ∀ event ∈ s'.events, event.Sound c

section Rules

variable {α β : Type} {c : FunctionChecker} {s : RunState} {post : β → RunState → Prop}

theorem safe_bind {m : RunM α} {k : α → RunM β} {mid : α → RunState → Prop}
    (h : Safe c m s mid) (hk : ∀ a s', mid a s' → Safe c (k a) s' post) :
    Safe c (m >>= k) s post :=
  leads_bind h hk fun stop _ hstop => by cases stop <;> exact hstop

theorem Safe.mono {m : RunM β} {post' : β → RunState → Prop} (h : Safe c m s post)
    (hpost : ∀ b s', post b s' → post' b s') : Safe c m s post' :=
  Leads.mono h fun r s' hr => by
    rcases r with stop | b
    · cases stop <;> exact hr
    · exact hpost b s' hr

theorem safe_pure {b : β} (h : post b s) : Safe c (pure b) s post := h

theorem safe_get {k : RunState → RunM β} (h : Safe c (k s) s post) :
    Safe c (get >>= k) s post := h

theorem safe_set {s' : RunState} {P : PUnit → RunState → Prop} (h : P ⟨⟩ s') :
    Safe c (set s') s P := h

theorem safe_modify {f : RunState → RunState} {P : PUnit → RunState → Prop}
    (h : P ⟨⟩ (f s)) : Safe c (modify f) s P := h

theorem safe_required {v : ConstantValue} {k : ConstantValue → RunM β}
    (h : Safe c (k v) s post) : Safe c (required (some v) >>= k) s post := h

theorem safe_lift_ok {a : α} {k : α → RunM β} (h : Safe c (k a) s post) :
    Safe c (lift (.ok a) >>= k) s post := h

/-- A primitive operation that is not stuck. -/
theorem safe_lift {result : Except Stop β} {P : β → Prop}
    (hevents : ∀ event ∈ s.events, event.Sound c) (hstuck : result ≠ .error .stuck)
    (hok : ∀ b, result = .ok b → P b) : Safe c (lift result) s fun b s' => P b ∧ s' = s := by
  cases result with
  | ok b => exact ⟨hok b rfl, rfl⟩
  | error stop =>
    cases stop with
    | stuck => exact absurd rfl hstuck
    | failed failure => exact hevents
    | exhausted => exact hevents

theorem safe_lift_bind {result : Except Stop α} {k : α → RunM β}
    (hevents : ∀ event ∈ s.events, event.Sound c) (hstuck : result ≠ .error .stuck)
    (hk : ∀ a, result = .ok a → Safe c (k a) s post) : Safe c (lift result >>= k) s post := by
  refine safe_bind (safe_lift hevents hstuck fun a ha => ha) ?_
  rintro a _ ⟨ha, rfl⟩
  exact hk a ha

/-- A sound event keeps the invariant. -/
theorem safe_note {Γ : Scopes} (hs : Typed c Γ s) {event : Event} {k : PUnit → RunM β}
    (hevent : event.Sound c) (hk : ∀ s', Typed c Γ s' → Safe c (k ⟨⟩) s' post) :
    Safe c (note event >>= k) s post :=
  hk { s with events := event :: s.events }
    ⟨hs.scopes, hs.wellFormed, hs.locals, hs.globals, List.forall_mem_cons.mpr ⟨hevent, hs.events⟩⟩

theorem safe_exhausted (hevents : ∀ event ∈ s.events, event.Sound c) :
    Safe c (throw .exhausted : RunM β) s post := hevents

end Rules

/-! ## Names -/

section Names

variable {c : FunctionChecker} {Γ : Scopes} {s : RunState} {env : Env}

/-- The environment of a run agrees with the checker. -/
structure EnvTyped (c : FunctionChecker) (env : Env) : Prop where
  structs : env.structs = c.structs
  functions : env.functions = c.functions
  constants : ScopeTyped c.structs id c.constants env.constants
  call : ∀ {name signature args Γ s}, c.functions.lookup name = some signature →
    List.Forall₂ (ConstantValue.HasType c.structs) args signature.params → Typed c Γ s →
      Safe c (env.call name args) s fun result s' =>
        ResultTyped c.structs signature.returnType result ∧ Typed c Γ s'

theorem Typed.lookup_local {name : String} (hs : Typed c Γ s) :
    (∀ b, lookupScopes Γ name = some b →
      ∃ v, lookupScopes s.locals name = some v ∧ v.HasType c.structs b.ty) ∧
    (lookupScopes Γ name = none → lookupScopes s.locals name = none) :=
  lookupScopes_typed hs.locals

theorem readName_safe (henv : EnvTyped c env) (hs : Typed c Γ s) {name : String} {b : Binding}
    (hb : c.binding Γ name = some b) :
    Safe c (readName env name) s fun v s' => v.HasType c.structs b.ty ∧ s' = s := by
  have hvalue : ∃ v, (lookupScopes s.locals name).or
      ((s.globals.lookup name).or (env.constants.lookup name)) = some v ∧
      v.HasType c.structs b.ty := by
    rcases FunctionChecker.binding_eq_some hb with hl | ⟨hl, hg | ⟨hg, hk⟩⟩
    · obtain ⟨v, hv, hty⟩ := hs.lookup_local.1 b hl
      exact ⟨v, by rw [hv]; rfl, hty⟩
    · obtain ⟨ty, hg, rfl⟩ := hg
      obtain ⟨v, hv, hty⟩ := (hs.globals name).1 ty hg
      exact ⟨v, by rw [hs.lookup_local.2 hl, hv]; rfl, hty⟩
    · obtain ⟨ty, hk, rfl⟩ := hk
      obtain ⟨v, hv, hty⟩ := (henv.constants name).1 ty hk
      exact ⟨v, by rw [hs.lookup_local.2 hl, (hs.globals name).2 hg, hv]; rfl, hty⟩
  obtain ⟨v, hv, hty⟩ := hvalue
  refine safe_get ?_
  rw [hv]
  exact safe_pure ⟨hty, rfl⟩

theorem readPlace_safe (henv : EnvTyped c env) (hs : Typed c Γ s) {name : String} {b : Binding}
    {path : List Step} {ty : ValueType} (hb : c.binding Γ name = some b)
    (hpath : PathTyped c.structs b.ty path ty) :
    Safe c (readPlace env name path) s fun v s' => v.HasType c.structs ty ∧ s' = s := by
  refine safe_bind (readName_safe henv hs hb) ?_
  rintro v s' ⟨hv, rfl⟩
  obtain ⟨w, hw, hty⟩ := hpath.readPath hv
  rw [hw]
  exact safe_pure ⟨hty, rfl⟩

/-- A mutable binding is a local or a global. -/
theorem writePlace_safe (hs : Typed c Γ s) {name : String} {b : Binding} {path : List Step}
    {ty : ValueType} {w : ConstantValue} (hb : c.binding Γ name = some b)
    (hm : b.mutability = .mutable) (hpath : PathTyped c.structs b.ty path ty)
    (hw : w.HasType c.structs ty) :
    Safe c (writePlace name path w) s fun _ s' => Typed c Γ s' := by
  refine safe_get ?_
  rcases FunctionChecker.binding_eq_some hb with hl | ⟨hl, hg | ⟨hg, hk⟩⟩
  · obtain ⟨v, hv, hty⟩ := hs.lookup_local.1 b hl
    obtain ⟨v', hv', hty'⟩ := hpath.writePath hty hw
    simp only [hv, hv']
    exact safe_set ⟨hs.scopes, hs.wellFormed, assignLocal_typed hs.locals hl hty', hs.globals,
      hs.events⟩
  · obtain ⟨gty, hg, rfl⟩ := hg
    obtain ⟨v, hv, hty⟩ := (hs.globals name).1 gty hg
    obtain ⟨v', hv', hty'⟩ := hpath.writePath hty hw
    simp only [hs.lookup_local.2 hl, hv, hv']
    exact safe_set ⟨hs.scopes, hs.wellFormed, hs.locals, hs.globals.update hg hty', hs.events⟩
  · obtain ⟨kty, -, rfl⟩ := hk
    cases hm

end Names

/-! ## Expressions -/

section Expressions

variable {c : FunctionChecker} {Γ : Scopes} {env : Env}

/-- An array literal stands where its type is known. -/
def Fits (c : FunctionChecker) (e : Expr) (r : ReturnType) (expected : Option ValueType) : Prop :=
  e.isArrayLiteral → ∃ ty, r = .value ty ∧ expected = some ty ∧ ty.WellFormed c.structs

def EvalSafe (c : FunctionChecker) (env : Env) (Γ : Scopes) (e : Expr) (r : ReturnType) : Prop :=
  ∀ expected s, Fits c e r expected → Typed c Γ s →
    Safe c (eval env e expected) s fun result s' => ResultTyped c.structs r result ∧ Typed c Γ s'

/-- A place is a path from a binding of its root. -/
def PlaceSafe (c : FunctionChecker) (env : Env) (Γ : Scopes) (e : Expr) (root : Lvalue) : Prop :=
  ∀ s, Typed c Γ s → Safe c (evalPlace env e) s fun place s' =>
    (place.1 = root.rootName ∧ ∃ b, c.binding Γ root.rootName = some b ∧
      b.mutability = root.mutability ∧ PathTyped c.structs b.ty place.2 root.ty) ∧ Typed c Γ s'

omit [F32Primitives] in
theorem fits_of_not_literal {e : Expr} {r : ReturnType} {expected : Option ValueType}
    (h : e.isArrayLiteral = false) : Fits c e r expected := fun h' => by simp [h] at h'

omit [F32Primitives] in
theorem fits_of_wellFormed {e : Expr} {ty : ValueType} (h : ty.WellFormed c.structs) :
    Fits c e (.value ty) (some ty) := fun _ => ⟨ty, rfl, rfl, h⟩

theorem noteValue_safe (hc : c.WellFormed) {s : RunState} (hs : Typed c Γ s) {e : Expr}
    {r : ReturnType} {expected : Option ValueType} {result : Option ConstantValue}
    (h : HasType c Γ e r) (hfits : Fits c e r expected) (hresult : ResultTyped c.structs r result) :
    Safe c (noteValue e expected result) s fun result s' =>
      ResultTyped c.structs r result ∧ Typed c Γ s' := by
  have hevent : (Event.value s.scopes e expected result).Sound c := by
    rw [hs.scopes]
    cases he : e.isArrayLiteral with
    | false =>
      rw [Event.Sound, if_neg (by simp [he])]
      exact ⟨r, h.inferExpr_value hc hs.wellFormed he, hresult⟩
    | true =>
      rw [Event.Sound, if_pos he]
      obtain ⟨ty, rfl, rfl, hwf⟩ := hfits he
      exact ⟨ty, rfl, hresult, fun _ => h.requireValueAs_value hc hs.wellFormed hwf⟩
  exact safe_get (safe_note hs hevent fun s' hs' => safe_pure ⟨hresult, hs'⟩)

theorem EvalSafe.required {α : Type} {e : Expr} {ty : ValueType} (h : EvalSafe c env Γ e (.value ty))
    {expected : Option ValueType} {s : RunState} {k : ConstantValue → RunM α}
    {post : α → RunState → Prop} (hfits : Fits c e (.value ty) expected) (hs : Typed c Γ s)
    (hk : ∀ v s', v.HasType c.structs ty → Typed c Γ s' → Safe c (k v) s' post) :
    Safe c (eval env e expected >>= fun result => Source.required result >>= k) s post := by
  refine safe_bind (h _ _ hfits hs) ?_
  rintro result s' ⟨⟨v, rfl, hv⟩, hs'⟩
  exact safe_required (hk v s' hv hs')

omit [F32Primitives] in
/-- What is read and has the type of a place is read through it. -/
theorem placeTyped_of_hasType {e : Expr} {ty : ValueType} (h : HasType c Γ e (.value ty))
    (he : isPlace e) : ∃ root, PlaceTyped c Γ e root ∧ root.ty = ty := by
  generalize hr : ReturnType.value ty = r at h
  induction h generalizing ty with
  | var hb =>
    obtain rfl := ReturnType.value.inj hr
    exact ⟨_, .var hb, rfl⟩
  | index _ hbase hindex ih =>
    obtain rfl := ReturnType.value.inj hr
    obtain ⟨root, hroot, hty⟩ := ih he rfl
    exact ⟨_, .index hroot hty hindex, rfl⟩
  | field hbase hd hf ih =>
    obtain rfl := ReturnType.value.inj hr
    obtain ⟨root, hroot, hty⟩ := ih he rfl
    exact ⟨_, .field hroot hty hd hf, rfl⟩
  | _ => simp [isPlace] at he

/-! ### Lists of expressions -/

theorem evalElements_safe {element : ValueType} (hwf : element.WellFormed c.structs)
    {elements : List Expr} (h : ∀ e ∈ elements, EvalSafe c env Γ e (.value element)) {s : RunState}
    (hs : Typed c Γ s) : Safe c (evalElements env element elements) s fun values s' =>
      (values.length = elements.length ∧ ∀ v ∈ values, v.HasType c.structs element) ∧
        Typed c Γ s' := by
  induction elements generalizing s with
  | nil =>
    rw [evalElements]
    exact safe_pure ⟨⟨rfl, by simp⟩, hs⟩
  | cons e rest ih =>
    rw [evalElements]
    simp only [List.forall_mem_cons] at h
    refine h.1.required (fits_of_wellFormed hwf) hs fun v s₁ hv hs₁ =>
      safe_bind (ih h.2 hs₁) ?_
    rintro values s₂ ⟨⟨hlen, hvalues⟩, hs₂⟩
    exact safe_pure ⟨⟨by simp [hlen], List.forall_mem_cons.mpr ⟨hv, hvalues⟩⟩, hs₂⟩

theorem evalArgs_safe {args : List Expr} {params : List ValueType}
    (hlen : args.length = params.length) (hwf : ∀ ty ∈ params, ty.WellFormed c.structs)
    (h : ∀ p ∈ args.zip params, EvalSafe c env Γ p.1 (.value p.2)) {s : RunState}
    (hs : Typed c Γ s) : Safe c (evalArgs env args params) s fun values s' =>
      List.Forall₂ (ConstantValue.HasType c.structs) values params ∧ Typed c Γ s' := by
  induction args generalizing params s with
  | nil =>
    obtain rfl := List.eq_nil_of_length_eq_zero hlen.symm
    rw [evalArgs]
    exact safe_pure ⟨.nil, hs⟩
  | cons arg rest ih =>
    obtain _ | ⟨ty, params⟩ := params
    · cases hlen
    rw [evalArgs]
    simp only [List.zip_cons_cons, List.forall_mem_cons] at h hwf
    refine h.1.required (fits_of_wellFormed hwf.1) hs fun v s₁ hv hs₁ =>
      safe_bind (ih (by simpa using hlen) hwf.2 h.2 hs₁) ?_
    rintro values s₂ ⟨hvalues, hs₂⟩
    exact safe_pure ⟨.cons hv hvalues, hs₂⟩

/-- The values of initializers, each of the type of the field of its name. -/
def FieldsTyped (structs : HashMap StructDecl) (declaration : StructDecl)
    (values : List (String × ConstantValue)) : Prop :=
  ∀ p ∈ values, ∀ field, declaration.fields.find? (·.name == p.1) = some field →
    p.2.HasType structs field.ty

theorem evalFields_safe {declaration : StructDecl}
    (hwf : ∀ field ∈ declaration.fields, field.ty.WellFormed c.structs)
    {fields : List (FieldInitializer Expr)}
    (hknown : ∀ f ∈ fields, (declaration.fields.find? (·.name == f.name)).isSome)
    (h : ∀ f ∈ fields, ∀ field, declaration.fields.find? (·.name == f.name) = some field →
      EvalSafe c env Γ f.value (.value field.ty)) {s : RunState} (hs : Typed c Γ s) :
    Safe c (evalFields env declaration fields) s fun values s' =>
      (values.map (·.1) = fields.map (·.name) ∧ FieldsTyped c.structs declaration values) ∧
        Typed c Γ s' := by
  induction fields generalizing s with
  | nil =>
    rw [evalFields]
    exact safe_pure ⟨⟨rfl, by simp [FieldsTyped]⟩, hs⟩
  | cons f rest ih =>
    obtain ⟨name, e, span⟩ := f
    simp only [List.forall_mem_cons] at h hknown
    obtain ⟨field, hfield⟩ := Option.isSome_iff_exists.mp hknown.1
    rw [evalFields, hfield]
    refine (h.1 field hfield).required
      (fits_of_wellFormed (hwf field (List.mem_of_find?_eq_some hfield))) hs fun v s₁ hv hs₁ =>
      safe_bind (ih hknown.2 h.2 hs₁) ?_
    rintro values s₂ ⟨⟨hnames, hvalues⟩, hs₂⟩
    refine safe_pure ⟨⟨by simp [hnames], List.forall_mem_cons.mpr ⟨fun field' hfield' => ?_, hvalues⟩⟩,
      hs₂⟩
    obtain rfl := Option.some.inj (hfield.symm.trans hfield')
    exact hv

omit [F32Primitives] in
/-- Every declared field has its value, in the order of the declaration. -/
theorem mapM_lookup_typed {structs : HashMap StructDecl} {values : List (String × ConstantValue)}
    {declared : List StructField} (h : ∀ field ∈ declared, ∃ v, values.lookup field.name = some v ∧
      v.HasType structs field.ty) :
    ∃ ordered, (declared.mapM fun field => (values.lookup field.name).map (field.name, ·)) =
        some ordered ∧ ordered.map (·.1) = declared.map (·.name) ∧
      ∀ p ∈ ordered.zip declared, p.1.2.HasType structs p.2.ty := by
  induction declared with
  | nil => exact ⟨[], rfl, rfl, by simp⟩
  | cons field rest ih =>
    simp only [List.forall_mem_cons] at h
    obtain ⟨⟨v, hv, hty⟩, hrest⟩ := h
    obtain ⟨ordered, hordered, hnames, htyped⟩ := ih hrest
    refine ⟨(field.name, v) :: ordered, by simp [List.mapM_cons, hv, hordered], by simp [hnames], ?_⟩
    rw [List.zip_cons_cons, List.forall_mem_cons]
    exact ⟨hty, htyped⟩

omit [F32Primitives] in
theorem declarationOrder_typed {structs : HashMap StructDecl} {declaration : StructDecl}
    {values : List (String × ConstantValue)}
    (hnodup : (declaration.fields.map (·.name)).Nodup)
    (hall : ∀ field ∈ declaration.fields, field.name ∈ values.map (·.1))
    (htyped : FieldsTyped structs declaration values) :
    ∃ ordered, declarationOrder declaration values = some ordered ∧
      ordered.map (·.1) = declaration.fields.map (·.name) ∧
      ∀ p ∈ ordered.zip declaration.fields, p.1.2.HasType structs p.2.ty := by
  refine mapM_lookup_typed fun field hfield => ?_
  have hsome : (values.lookup field.name).isSome := by
    by_contra hnone
    rw [Option.not_isSome_iff_eq_none, List.lookup_eq_none_iff] at hnone
    obtain ⟨p, hp, heq⟩ := List.mem_map.mp (hall field hfield)
    simpa [heq] using hnone p hp
  obtain ⟨v, hv⟩ := Option.isSome_iff_exists.mp hsome
  obtain ⟨l, r, rfl, -⟩ := List.lookup_eq_some_iff.mp hv
  exact ⟨v, hv, htyped (field.name, v) (by simp) field (find?_name_of_mem hnodup hfield)⟩

/-! ### All expressions -/

/-- Position, array, bounds check. -/
theorem indexPlace_safe {α : Type} (henv : EnvTyped c env) {s : RunState} (hs : Typed c Γ s)
    {name : String} {b : Binding} {path : List Step} {element : ValueType} {length : ℕ}
    {index : Expr} {k : ℕ → RunM α} {post : α → RunState → Prop}
    (hb : c.binding Γ name = some b)
    (hpath : PathTyped c.structs b.ty path (.array element (.resolved length)))
    (htype : HasType c Γ index (.value .i32)) (hindex : EvalSafe c env Γ index (.value .i32))
    (hk : ∀ position s', position < length → Typed c Γ s' → Safe c (k position) s' post) :
    Safe c (eval env index none >>= fun result => required result >>= fun position =>
      readPlace env name path >>= fun array => lift (checkIndex position array) >>= k) s post := by
  refine hindex.required (fits_of_not_literal (htype.isArrayLiteral rfl)) hs fun v s₁ hv hs₁ => ?_
  refine safe_bind (readPlace_safe henv hs₁ hb hpath) ?_
  rintro array _ ⟨harray, rfl⟩
  obtain ⟨hstuck, hok⟩ := checkIndex_typed hv harray
  exact safe_lift_bind hs₁.events hstuck fun position hposition =>
    hk position _ (hok position hposition) hs₁

theorem indexValue_safe {α : Type} {s : RunState} (hs : Typed c Γ s) {index : Expr}
    {element : ValueType} {length : ℕ} {array : ConstantValue} {k : ConstantValue → RunM α}
    {post : α → RunState → Prop}
    (harray : array.HasType c.structs (.array element (.resolved length)))
    (htype : HasType c Γ index (.value .i32)) (hindex : EvalSafe c env Γ index (.value .i32))
    (hk : ∀ v s', v.HasType c.structs element → Typed c Γ s' → Safe c (k v) s' post) :
    Safe c (eval env index none >>= fun result => required result >>= fun position =>
      lift (checkIndex position array) >>= fun position =>
        required (select array (.index position)) >>= k) s post := by
  refine hindex.required (fits_of_not_literal (htype.isArrayLiteral rfl)) hs fun v s₁ hv hs₁ => ?_
  obtain ⟨hstuck, hok⟩ := checkIndex_typed hv harray
  refine safe_lift_bind hs₁.events hstuck fun position hposition => ?_
  obtain ⟨w, hw, hty⟩ := (StepTyped.index (hok position hposition)).select harray
  rw [hw]
  exact safe_required (hk w _ hty hs₁)

theorem evaluates (hc : c.WellFormed) (henv : EnvTyped c env) {e : Expr} {r : ReturnType}
    (h : HasType c Γ e r) : EvalSafe c env Γ e r ∧
      ∀ root, PlaceTyped c Γ e root → PlaceSafe c env Γ e root := by
  induction h with
  | i32 hrange =>
    refine ⟨fun expected s hfits hs => ?_, fun root hroot => by cases hroot⟩
    rw [eval]
    exact noteValue_safe hc hs (.i32 hrange) hfits ⟨_, rfl, .i32⟩
  | f32 hfinite =>
    refine ⟨fun expected s hfits hs => ?_, fun root hroot => by cases hroot⟩
    rw [eval]
    exact noteValue_safe hc hs (.f32 hfinite) hfits ⟨_, rfl, .f32⟩
  | bool =>
    refine ⟨fun expected s hfits hs => ?_, fun root hroot => by cases hroot⟩
    rw [eval]
    exact noteValue_safe hc hs .bool hfits ⟨_, rfl, .bool⟩
  | @arrayLiteral elements span element helements ih =>
    refine ⟨fun expected s hfits hs => ?_, fun root hroot => by cases hroot⟩
    obtain ⟨ty, heq, rfl, hwf⟩ := hfits rfl
    obtain rfl := ReturnType.value.inj heq
    rw [eval]
    simp only [Option.bind_some, ValueType.resolvedArray]
    refine safe_bind (evalElements_safe hwf.1 (fun e he => (ih e he).1) hs) ?_
    rintro values s₁ ⟨⟨hlen, hvalues⟩, hs₁⟩
    refine noteValue_safe hc hs₁ (.arrayLiteral helements) hfits ⟨_, rfl, ?_⟩
    rw [← hlen]
    exact .array hvalues
  | @structLiteral name fields span declaration hd hnodup hdeclared hknown hfields ih =>
    refine ⟨fun expected s hfits hs => ?_, fun root hroot => by cases hroot⟩
    rw [eval, henv.structs, hd]
    refine safe_bind (evalFields_safe (hc.fields hd) hknown
      (fun f hf field hfield => (ih f hf field hfield).1) hs) ?_
    rintro values s₁ ⟨⟨hnames, hvalues⟩, hs₁⟩
    obtain ⟨ordered, hordered, hnames', htyped⟩ := declarationOrder_typed (hc.fieldNames hd)
      (fun field hfield => by rw [hnames]; exact hdeclared field hfield) hvalues
    rw [hordered]
    exact noteValue_safe hc hs₁ (.structLiteral hd hnodup hdeclared hknown hfields) hfits
      ⟨_, rfl, .struct hd hnames' htyped⟩
  | @var name span b hb =>
    refine ⟨fun expected s hfits hs => ?_, fun root hroot s hs => ?_⟩
    · rw [eval]
      refine safe_bind (readName_safe henv hs hb) ?_
      rintro v _ ⟨hv, rfl⟩
      exact noteValue_safe hc hs (.var hb) hfits ⟨v, rfl, hv⟩
    · cases hroot with
      | var hb =>
        rw [evalPlace]
        exact safe_pure ⟨⟨rfl, _, hb, rfl, .nil⟩, hs⟩
  | @index base index span element length hnot hbase hindex ihbase ihindex =>
    refine ⟨fun expected s hfits hs => ?_, fun root hroot s hs => ?_⟩
    · rw [eval]
      split
      · next hplace =>
        obtain ⟨root, hroot, hty⟩ := placeTyped_of_hasType hbase hplace
        refine safe_bind (ihbase.2 root hroot s hs) ?_
        rintro ⟨name, path⟩ s₁ ⟨⟨hname, b, hb, -, hpath⟩, hs₁⟩
        dsimp only at hname hpath
        subst hname
        rw [hty] at hpath
        refine indexPlace_safe henv hs₁ hb hpath hindex ihindex.1 fun position s₂ hposition hs₂ => ?_
        refine safe_bind (readPlace_safe henv hs₂ hb (hpath.append (.index hposition))) ?_
        rintro v _ ⟨hv, rfl⟩
        exact noteValue_safe hc hs₂ (.index hnot hbase hindex) hfits ⟨v, rfl, hv⟩
      · refine ihbase.1.required (fits_of_not_literal hnot) hs fun array s₁ harray hs₁ => ?_
        refine indexValue_safe hs₁ harray hindex ihindex.1 fun v s₂ hv hs₂ => ?_
        exact noteValue_safe hc hs₂ (.index hnot hbase hindex) hfits ⟨v, rfl, hv⟩
    · cases hroot with
      | @index _ _ _ root _ _ hroot hty _ =>
        rw [evalPlace]
        refine safe_bind (ihbase.2 root hroot s hs) ?_
        rintro ⟨name, path⟩ s₁ ⟨⟨hname, b, hb, hm, hpath⟩, hs₁⟩
        dsimp only at hname hpath
        subst hname
        rw [hty] at hpath
        refine indexPlace_safe henv hs₁ hb hpath hindex ihindex.1 fun position s₂ hposition hs₂ => ?_
        exact safe_pure ⟨⟨rfl, b, hb, hm, hpath.append (.index hposition)⟩, hs₂⟩
  | @field base name nameSpan span structName declaration field hbase hd hf ih =>
    have hnot := hbase.isArrayLiteral rfl
    refine ⟨fun expected s hfits hs => ?_, fun root hroot s hs => ?_⟩
    · rw [eval]
      split
      · next hplace =>
        obtain ⟨root, hroot, hty⟩ := placeTyped_of_hasType hbase hplace
        refine safe_bind (ih.2 root hroot s hs) ?_
        rintro ⟨root', path⟩ s₁ ⟨⟨hname, b, hb, -, hpath⟩, hs₁⟩
        dsimp only at hname hpath
        subst hname
        rw [hty] at hpath
        refine safe_bind
          (readPlace_safe henv hs₁ hb (hpath.append (.field hd (hc.fieldNames hd) hf))) ?_
        rintro v _ ⟨hv, rfl⟩
        exact noteValue_safe hc hs₁ (.field hbase hd hf) hfits ⟨v, rfl, hv⟩
      · refine ih.1.required (fits_of_not_literal hnot) hs fun v s₁ hv hs₁ => ?_
        obtain ⟨w, hw, hty⟩ := (StepTyped.field hd (hc.fieldNames hd) hf).select hv
        rw [hw]
        exact safe_required (noteValue_safe hc hs₁ (.field hbase hd hf) hfits ⟨w, rfl, hty⟩)
    · cases hroot with
      | @field _ _ _ _ root _ _ _ hroot hty hd' hf' =>
        rw [evalPlace]
        refine safe_bind (ih.2 root hroot s hs) ?_
        rintro ⟨root', path⟩ s₁ ⟨⟨hname, b, hb, hm, hpath⟩, hs₁⟩
        dsimp only at hname hpath
        subst hname
        rw [hty] at hpath
        exact safe_pure ⟨⟨rfl, b, hb, hm, hpath.append (.field hd' (hc.fieldNames hd') hf')⟩, hs₁⟩
  | @minimum operand span hmin =>
    refine ⟨fun expected s hfits hs => ?_, fun root hroot => by cases hroot⟩
    rw [eval, if_pos (by simpa using hmin)]
    exact noteValue_safe hc hs (.minimum hmin) hfits ⟨_, rfl, .i32⟩
  | @unary op operand span ty result hmin hoperand hop ih =>
    refine ⟨fun expected s hfits hs => ?_, fun root hroot => by cases hroot⟩
    have hnot := hoperand.isArrayLiteral (by cases op <;> cases ty <;> first | rfl | cases hop)
    rw [eval, if_neg (by simp [hmin])]
    refine ih.1.required (fits_of_not_literal hnot) hs fun v s₁ hv hs₁ => ?_
    obtain ⟨w, hw, hty⟩ := runUnary_typed hop hv
    rw [hw]
    exact safe_lift_ok <| noteValue_safe hc hs₁ (.unary hmin hoperand hop) hfits ⟨_, rfl, hty⟩
  | @binary left op right span ty result hleft hright hop ihleft ihright =>
    refine ⟨fun expected s hfits hs => ?_, fun root hroot => by cases hroot⟩
    have hscalar : ty.resolvedArray = none := by
      obtain rfl | rfl | rfl := BinaryOp.scalar_of_result hop <;> rfl
    rw [eval]
    refine ihleft.1.required (fits_of_not_literal (hleft.isArrayLiteral hscalar)) hs
      fun l s₁ hl hs₁ => ?_
    split
    · next hlogical =>
      obtain ⟨rfl, rfl⟩ := BinaryOp.bool_of_isLogical hlogical hop
      obtain ⟨short, rfl⟩ := hl.bool_inv
      dsimp only
      split
      · exact noteValue_safe hc hs₁ (.binary hleft hright hop) hfits ⟨_, rfl, .bool⟩
      · exact ihright.1.required (fits_of_not_literal (hright.isArrayLiteral rfl)) hs₁
          fun v s₂ hv hs₂ =>
            noteValue_safe hc hs₂ (.binary hleft hright hop) hfits ⟨v, rfl, hv⟩
    · next hlogical =>
      refine ihright.1.required (fits_of_not_literal (hright.isArrayLiteral hscalar)) hs₁
        fun r s₂ hr hs₂ => ?_
      obtain ⟨hstuck, hok⟩ := runBinary_typed hop (by simpa using hlogical) hl hr
      exact safe_lift_bind hs₂.events hstuck fun w hw =>
        noteValue_safe hc hs₂ (.binary hleft hright hop) hfits ⟨w, rfl, hok w hw⟩
  | @call name args span signature hf hlen hargs ih =>
    refine ⟨fun expected s hfits hs => ?_, fun root hroot => by cases hroot⟩
    rw [eval, henv.functions, hf]
    refine safe_bind (evalArgs_safe hlen (hc.params hf) (fun p hp => (ih p hp).1) hs) ?_
    rintro values s₁ ⟨hvalues, hs₁⟩
    refine safe_note hs₁ ⟨signature, hf, hvalues⟩ fun s₂ hs₂ => ?_
    refine safe_bind (henv.call hf hvalues hs₂) ?_
    rintro result s₃ ⟨hresult, hs₃⟩
    exact noteValue_safe hc hs₃ (.call hf hlen hargs) hfits hresult
  | @conversion target arg span ty harg hnumeric ih =>
    refine ⟨fun expected s hfits hs => ?_, fun root hroot => by cases hroot⟩
    have hnot := harg.isArrayLiteral (by cases ty <;> first | rfl | cases hnumeric)
    rw [eval]
    refine ih.1.required (fits_of_not_literal hnot) hs fun v s₁ hv hs₁ => ?_
    have hconversion : ∃ w, runConversion target.val v = .ok w ∧ w.HasType _ target.val :=
      runConversion_typed hnumeric hv
    obtain ⟨w, hw, hty⟩ := hconversion
    rw [hw]
    exact safe_lift_ok <| noteValue_safe hc hs₁ (.conversion harg hnumeric) hfits ⟨_, rfl, hty⟩

end Expressions

/-! ## Statements -/

section Statements

/-- The same tables : only the values of the constants and the return type may differ. -/
structure SameTables (c' c : FunctionChecker) : Prop where
  globals : c'.globals = c.globals
  constants : c'.constants = c.constants
  structs : c'.structs = c.structs
  functions : c'.functions = c.functions

omit [F32Primitives] in
theorem SameTables.binding {c' c : FunctionChecker} (h : SameTables c' c) (Γ : Scopes)
    (name : String) : c'.binding Γ name = c.binding Γ name := by
  rw [FunctionChecker.binding, h.globals, h.constants]
  rfl

omit [F32Primitives] in
theorem SameTables.hasType {c' c : FunctionChecker} {Γ : Scopes} (h : SameTables c' c) {e : Expr}
    {r : ReturnType} (htype : HasType c' Γ e r) : HasType c Γ e r := by
  induction htype with
  | i32 hrange => exact .i32 hrange
  | f32 hfinite => exact .f32 hfinite
  | bool => exact .bool
  | arrayLiteral _ ih => exact .arrayLiteral ih
  | structLiteral hd hnodup hdeclared hknown _ ih =>
    exact .structLiteral (h.structs ▸ hd) hnodup hdeclared hknown ih
  | var hb => exact .var (h.binding _ _ ▸ hb)
  | index hnot _ _ ihbase ihindex => exact .index hnot ihbase ihindex
  | field _ hd hf ih => exact .field ih (h.structs ▸ hd) hf
  | minimum hmin => exact .minimum hmin
  | unary hmin _ hop ih => exact .unary hmin ih hop
  | binary _ _ hop ihleft ihright => exact .binary ihleft ihright hop
  | call hf hlen _ ih => exact .call (h.functions ▸ hf) hlen ih
  | conversion _ hnumeric ih => exact .conversion ih hnumeric

omit [F32Primitives] in
theorem SameTables.placeTyped {c' c : FunctionChecker} {Γ : Scopes} (h : SameTables c' c) {e : Expr}
    {root : Lvalue} (hplace : PlaceTyped c' Γ e root) : PlaceTyped c Γ e root := by
  induction hplace with
  | var hb => exact .var (h.binding _ _ ▸ hb)
  | index _ hty hindex ih => exact .index ih hty (h.hasType hindex)
  | field _ hty hd hf ih => exact .field ih hty (h.structs ▸ hd) hf

variable {c' c : FunctionChecker} {Γ : Scopes} {env : Env} {returnType : ReturnType}

/-- The state in a block : only the innermost scope may have changed. -/
def Inside (c : FunctionChecker) (Γ : Scopes) (s : RunState) : Prop :=
  ∃ Γ' : Scopes, Γ'.tail = Γ.tail ∧ Typed c Γ' s

/-- Control goes on only if it may, and returns only a result of the type. -/
def FlowTyped (c : FunctionChecker) (returnType : ReturnType) (returns : Bool) : Flow → Prop
  | .next => returns = false
  | .returned result => ResultTyped c.structs returnType result

omit [F32Primitives] in
theorem declare_tail (Γ : Scopes) (name : String) (b : Binding) :
    (FunctionChecker.declare Γ name b).tail = Γ.tail := by
  cases Γ <;> rfl

omit [F32Primitives] in
theorem stmtTyped_tail {Γ Γ' : Scopes} {statement : Stmt} (h : StmtTyped c Γ statement Γ') :
    Γ'.tail = Γ.tail := by
  cases h with
  | letVar => exact declare_tail Γ _ _
  | _ => rfl

theorem inScope_safe {α : Type} {P : α → Prop} {m : RunM α} {scope : HashMap Binding}
    {values : HashMap ConstantValue} {s : RunState} (hs : Typed c Γ s)
    (hscope : ScopeTyped c.structs Binding.ty scope values)
    (hwf : Scopes.WellFormed c.structs (scope :: Γ))
    (hm : ∀ s', Typed c (scope :: Γ) s' →
      Safe c m s' fun a s' => P a ∧ Inside c (scope :: Γ) s') :
    Safe c (inScope scope values m) s fun a s' => P a ∧ Typed c Γ s' := by
  have hinner : Typed c (scope :: Γ)
      { s with scopes := scope :: s.scopes, locals := values :: s.locals } :=
    ⟨by rw [hs.scopes], hwf, .cons hscope hs.locals, hs.globals, hs.events⟩
  refine safe_bind (safe_modify (P := fun _ s' => Typed c (scope :: Γ) s') hinner) fun _ s₁ hs₁ =>
    safe_bind (hm s₁ hs₁) ?_
  rintro a s₂ ⟨ha, Γ', htail, hs₂⟩
  rw [List.tail_cons] at htail
  have hlocals : List.Forall₂ (ScopeTyped c.structs Binding.ty) Γ s₂.locals.tail := by
    have hlocals := hs₂.locals
    rw [← htail]
    generalize s₂.locals = locals at hlocals
    rcases hlocals with _ | ⟨_, h⟩
    · exact .nil
    · exact h
  exact safe_bind (safe_modify (P := fun _ s' => Typed c Γ s')
    ⟨by rw [hs₂.scopes, htail], hs.wellFormed, hlocals, hs₂.globals, hs₂.events⟩)
      fun _ s₃ hs₃ => safe_pure ⟨ha, hs₃⟩

omit [F32Primitives] in
theorem scopeTyped_empty {structs : HashMap StructDecl} : ScopeTyped structs Binding.ty ∅ ∅ :=
  fun name => by simp

omit [F32Primitives] in
theorem scopeTyped_singleton {structs : HashMap StructDecl} {name : String} {b : Binding}
    {v : ConstantValue} (hv : v.HasType structs b.ty) :
    ScopeTyped structs Binding.ty (AList.singleton name b) (AList.singleton name v) := by
  rw [← AList.insert_empty, ← AList.insert_empty]
  exact scopeTyped_empty.insert hv

theorem evalBool_safe (hc : c.WellFormed) (henv : EnvTyped c env) {s : RunState}
    (hs : Typed c Γ s) {e : Expr} (h : HasType c Γ e (.value .bool)) :
    Safe c (evalBool env e) s fun _ s' => Typed c Γ s' := by
  refine safe_bind ((evaluates hc henv h).1 _ _ (fits_of_not_literal (h.isArrayLiteral rfl)) hs) ?_
  rintro result s' ⟨⟨v, rfl, hv⟩, hs'⟩
  obtain ⟨b, rfl⟩ := hv.bool_inv
  exact safe_pure hs'

theorem evalI32_safe (hc : c.WellFormed) (henv : EnvTyped c env) {s : RunState}
    (hs : Typed c Γ s) {e : Expr} (h : HasType c Γ e (.value .i32)) :
    Safe c (evalI32 env e) s fun _ s' => Typed c Γ s' := by
  refine safe_bind ((evaluates hc henv h).1 _ _ (fits_of_not_literal (h.isArrayLiteral rfl)) hs) ?_
  rintro result s' ⟨⟨v, rfl, hv⟩, hs'⟩
  obtain ⟨n, rfl⟩ := hv.i32_inv
  exact safe_pure hs'

/-- Every turn of a loop starts in the scopes of the loop. -/
theorem whileTurns_safe {condition : RunM Bool} {body : RunM Flow}
    (hcondition : ∀ s, Typed c Γ s → Safe c condition s fun _ s' => Typed c Γ s')
    (hbody : ∀ s, Typed c Γ s → Safe c body s fun flow s' =>
      FlowTyped c returnType false flow ∧ Typed c Γ s') (fuel : ℕ) {s : RunState}
    (hs : Typed c Γ s) : Safe c (whileTurns condition body fuel) s fun flow s' =>
      FlowTyped c returnType false flow ∧ Typed c Γ s' := by
  induction fuel generalizing s with
  | zero => exact safe_exhausted hs.events
  | succ fuel ih =>
    rw [whileTurns]
    refine safe_bind (hcondition s hs) fun b s₁ hs₁ => ?_
    cases b with
    | false => exact safe_pure ⟨rfl, hs₁⟩
    | true =>
      refine safe_bind (hbody s₁ hs₁) ?_
      rintro (_ | result) s₂ ⟨hflow, hs₂⟩
      · exact ih hs₂
      · exact safe_pure ⟨hflow, hs₂⟩

theorem forTurns_safe {body : I32 → RunM Flow} {upper : I32}
    (hbody : ∀ current s, Typed c Γ s → Safe c (body current) s fun flow s' =>
      FlowTyped c returnType false flow ∧ Typed c Γ s') (fuel : ℕ) (current : I32) {s : RunState}
    (hs : Typed c Γ s) : Safe c (forTurns body upper fuel current) s fun flow s' =>
      FlowTyped c returnType false flow ∧ Typed c Γ s' := by
  induction fuel generalizing current s with
  | zero => exact safe_exhausted hs.events
  | succ fuel ih =>
    rw [forTurns]
    split
    · refine safe_bind (hbody current s hs) ?_
      rintro (_ | result) s₁ ⟨hflow, hs₁⟩
      · exact ih _ hs₁
      · exact safe_pure ⟨hflow, hs₁⟩
    · exact safe_pure ⟨rfl, hs⟩

omit [F32Primitives] in
/-- The operator of a compound assignment has the type of its target. -/
theorem binaryOp_result {op : AssignOp} {binary : BinaryOp} {ty : ValueType} (h : op.Allowed ty)
    (hop : binaryOp op = some binary) : binary.result ty = some ty ∧ binary.isLogical = false := by
  rcases h with rfl | ⟨hnumeric, hremainder⟩
  · cases hop
  · cases op <;> cases hop <;>
      simp_all [BinaryOp.result, BinaryOp.isLogical]

theorem evalAssigned_safe (hc : c.WellFormed) (henv : EnvTyped c env) {s : RunState}
    (hs : Typed c Γ s) {op : AssignOp} {value : Expr} {ty : ValueType} {current : ConstantValue}
    (hwf : ty.WellFormed c.structs) (hop : op.Allowed ty) (hcurrent : current.HasType c.structs ty)
    (h : HasType c Γ value (.value ty)) :
    Safe c (evalAssigned env current op value) s fun w s' =>
      w.HasType c.structs ty ∧ Typed c Γ s' := by
  unfold evalAssigned
  cases hbinary : binaryOp op with
  | none =>
    refine safe_bind ((evaluates hc henv h).1 _ _ ?_ hs) ?_
    · rw [hcurrent.ty_eq]
      exact fits_of_wellFormed hwf
    · rintro result s' ⟨⟨v, rfl, hv⟩, hs'⟩
      exact safe_pure ⟨hv, hs'⟩
  | some binary =>
    obtain ⟨hresult, hlogical⟩ := binaryOp_result hop hbinary
    have hnot : value.isArrayLiteral = false := h.isArrayLiteral (by
      obtain rfl | rfl | rfl := BinaryOp.scalar_of_result hresult <;> rfl)
    refine (evaluates hc henv h).1.required (fits_of_not_literal hnot) hs fun v s₁ hv hs₁ => ?_
    obtain ⟨hstuck, hok⟩ := runBinary_typed hresult hlogical hcurrent hv
    refine (safe_lift hs₁.events hstuck hok).mono ?_
    rintro w _ ⟨hw, rfl⟩
    exact ⟨hw, hs₁⟩

theorem execAssign_safe (hc : c.WellFormed) (henv : EnvTyped c env) {s : RunState}
    (hs : Typed c Γ s) {target value : Expr} {op : AssignOp} {root : Lvalue}
    (htarget : PlaceTyped c Γ target root) (hm : root.mutability = .mutable)
    (hop : op.Allowed root.ty) (hvalue : HasType c Γ value (.value root.ty)) :
    Safe c (execAssign env target op value) s fun _ s' => Typed c Γ s' := by
  have hwf := htarget.hasType.wellFormed hc hs.wellFormed htarget.isArrayLiteral _ rfl
  refine safe_bind ((evaluates hc henv htarget.hasType).2 root htarget s hs) ?_
  rintro ⟨name, path⟩ s₁ ⟨⟨hname, b, hb, hbm, hpath⟩, hs₁⟩
  dsimp only at hname hpath
  subst hname
  refine safe_bind (readPlace_safe henv hs₁ hb hpath) ?_
  rintro current _ ⟨hcurrent, rfl⟩
  refine safe_bind (evalAssigned_safe hc henv hs₁ hwf hop hcurrent hvalue) ?_
  rintro w s₂ ⟨hw, hs₂⟩
  refine safe_get (safe_note hs₂ ⟨b, ?_, hbm.trans hm⟩ fun s₃ hs₃ => ?_)
  · rw [hs₂.scopes]
    exact hb
  · exact writePlace_safe hs₃ hb (hbm.trans hm) hpath hw

theorem execReturn_safe (hc : c.WellFormed) (henv : EnvTyped c env) {s : RunState}
    (hs : Typed c Γ s) {value : Expr} {ty : ValueType} (hwf : ty.WellFormed c.structs)
    (h : HasType c Γ value (.value ty)) :
    Safe c (execReturn env (.value ty) (some value)) s fun flow s' =>
      (∃ v, flow = .returned (some v) ∧ v.HasType c.structs ty) ∧ Typed c Γ s' := by
  refine (evaluates hc henv h).1.required (fits_of_wellFormed hwf) hs fun v s₁ hv hs₁ => ?_
  exact safe_pure ⟨⟨v, rfl, hv⟩, hs₁⟩

theorem inside_of_typed {s : RunState} (hs : Typed c Γ s) : Inside c Γ s := ⟨Γ, rfl, hs⟩

/-- A block in a scope of its own. -/
theorem inScope_flow {m : RunM Flow} {scope : HashMap Binding} {values : HashMap ConstantValue}
    {s : RunState} {returns returns' : Bool} (hs : Typed c Γ s)
    (hscope : ScopeTyped c.structs Binding.ty scope values)
    (hwf : Scopes.WellFormed c.structs (scope :: Γ)) (hreturns : returns = false → returns' = false)
    (hm : ∀ s', Typed c (scope :: Γ) s' → Safe c m s' fun flow s' =>
      FlowTyped c returnType returns flow ∧ Inside c (scope :: Γ) s') :
    Safe c (inScope scope values m) s fun flow s' =>
      FlowTyped c returnType returns' flow ∧ Typed c Γ s' := by
  refine (inScope_safe hs hscope hwf hm).mono ?_
  rintro (_ | result) s' ⟨hflow, hs'⟩
  · exact ⟨hreturns hflow, hs'⟩
  · exact ⟨hflow, hs'⟩

/-- A statement that stays in its scopes. -/
theorem stays {returns : Bool} {m : RunM Flow} {s : RunState}
    (h : Safe c m s fun flow s' => FlowTyped c returnType returns flow ∧ Typed c Γ s') :
    Safe c m s fun flow s' =>
      FlowTyped c returnType returns flow ∧ Inside c Γ s' ∧ (flow = .next → Typed c Γ s') :=
  h.mono fun _ _ h => ⟨h.1, inside_of_typed h.2, fun _ => h.2⟩

theorem declareLocal_safe {s : RunState} (hs : Typed c Γ s) {name : String} {ty : ValueType}
    {v : ConstantValue} (hwf : ty.WellFormed c.structs) (hv : v.HasType c.structs ty) :
    Safe c (declareLocal name ty v) s fun _ s' =>
      Typed c (FunctionChecker.declare Γ name ⟨ty, .mutable⟩) s' := by
  refine safe_modify ⟨by rw [hs.scopes], hs.wellFormed.declare hwf, ?_, hs.globals, hs.events⟩
  have hlocals := hs.locals
  dsimp only
  generalize s.locals = locals at hlocals
  cases hlocals with
  | nil => exact .nil
  | cons hscope hrest => exact .cons (hscope.insert hv) hrest

mutual

theorem exec_safe (hc : c.WellFormed) (henv : EnvTyped c env)
    (hsame : SameTables c' c)
    (hret : c'.returnType = returnType) (hr : returnType.WellFormed c.structs) (fuel : ℕ) :
    (statement : Stmt) → ∀ {Γ Γ' : Scopes} {s}, StmtTyped c' Γ statement Γ' → Typed c Γ s →
      Safe c (exec env fuel returnType statement) s fun flow s' =>
        FlowTyped c returnType statement.returns flow ∧ Inside c Γ s' ∧
          (flow = .next → Typed c Γ' s')
  | .letVar name ty init span, Γ, _, s, .letVar hwf hinit, hs => by
    rw [hsame.structs] at hwf
    rw [exec]
    refine (evaluates hc henv (hsame.hasType hinit)).1.required (fits_of_wellFormed hwf) hs
      fun v s₁ hv hs₁ => safe_bind (declareLocal_safe hs₁ hwf hv) fun _ s₂ hs₂ => ?_
    exact safe_pure ⟨rfl, ⟨_, declare_tail Γ name _, hs₂⟩, fun _ => hs₂⟩
  | .assign target op value span, Γ, _, s, .assign htarget hm hvalue hop, hs => by
    rw [exec]
    refine stays (safe_bind (execAssign_safe hc henv hs (hsame.placeTyped htarget) hm hop
      (hsame.hasType hvalue)) fun _ s₁ hs₁ => ?_)
    exact safe_pure ⟨rfl, hs₁⟩
  | .expr e span, Γ, _, s, .expr hnot he, hs => by
    rw [exec]
    refine stays (safe_bind ((evaluates hc henv (hsame.hasType he)).1 _ _
      (fits_of_not_literal hnot) hs) ?_)
    rintro _ s₁ ⟨-, hs₁⟩
    exact safe_pure ⟨rfl, hs₁⟩
  | .ifElse condition thenBlock none span, Γ, _, s, .ifElse hcondition hthen _, hs => by
    rw [exec]
    refine stays (safe_bind (evalBool_safe hc henv hs (hsame.hasType hcondition))
      fun b s₁ hs₁ => ?_)
    cases b with
    | false =>
      rw [execElse]
      exact safe_pure ⟨rfl, hs₁⟩
    | true =>
      exact inScope_flow hs₁ scopeTyped_empty hs₁.wellFormed.push (fun _ => rfl) fun s₂ hs₂ =>
        execBlock_safe hc henv hsame hret hr fuel thenBlock hthen hs₂
  | .ifElse condition thenBlock (some elseBlock) span, Γ, _, s, .ifElse hcondition hthen helse,
      hs => by
    rw [exec]
    refine stays (safe_bind (evalBool_safe hc henv hs (hsame.hasType hcondition))
      fun b s₁ hs₁ => ?_)
    cases b with
    | false =>
      rw [execElse]
      exact inScope_flow hs₁ scopeTyped_empty hs₁.wellFormed.push
        (fun hflow => by simp [Stmt.returns, hflow]) fun s₂ hs₂ =>
          execBlock_safe hc henv hsame hret hr fuel elseBlock (helse elseBlock rfl) hs₂
    | true =>
      exact inScope_flow hs₁ scopeTyped_empty hs₁.wellFormed.push
        (fun hflow => by simp [Stmt.returns, hflow]) fun s₂ hs₂ =>
          execBlock_safe hc henv hsame hret hr fuel thenBlock hthen hs₂
  | .whileLoop condition body span, Γ, _, s, .whileLoop hcondition hbody, hs => by
    rw [exec]
    refine stays (whileTurns_safe (fun s hs => evalBool_safe hc henv hs
      (hsame.hasType hcondition)) (fun s₁ hs₁ => ?_) fuel hs)
    exact inScope_flow hs₁ scopeTyped_empty hs₁.wellFormed.push (fun _ => rfl) fun s₂ hs₂ =>
      execBlock_safe hc henv hsame hret hr fuel body hbody hs₂
  | .forLoop name nameSpan lower upper body span, Γ, _, s, .forLoop hlower hupper hbody, hs => by
    rw [exec]
    refine stays (safe_bind (evalI32_safe hc henv hs (hsame.hasType hlower))
      fun lower s₁ hs₁ => safe_bind (evalI32_safe hc henv hs₁ (hsame.hasType hupper))
        fun upper s₂ hs₂ => forTurns_safe (fun current s₃ hs₃ => ?_) fuel lower hs₂)
    have hwf : Scopes.WellFormed c.structs (AList.singleton name ⟨.i32, .loopVariable⟩ :: Γ) :=
      hs₃.wellFormed.cons fun {n b} hlookup => by
        obtain ⟨-, rfl⟩ := HashMap.lookup_singleton.mp hlookup
        trivial
    exact inScope_flow hs₃ (scopeTyped_singleton .i32) hwf (fun _ => rfl) fun s₄ hs₄ =>
      execBlock_safe hc henv hsame hret hr fuel body hbody hs₄
  | .ret none span, Γ, _, s, .ret hvoid, hs => by
    obtain rfl : returnType = .void := hret.symm.trans hvoid
    rw [exec]
    exact stays (safe_pure ⟨rfl, hs⟩)
  | .ret (some value) span, Γ, _, s, .retValue hty hvalue, hs => by
    obtain rfl : returnType = .value _ := hret.symm.trans hty
    rw [exec]
    refine stays ((execReturn_safe hc henv hs (hr _ rfl) (hsame.hasType hvalue)).mono ?_)
    rintro _ s₁ ⟨⟨v, rfl, hv⟩, hs₁⟩
    exact ⟨⟨v, rfl, hv⟩, hs₁⟩

theorem execBlock_safe (hc : c.WellFormed) (henv : EnvTyped c env)
    (hsame : SameTables c' c)
    (hret : c'.returnType = returnType) (hr : returnType.WellFormed c.structs) (fuel : ℕ) :
    (block : List Stmt) → ∀ {Γ : Scopes} {s}, BlockTyped c' Γ block → Typed c Γ s →
      Safe c (execBlock env fuel returnType block) s fun flow s' =>
        FlowTyped c returnType (blockReturns block) flow ∧ Inside c Γ s'
  | [], Γ, s, _, hs => by
    rw [execBlock]
    exact safe_pure ⟨rfl, inside_of_typed hs⟩
  | statement :: rest, Γ, s, .cons hstatement hrest, hs => by
    rw [execBlock]
    refine safe_bind (exec_safe hc henv hsame hret hr fuel statement hstatement hs) ?_
    rintro (_ | result) s₁ ⟨hflow, hinside, hnext⟩
    · refine (execBlock_safe hc henv hsame hret hr fuel rest hrest (hnext rfl)).mono ?_
      rintro flow s₂ ⟨hflow', Γ'', htail, hs₂⟩
      refine ⟨?_, Γ'', htail.trans (stmtTyped_tail hstatement), hs₂⟩
      have hflow : statement.returns = false := hflow
      rwa [blockReturns, hflow, Bool.false_or]
    · exact safe_pure ⟨hflow, hinside⟩

end

end Statements

/-! ## Functions -/

section Functions

variable {c' c : FunctionChecker} {Γ : Scopes} {env : Env}

omit [F32Primitives] in
/-- The scope of the parameters with their arguments. -/
theorem params_typed {structs : HashMap StructDecl} {params : List Param}
    {args : List ConstantValue} (hnodup : (params.map (·.name)).Nodup)
    (hargs : List.Forall₂ (ConstantValue.HasType structs) args (params.map (·.ty))) :
    ScopeTyped structs Binding.ty (paramScope params)
      (HashMap.ofList ((params.map (·.name)).zip args)) := by
  have hlen : args.length = params.length := by simpa using hargs.length_eq
  have hnames : ((params.map (·.name)).zip args).map (·.1) = params.map (·.name) := by
    rw [List.map_fst_zip]
    simp [hlen]
  have hscope : ((params.map fun param =>
      (param.name, (⟨param.ty, .mutable⟩ : Binding))).map (·.1)) = params.map (·.name) := by
    rw [List.map_map]
    rfl
  intro name
  constructor
  · intro b hb
    obtain ⟨param, hparam, heq⟩ := List.mem_map.mp (HashMap.mem_of_lookup_ofList hb)
    obtain ⟨rfl, rfl⟩ := Prod.mk.inj heq
    obtain ⟨i, hi, rfl⟩ := List.mem_iff_getElem.mp hparam
    have hi' : i < args.length := hlen ▸ hi
    refine ⟨args[i], HashMap.lookup_ofList_of_mem (by rwa [hnames]) ?_, ?_⟩
    · refine List.mem_iff_getElem.mpr ⟨i, by simpa using ⟨hi, hi'⟩, by simp⟩
    · simpa using (List.forall₂_iff_get.mp hargs).2 i hi' (by simpa using hi)
  · intro hnone
    refine HashMap.lookup_ofList_eq_none ?_
    rw [hnames, ← hscope]
    intro hmem
    rw [AList.lookup_eq_none, paramScope, HashMap.mem_ofList] at hnone
    exact hnone hmem

theorem runFunction_safe (hc : c.WellFormed) (henv : EnvTyped c env) (fuel : ℕ)
    {function : Function} (hsame : SameTables c' c) (hfunction : FunctionTyped c' function)
    (hwf : ∀ ty ∈ function.types, ty.WellFormed c.structs) {args : List ConstantValue}
    (hargs : List.Forall₂ (ConstantValue.HasType c.structs) args (function.params.map (·.ty)))
    {s : RunState} (hs : Typed c Γ s) :
    Safe c (runFunction env fuel function args) s fun result s' =>
      ResultTyped c.structs function.returnType result ∧ Typed c Γ s' := by
  have hparams : ∀ param ∈ function.params, param.ty.WellFormed c.structs := fun param hparam =>
    hwf _ (by simp only [Function.types, List.mem_append, List.mem_map]; exact .inl (.inl ⟨_, hparam, rfl⟩))
  have hreturn : function.returnType.WellFormed c.structs := fun ty hty =>
    hwf ty (by simp [Function.types, hty, ReturnType.types])
  have hsame' : SameTables { c' with returnType := function.returnType } c :=
    ⟨hsame.globals, hsame.constants, hsame.structs, hsame.functions⟩
  have hframe : Typed c [paramScope function.params] { s with
      scopes := [paramScope function.params]
      locals := [HashMap.ofList ((function.params.map (·.name)).zip args)] } :=
    ⟨rfl, paramScope_wellFormed hparams, .cons (params_typed hfunction.params hargs) .nil,
      hs.globals, hs.events⟩
  have hbody : Safe c (inFrame [paramScope function.params]
      [HashMap.ofList ((function.params.map (·.name)).zip args)]
      (execBlock env fuel function.returnType function.body)) s fun flow s' =>
        FlowTyped c function.returnType (blockReturns function.body) flow ∧ Typed c Γ s' := by
    refine safe_get (safe_bind (safe_set (P := fun _ s' => Typed c [paramScope function.params] s')
      hframe) fun _ s₁ hs₁ =>
      safe_bind (execBlock_safe hc henv hsame' rfl hreturn fuel function.body hfunction.body
        hs₁) ?_)
    rintro flow s₂ ⟨hflow, _, _, hs₂⟩
    exact safe_bind (safe_modify (P := fun _ s' => Typed c Γ s')
      ⟨hs.scopes, hs.wellFormed, hs.locals, hs₂.globals, hs₂.events⟩)
        fun _ s₃ hs₃ => safe_pure ⟨hflow, hs₃⟩
  refine safe_bind hbody ?_
  rintro flow s₁ ⟨hflow, hs₁⟩
  have hfinish : ∃ result, finish function.returnType flow = pure result ∧
      ResultTyped c.structs function.returnType result := by
    cases flow with
    | returned result => exact ⟨result, rfl, hflow⟩
    | next =>
      have hflow : blockReturns function.body = false := hflow
      have hvoid : function.returnType = .void := by
        by_contra hne
        simp [hfunction.returns hne] at hflow
      exact ⟨none, by rw [finish, if_pos hvoid], by rw [hvoid]; rfl⟩
  obtain ⟨result, hfinish, hresult⟩ := hfinish
  have hevent : (Event.return function.returnType result).Sound c := hresult
  rw [hfinish, pure_bind]
  exact safe_note hs₁ hevent fun s₂ hs₂ => safe_pure ⟨hresult, hs₂⟩

end Functions

/-! ## Programs -/

section Programs

omit [F32Primitives] in
/-- Declared values over values that are there before. -/
theorem scopeTyped_extend {structs : HashMap StructDecl} {types : HashMap ValueType}
    {values : HashMap ConstantValue} {α : Type} {declared : List α} {name : α → String}
    {ty : α → ValueType} {value : α → Option ConstantValue}
    (hbase : ScopeTyped structs id types values)
    (hvalues : ∀ a ∈ declared, ∃ v, value a = some v ∧ v.HasType structs (ty a)) :
    ScopeTyped structs id (types.extend (declared.map fun a => (name a, ty a)))
      (values.extend (declared.filterMap fun a => (value a).map (name a, ·))) := by
  induction declared generalizing types values with
  | nil => exact hbase
  | cons a rest ih =>
    simp only [List.forall_mem_cons] at hvalues
    obtain ⟨⟨v, hv, hty⟩, hrest⟩ := hvalues
    have hinsert : ScopeTyped structs id (types.insert (name a) (ty a))
        (values.insert (name a) v) := hbase.insert hty
    have hfilter : (a :: rest).filterMap (fun a => (value a).map (name a, ·)) =
        (name a, v) :: rest.filterMap fun a => (value a).map (name a, ·) := by
      rw [List.filterMap_cons, hv]
      rfl
    rw [hfilter]
    exact ih hinsert hrest

omit [F32Primitives] in
theorem predefinedValues_typed (structs : HashMap StructDecl) (resolution : Resolution) :
    ScopeTyped structs id (HashMap.ofList ((Builtins.constants resolution).map
      fun constant => (constant.name, constant.value.ty))) (predefinedValues resolution) := by
  have hempty : ScopeTyped structs id ∅ ∅ := fun name => by simp
  have hvalues : ∀ constant ∈ Builtins.constants resolution,
      ∃ v, some constant.value = some v ∧ v.HasType structs constant.value.ty := by
    intro constant hconstant
    obtain ⟨n, hn⟩ := Builtins.exists_i32_of_mem_constants hconstant
    exact ⟨_, rfl, by rw [hn]; exact .i32⟩
  have h := @scopeTyped_extend structs ∅ ∅ _ (Builtins.constants resolution) (·.name)
    (·.value.ty) (fun constant => some constant.value) hempty hvalues
  unfold predefinedValues
  simpa [HashMap.ofList] using h

variable {program : Program} {host : Host}

omit [F32Primitives] in
/-- What a host answers to a builtin function has its return type. -/
theorem answer_typed {structs : HashMap StructDecl} {builtin : BuiltinFunction}
    (h : builtin ∈ Builtins.functions) (events : List Event) :
    ResultTyped structs builtin.returnType (host.answer events builtin.returnType) := by
  have hall : ∀ builtin ∈ Builtins.functions, builtin.returnType = .void ∨
      builtin.returnType = .value .i32 ∨ builtin.returnType = .value .f32 ∨
      builtin.returnType = .value .bool := by
    decide
  rcases hall builtin h with hr | hr | hr | hr <;> rw [hr]
  · rfl
  · exact ⟨_, rfl, .i32⟩
  · exact ⟨_, rfl, .f32⟩
  · exact ⟨_, rfl, .bool⟩

omit [F32Primitives] in
theorem find?_of_lookup_signatures (hnodup : (program.namedFunctions.map (·.name)).Nodup)
    {name : String} {signature : Signature} (h : program.signatures.lookup name = some signature) :
    (∃ function ∈ program.namedFunctions,
      program.namedFunctions.find? (·.name == name) = some function ∧
        signature = function.signature) ∨
    program.namedFunctions.find? (·.name == name) = none ∧ ∃ builtin ∈ Builtins.functions,
      Builtins.functions.find? (·.name == name) = some builtin ∧
        signature = ⟨builtin.params, builtin.returnType⟩ := by
  cases hfind : program.namedFunctions.find? (·.name == name) with
  | some function =>
    have hmem := List.mem_of_find?_eq_some hfind
    obtain rfl : function.name = name := by simpa using List.find?_some hfind
    have hlookup : program.signatures.lookup function.name = some function.signature := by
      refine HashMap.lookup_extend_of_mem ?_ (List.mem_map_of_mem hmem)
      rw [List.map_map]
      exact hnodup
    exact .inl ⟨function, hmem, rfl, Option.some.inj (h.symm.trans hlookup)⟩
  | none =>
    rcases lookup_signatures h with ⟨function, hmem, rfl, -⟩ | ⟨builtin, hmem, rfl, rfl⟩
    · simpa using List.find?_eq_none.mp hfind function hmem
    · have hbuiltins : (Builtins.functions.map (·.name)).Nodup := by decide
      exact .inr ⟨rfl, builtin, hmem, find?_key_of_mem (·.name) hbuiltins hmem, rfl⟩

omit [F32Primitives] in
theorem namedFunctions_nodup (hnodup : program.names.Nodup) :
    (program.namedFunctions.map (·.name)).Nodup :=
  (List.nodup_append.mp hnodup).2.1

/-- Names are unique, types well formed, and every constant has a value of its type. -/
structure ProgramTyped (program : Program) : Prop where
  names : program.names.Nodup
  checker : (program.checker program.constantValues).WellFormed
  types : ∀ function ∈ program.functions, ∀ ty ∈ function.types,
    ty.WellFormed (structTable program.structs)
  constants : ∀ constant ∈ program.constants, ∃ v, constant.value = some v ∧
    v.HasType (structTable program.structs) constant.ty
  functions : ∀ function ∈ program.functions, ∃ values,
    FunctionTyped (program.checker values) function

theorem programTyped_of_checked (checked : CheckedProgram) : ProgramTyped checked.program where
  names := checked.names_nodup
  checker := checker_wellFormed checked.fieldNames checked.types
  types function hfunction ty hty := checked.types ty (by
    simp only [Program.types, List.mem_append, List.mem_flatMap]
    exact .inr ⟨function, hfunction, hty⟩)
  constants constant hconstant := by
    obtain ⟨v, hv, -, hty, -⟩ := checked.constants constant hconstant
    exact ⟨v, hv, hty⟩
  functions function hfunction := ⟨checked.values, checked.functions function hfunction⟩

omit [F32Primitives] in
theorem constantValues_typed (hprogram : ProgramTyped program) :
    ScopeTyped (structTable program.structs) id program.constantTypes program.constantValues :=
  scopeTyped_extend (predefinedValues_typed _ _) hprogram.constants

omit [F32Primitives] in
theorem sameTables_checker (program : Program) (values values' : HashMap ConstantValue) :
    SameTables (program.checker values) (program.checker values') := ⟨rfl, rfl, rfl, rfl⟩

/-- Every call is safe. The induction is on the fuel, which bounds the depth of calls. -/
theorem env_typed (hprogram : ProgramTyped program) (fuel : ℕ) :
    EnvTyped (program.checker program.constantValues) (env program host fuel) := by
  have hconstants := constantValues_typed hprogram
  induction fuel with
  | zero => exact ⟨rfl, rfl, hconstants, fun _ _ hs => safe_exhausted hs.events⟩
  | succ fuel ih =>
    refine ⟨rfl, rfl, hconstants, fun {name signature args Γ s} hlookup hargs hs => ?_⟩
    change Safe _ (call program host (fuel + 1) name args) s _
    rw [call]
    rcases find?_of_lookup_signatures (namedFunctions_nodup hprogram.names) hlookup with
      ⟨function, hmem, hfind, rfl⟩ | ⟨hnone, builtin, hmem, hfind, rfl⟩
    · have hfunction := (List.mem_filter.mp hmem).1
      obtain ⟨values, htyped⟩ := hprogram.functions function hfunction
      rw [hfind]
      exact runFunction_safe hprogram.checker ih fuel (sameTables_checker _ _ _) htyped
        (hprogram.types function hfunction) hargs hs
    · rw [hnone, hfind]
      exact safe_get (safe_pure ⟨answer_typed hmem s.events, hs⟩)

end Programs

end Source

open Source

/-- The declared globals with their initial values. -/
def Program.globalValues (program : Program) : HashMap ConstantValue :=
  (∅ : HashMap ConstantValue).extend
    (program.globals.filterMap fun global => global.value.map (global.name, ·))

variable [F32Primitives] {program program' : Program}

/-- A run of a function of an accepted program, of any length and from any store of globals of their
types, is not stuck. Its result and its globals are of their types, and everything that it
evaluates, calls, returns and assigns is as the checker says. -/
theorem runs_are_safe (hwritten : program.IsWritten) (h : check program = .ok program')
    (host : Host) (fuel : ℕ) {function : Function} (hfunction : function ∈ program'.functions)
    {args : List ConstantValue} (hargs : List.Forall₂
      (ConstantValue.HasType (structTable program'.structs)) args (function.params.map (·.ty)))
    {globals : HashMap ConstantValue}
    (hglobals : ScopeTyped (structTable program'.structs) id program'.globalTypes globals) :
    (run program' host fuel function args globals).1 ≠ .error .stuck ∧
      (∀ result, (run program' host fuel function args globals).1 = .ok result →
        ResultTyped (structTable program'.structs) function.returnType result ∧
        ScopeTyped (structTable program'.structs) id program'.globalTypes
          (run program' host fuel function args globals).2.globals) ∧
      ∀ event ∈ (run program' host fuel function args globals).2.events,
        event.Sound (program'.checker program'.constantValues) := by
  obtain ⟨checked, rfl, -, -, -⟩ := check_spec hwritten h
  have hprogram := programTyped_of_checked checked
  obtain ⟨values, htyped⟩ := hprogram.functions function hfunction
  have hstart : Typed (checked.program.checker checked.program.constantValues) []
      ⟨globals, [], [], []⟩ :=
    ⟨rfl, by simp [Scopes.WellFormed], .nil, hglobals, by simp⟩
  have henv : EnvTyped _ (env checked.program host fuel) := env_typed hprogram fuel
  have hsafe := runFunction_safe hprogram.checker henv fuel
    (sameTables_checker _ _ _) htyped (hprogram.types function hfunction) hargs hstart
  unfold Safe Leads at hsafe
  unfold run
  rcases hrun : (runFunction (env checked.program host fuel) fuel function args).run.run
    ⟨globals, [], [], []⟩ with ⟨stop | result, s⟩
  · rw [hrun] at hsafe
    cases stop with
    | stuck => exact hsafe.elim
    | failed failure => exact ⟨by simp, by simp, hsafe⟩
    | exhausted => exact ⟨by simp, by simp, hsafe⟩
  · rw [hrun] at hsafe
    obtain ⟨hresult, hs⟩ := hsafe
    refine ⟨by simp, ?_, hs.events⟩
    rintro _ ⟨⟩
    exact ⟨hresult, hs.globals⟩

/-- The initial values of the globals are of their types. -/
theorem globalValues_typed (hwritten : program.IsWritten) (h : check program = .ok program') :
    ScopeTyped (structTable program'.structs) id program'.globalTypes program'.globalValues :=
  scopeTyped_extend (fun name => by simp) fun global hglobal => by
    obtain ⟨v, hv, hty, -⟩ := (accepted_resolved hwritten h).2.2.2 global hglobal
    exact ⟨v, hv, hty⟩

/-- A host that answers zero to everything. -/
def Sample.host : Host := ⟨fun _ => 0, fun _ => F32.zero, fun _ => false⟩

omit [F32Primitives] in
theorem runs_are_safe_sample : ∃ program' function,
    @check softFloat Sample.program = .ok program' ∧ function ∈ program'.functions ∧
      (@run softFloat program' Sample.host 8 function [.f32 F32.zero] program'.globalValues).1 ≠
        .error .stuck := by
  let _ : F32Primitives := softFloat
  obtain ⟨program', h⟩ := Sample.accepted
  obtain ⟨checked, hchecked, -⟩ := check_spec Sample.isWritten h
  have hlength := checked.entryPoints .update (by simp)
  obtain ⟨function, hupdate⟩ := List.exists_mem_of_length_pos (hlength ▸ Nat.one_pos)
  obtain ⟨hfunction, hkind⟩ := List.mem_filter.mp hupdate
  have hparams := checked.update function hfunction (by simpa using hkind)
  rw [hchecked] at hfunction
  exact ⟨program', function, h, hfunction, (runs_are_safe Sample.isWritten h Sample.host 8 hfunction
    (by rw [hparams]; exact .cons .f32 .nil) (globalValues_typed Sample.isWritten h)).1⟩

end Speck
