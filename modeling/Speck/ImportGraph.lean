import Speck.Dependencies

/-!
# The import graph

`visit` loads a graph of readable source files exactly. It fails for an import cycle, for a walk
of more than 128 files from the root, and for a file whose path below the root's directory is not
UTF-8; otherwise every reachable file is loaded once, with its longest walk as its height. The
order of the imports does not matter.

The search keeps an order in which files were entered (`Progress`) : a file is finished or on the
active walk from the root. A walk that is too long is seen where it leaves the active walk,
because a finished file knows its longest walk.
-/

namespace Speck

/-! ## Outcomes of a computation -/

namespace LoadM

variable {State α β : Type} {post : α → State → Prop} {failed : List Diagnostic → Prop} {s : State}

/-- The computation does not panic, a result meets `post` and diagnostics meet `failed`. -/
def Meets (m : LoadM State α) (s : State) (post : α → State → Prop)
    (failed : List Diagnostic → Prop) : Prop :=
  match m s with
  | (.ok a, s') => post a s'
  | (.error diagnostics, _) => failed diagnostics
  | (.panicked, _) => False

theorem meets_bind {m : LoadM State α} {k : α → LoadM State β} {post : β → State → Prop}
    (mid : α → State → Prop) (h : m.Meets s mid failed)
    (hk : ∀ a s', mid a s' → (k a).Meets s' post failed) : (m >>= k).Meets s post failed := by
  change LoadM.Meets (andThen m k) s post failed
  unfold Meets andThen at *
  cases hm : m s with
  | mk result s' =>
    rw [hm] at h
    cases result with
    | ok a => exact hk a s' h
    | error diagnostics => exact h
    | panicked => exact h

/-- A computation that has this result. -/
theorem meets_bind_ok {m : LoadM State α} {k : α → LoadM State β} {post : β → State → Prop}
    {a : α} {t : State} (h : m s = (.ok a, t)) (hk : (k a).Meets t post failed) :
    (m >>= k).Meets s post failed := by
  refine meets_bind (fun b t' => b = a ∧ t' = t) ?_ ?_
  · unfold Meets
    rw [h]
    exact ⟨rfl, rfl⟩
  · rintro _ _ ⟨rfl, rfl⟩
    exact hk

theorem meets_pure {a : α} (h : post a s) : (pure a : LoadM State α).Meets s post failed := h

theorem meets_fail {diagnostics : List Diagnostic} (h : failed diagnostics) :
    (fail diagnostics : LoadM State α).Meets s post failed := h

theorem Meets.mono {m : LoadM State α} {post' : α → State → Prop} (h : m.Meets s post failed)
    (hpost : ∀ a s', post a s' → post' a s') : m.Meets s post' failed := by
  unfold Meets at *
  split at h
  · exact hpost _ _ h
  · exact h
  · exact h

end LoadM

/-! ## Source files and their imports -/

variable {Path Token : Type} [DecidableEq Path]

/-- A path that names a source file. -/
structure Spells (tools : Tools Path Token) (files : Files Path) (path canonical : Path) :
    Prop where
  extension : tools.extension path = some "spk"
  canonicalize : files.canonicalize path = .ok canonical

/-- A readable and lexable file with distinct aliases and relative paths, which imports `targets`
in this order. -/
structure SourceFile (tools : Tools Path Token) (files : Files Path) (canonical : Path)
    (targets : List Path) where
  directory : Path
  text : String
  parent : tools.parent canonical = some directory
  readable : files.readToString canonical = .ok text
  headers : ∀ id, ∃ tokens headers, tools.lexIn text id = .ok tokens ∧
    tools.importHeaders tokens = .ok headers ∧ (headers.map (·.alias)).Nodup ∧
    List.Forall₂ (fun header target => tools.isAbsolute header.path = false ∧
      Spells tools files (tools.join directory header.path) target) headers targets

/-- The root's directory, and the source files that can be reached from the root. -/
structure ImportGraph (tools : Tools Path Token) (files : Files Path) (targets : Path → List Path)
    (root directory : Path) : Prop where
  directory : tools.parent root = some directory
  source : ∀ canonical, Reachable targets root canonical →
    Nonempty (SourceFile tools files canonical (targets canonical))

/-- A cycle of imports, with its first file again at the end. -/
structure ImportCycle (targets : Path → List Path) (cycle : List Path) : Prop where
  chain : cycle.IsChain fun a b => b ∈ targets a
  closed : cycle.head? = cycle.getLast?
  length : 2 ≤ cycle.length

omit [DecidableEq Path] in
/-- An import cycle goes round. -/
theorem ImportCycle.transGen {targets : Path → List Path} {cycle : List Path}
    (h : ImportCycle targets cycle) :
    ∃ c ∈ cycle, Relation.TransGen (fun a b => b ∈ targets a) c c := by
  obtain ⟨hchain, hclosed, hlength⟩ := h
  cases cycle with
  | nil => simp at hlength
  | cons c rest =>
    have hwalk : Walk targets c (c :: rest) := ⟨rfl, hchain⟩
    rcases hwalk.cases_on with hsingle | ⟨b, hb, rest', hrest, hwalk'⟩
    · simp [hsingle] at hlength
    · obtain ⟨-, rfl⟩ := List.cons_eq_cons.mp hrest
      have hne : rest ≠ [] := by
        rintro rfl
        cases hwalk'.head
      rw [List.getLast?_cons_of_ne_nil hne] at hclosed
      exact ⟨c, List.mem_cons_self, .head' hb (hwalk'.reachable hclosed.symm)⟩

namespace Loader

/-- Why a graph of source files is rejected. -/
inductive Rejected (tools : Tools Path Token) (targets : Path → List Path)
    (root directory : Path) : List Diagnostic → Prop where
  | cycle {cycle : List Path} {span : Span} (closed : ImportCycle targets cycle)
      (reachable : ∀ canonical ∈ cycle, Reachable targets root canonical) :
      Rejected tools targets root directory [⟨cycleMessage tools cycle, span⟩]
  | depth {walk : List Path} {span : Span} (walk_of : Walk targets root walk)
      (long : maxImportDepth < walk.length) :
      Rejected tools targets root directory [⟨depthMessage, span⟩]
  | encoding {canonical : Path} {span : Span} (reachable : Reachable targets root canonical)
      (ne : canonical ≠ root) (invalid : tools.qualifier directory canonical = none) :
      Rejected tools targets root directory [⟨"module file paths must be valid UTF-8", span⟩]

/-- The module of a finished file, where `order` lists the files by their index : its height is
the longest walk, and its imports are those of the file and point to their targets. -/
structure Finished (tools : Tools Path Token) (files : Files Path) (targets : Path → List Path)
    (order : List Path) (canonical : Path) (module : LoadedModule Path Token) : Prop where
  height : Longest targets canonical module.height
  headers : tools.importHeaders module.tokens = .ok (module.imports.map (·.1))
  directory : tools.parent canonical = some module.directory
  imports : List.Forall₂ (fun i target =>
    Spells tools files (tools.join module.directory i.1.path) target ∧ order[i.2]? = some target)
    module.imports (targets canonical)

/-- The search after it has entered the files of `order`. -/
structure Progress (tools : Tools Path Token) (files : Files Path) (targets : Path → List Path)
    (root directory : Path) (order : List Path) (s : Loader Path Token) : Prop where
  nodup : order.Nodup
  identities : ∀ canonical index,
    s.identities.lookup canonical = some index ↔ order[index]? = some canonical
  length : s.modules.length = order.length
  sources : List.Forall₂ (fun file canonical => files.readToString canonical = .ok file.2)
    s.sources.files order
  reachable : ∀ canonical ∈ order, Reachable targets root canonical
  qualified : ∀ canonical ∈ order, canonical ≠ root →
    tools.qualifier directory canonical ≠ none
  first : order = [] ∨ order.head? = some root ∧ s.rootDir = some directory
  active : s.active ⊆ order
  walk : s.active = [] ∨ Walk targets root s.active
  depth : s.active.length ≤ maxImportDepth
  finished : ∀ (index : ℕ) canonical, order[index]? = some canonical → canonical ∉ s.active →
    ∃ module, s.modules[index]? = some (some module) ∧
      Finished tools files targets order canonical module

variable {tools : Tools Path Token} {files : Files Path} {targets : Path → List Path}
  {root directory : Path} {order : List Path} {s : Loader Path Token} {canonical : Path}

/-- A file that the active walk leads to. -/
def Next (targets : Path → List Path) (root : Path) (order : List Path) (s : Loader Path Token)
    (canonical : Path) : Prop :=
  order = [] ∧ canonical = root ∨ ∃ last, s.active.getLast? = some last ∧ canonical ∈ targets last

/-- No walk from the file makes the active walk too long. -/
def Fits (targets : Path → List Path) (s : Loader Path Token) (canonical : Path) : Prop :=
  ∀ walk, Walk targets canonical walk → s.active.length + walk.length ≤ maxImportDepth

theorem Next.reachable (h : Next targets root order s canonical)
    (hprogress : Progress tools files targets root directory order s) :
    Reachable targets root canonical := by
  obtain ⟨-, rfl⟩ | ⟨last, hlast, htarget⟩ := h
  · exact .refl
  · have hmem : last ∈ s.active := List.mem_of_getLast? hlast
    exact (hprogress.reachable last (hprogress.active hmem)).tail htarget

/-- A walk from the next file goes on from the active walk. -/
theorem Next.walk (h : Next targets root order s canonical)
    (hprogress : Progress tools files targets root directory order s) {walk : List Path}
    (hwalk : Walk targets canonical walk) :
    ∃ walk', Walk targets root walk' ∧ walk'.length = s.active.length + walk.length := by
  obtain ⟨rfl, rfl⟩ | ⟨last, hlast, htarget⟩ := h
  · have hactive : s.active = [] := List.eq_nil_of_subset_nil hprogress.active
    exact ⟨walk, hwalk, by simp [hactive]⟩
  · rcases hprogress.walk with hnil | hactive
    · simp [hnil] at hlast
    · exact ⟨_, hactive.append hlast htarget hwalk, by simp⟩

/-- An active file that is next closes a cycle. -/
theorem Next.cycle (h : Next targets root order s canonical)
    (hprogress : Progress tools files targets root directory order s)
    (hmem : canonical ∈ s.active) (span : Span) :
    Rejected tools targets root directory
      [⟨cycleMessage tools (s.active.drop (s.active.idxOf canonical) ++ [canonical]), span⟩] := by
  have hindex : s.active.idxOf canonical < s.active.length := List.idxOf_lt_length_of_mem hmem
  have hdrop : s.active.drop (s.active.idxOf canonical) =
      canonical :: s.active.drop (s.active.idxOf canonical + 1) := by
    rw [List.drop_eq_getElem_cons hindex, List.getElem_idxOf]
  have hchain : s.active.IsChain fun a b => b ∈ targets a := by
    rcases hprogress.walk with hnil | hactive
    · simp [hnil]
    · exact hactive.chain
  have hlast : ∀ last, (s.active.drop (s.active.idxOf canonical)).getLast? = some last →
      canonical ∈ targets last := by
    intro last hlast
    rw [List.getLast?_drop, if_neg (by omega)] at hlast
    obtain ⟨rfl, -⟩ | ⟨last', hlast', htarget⟩ := h
    · exact absurd (hprogress.active hmem) (List.not_mem_nil)
    · obtain rfl : last' = last := Option.some.inj (hlast'.symm.trans hlast)
      exact htarget
  refine .cycle ⟨?_, ?_, ?_⟩ ?_
  · refine (hchain.drop _).append (.singleton _) fun last hmem' first hfirst => ?_
    obtain rfl : canonical = first := by simpa using hfirst
    exact hlast last hmem'
  · rw [hdrop, List.getLast?_concat]
    rfl
  · rw [hdrop]
    simp
  · intro file hfile
    rcases List.mem_append.mp hfile with hfile | hfile
    · exact hprogress.reachable file (hprogress.active (List.mem_of_mem_drop hfile))
    · rw [List.mem_singleton.mp hfile]
      exact h.reachable hprogress

/-! ## The search -/

theorem recordDependency_files (path : Path) (sources : SourceMap Path) :
    (sources.recordDependency path).files = sources.files := by
  unfold SourceMap.recordDependency
  split
  · rfl
  · rfl

theorem Progress.record (h : Progress tools files targets root directory order s) (path : Path) :
    Progress tools files targets root directory order
      { s with sources := s.sources.recordDependency path } :=
  { h with sources := by simpa only [recordDependency_files] using h.sources }

/-- The height of a finished file is its longest walk. -/
theorem height_meets (h : Progress tools files targets root directory order s) {index : ℕ}
    (hindex : order[index]? = some canonical) (hactive : canonical ∉ s.active) :
    ∃ height', height index s = (.ok height', s) ∧ Longest targets canonical height' := by
  obtain ⟨module, hmodule, hfinished⟩ := h.finished index canonical hindex hactive
  refine ⟨module.height, ?_, hfinished.height⟩
  change LoadM.andThen LoadM.get (fun s => LoadM.andThen (LoadM.unwrap s.modules[index]?.join)
    fun module => Pure.pure module.height) s = _
  simp only [LoadM.andThen, LoadM.get, hmodule, Option.join_some, LoadM.unwrap]
  rfl

theorem heights_meet (h : Progress tools files targets root directory order s)
    {imports : List (Import × ℕ)} {cs : List Path}
    (himports : List.Forall₂ (fun i c => order[i.2]? = some c ∧ c ∉ s.active) imports cs) :
    ∃ heights, LoadM.forList (fun i : Import × ℕ => height i.2) imports s = (.ok heights, s) ∧
      List.Forall₂ (Longest targets) cs heights := by
  induction himports with
  | nil => exact ⟨[], rfl, .nil⟩
  | cons hfirst _ ih =>
    obtain ⟨first, hrun, hlongest⟩ := height_meets h hfirst.1 hfirst.2
    obtain ⟨heights, hruns, hlongests⟩ := ih
    refine ⟨first :: heights, ?_, .cons hlongest hlongests⟩
    change LoadM.andThen (height _) (fun b => LoadM.andThen (LoadM.forList _ _) fun bs =>
      Pure.pure (b :: bs)) s = _
    simp only [LoadM.andThen, hrun, hruns]
    rfl

/-- A file that has been visited from `s` : it has this index and is finished, and it does not
make the active walk too long. -/
structure Visited (tools : Tools Path Token) (files : Files Path) (targets : Path → List Path)
    (root directory : Path) (order : List Path) (s : Loader Path Token) (canonical : Path)
    (index : ℕ) (s' : Loader Path Token) (order' : List Path) : Prop where
  order : order <+: order'
  progress : Progress tools files targets root directory order' s'
  active : s'.active = s.active
  index : order'[index]? = some canonical
  finished : canonical ∉ s.active
  fits : Fits targets s canonical

/-- The imports of a file that have been visited from `s`. -/
structure VisitedImports (tools : Tools Path Token) (files : Files Path)
    (targets : Path → List Path) (root directory : Path) (order : List Path)
    (s : Loader Path Token) (parent : Path) (cs : List Path) (imports : List (Import × ℕ))
    (s' : Loader Path Token) (order' : List Path) : Prop where
  order : order <+: order'
  progress : Progress tools files targets root directory order' s'
  active : s'.active = s.active
  indices : List.Forall₂ (fun i c => Spells tools files (tools.join parent i.1.path) c ∧
    order'[i.2]? = some c ∧ c ∉ s.active ∧ Fits targets s c) imports cs

omit [DecidableEq Path] in
theorem getElem?_concat_eq_some {index : ℕ} {other : Path} :
    (order ++ [canonical])[index]? = some other ↔
      order[index]? = some other ∨ index = order.length ∧ other = canonical := by
  rw [List.getElem?_append]
  split
  · next hlt => exact ⟨.inl, fun h => h.resolve_right fun ⟨heq, _⟩ => by omega⟩
  · next hge =>
    have hnone : order[index]? = none := List.getElem?_eq_none (by omega)
    rw [hnone]
    by_cases heq : index = order.length
    · simp [heq, eq_comm]
    · have hpos : index - order.length ≠ 0 := by omega
      simp [heq, hpos]

omit [DecidableEq Path] in
theorem getElem?_of_prefix {order order' : List Path} (h : order <+: order') {index : ℕ}
    (hindex : order[index]? = some canonical) : order'[index]? = some canonical := by
  obtain ⟨rest, rfl⟩ := h
  rwa [List.getElem?_append_left (List.getElem?_eq_some_iff.mp hindex).1]

/-- A step of the search : how `visit` answers for the next file. -/
def Visits (tools : Tools Path Token) (files : Files Path) (targets : Path → List Path)
    (root directory : Path) (visit : Path → Option Span → LoadM (Loader Path Token) ℕ)
    (bound : ℕ) : Prop :=
  ∀ {order s path canonical span}, Progress tools files targets root directory order s →
    Next targets root order s canonical → Spells tools files path canonical →
    bound ≤ s.active.length →
    (visit path span).Meets s
      (fun index s' => ∃ order', Visited tools files targets root directory order s canonical index
        s' order')
      (Rejected tools targets root directory)

theorem visitImports_meets {visit : Path → Option Span → LoadM (Loader Path Token) ℕ} {bound : ℕ}
    (hvisit : Visits tools files targets root directory visit bound)
    {parent : Path} (hparent : tools.parent canonical = some parent)
    {headers : List Import} {cs : List Path} {aliases : List String}
    (hheaders : List.Forall₂ (fun header target => tools.isAbsolute header.path = false ∧
      Spells tools files (tools.join parent header.path) target) headers cs)
    (hdistinct : (headers.map (·.alias)).Nodup) (hfresh : ∀ header ∈ headers, header.alias ∉ aliases)
    (htargets : cs ⊆ targets canonical)
    (h : Progress tools files targets root directory order s)
    (hlast : s.active.getLast? = some canonical) (hbound : bound ≤ s.active.length) :
    (visitImports tools visit canonical aliases headers).Meets s
      (fun imports s' => imports.map (·.1) = headers ∧ ∃ order', VisitedImports tools files targets
        root directory order s parent cs imports s' order')
      (Rejected tools targets root directory) := by
  induction hheaders generalizing aliases s order with
  | nil => exact LoadM.meets_pure ⟨rfl, order, ⟨List.prefix_refl _, h, rfl, .nil⟩⟩
  | @cons header c headers cs hheader _ ih =>
    obtain ⟨hrelative, hspells⟩ := hheader
    obtain ⟨hfirst, hdistinct⟩ := List.nodup_cons.mp hdistinct
    obtain ⟨hnext, htargets⟩ := List.cons_subset.mp htargets
    unfold visitImports
    rw [if_neg (hfresh header List.mem_cons_self), if_neg (by simp [hrelative])]
    refine LoadM.meets_bind_ok (a := parent) (t := s) (by rw [hparent]; rfl) ?_
    refine LoadM.meets_bind _ (hvisit h (.inr ⟨canonical, hlast, hnext⟩) hspells hbound) ?_
    rintro index s₁ ⟨order₁, hvisited⟩
    have hactive : s₁.active = s.active := hvisited.active
    refine LoadM.meets_bind _ (ih hdistinct ?_ htargets hvisited.progress (by rw [hactive, hlast])
      (by rw [hactive]; exact hbound)) ?_
    · intro other hother hmem
      rcases List.mem_cons.mp hmem with hsame | hmem
      · exact hfirst (List.mem_map.mpr ⟨other, hother, hsame⟩)
      · exact hfresh other (List.mem_cons_of_mem _ hother) hmem
    · rintro imports s₂ ⟨hmap, order₂, hrest⟩
      refine LoadM.meets_pure ⟨by rw [List.map_cons, hmap], order₂, ?_⟩
      refine ⟨hvisited.order.trans hrest.order, hrest.progress, hrest.active.trans hactive, ?_⟩
      refine .cons ⟨hspells, getElem?_of_prefix hrest.order hvisited.index, hvisited.finished,
        hvisited.fits⟩ (hrest.indices.imp fun i c hi => ?_)
      obtain ⟨hspells', hindex, hfinished, hfits⟩ := hi
      rw [hactive] at hfinished
      refine ⟨hspells', hindex, hfinished, fun walk hwalk => ?_⟩
      have hle := hfits walk hwalk
      rwa [hactive] at hle

omit [DecidableEq Path] in
theorem Finished.of_prefix {module : LoadedModule Path Token} {order' : List Path}
    (h : Finished tools files targets order canonical module) (hextends : order <+: order') :
    Finished tools files targets order' canonical module :=
  { h with
    imports := h.imports.imp fun _ _ hi => ⟨hi.1, getElem?_of_prefix hextends hi.2⟩ }

/-- The state after `visitNew` has entered a file. -/
def entered (s : Loader Path Token) (directory canonical : Path) (file : Path × String) :
    Loader Path Token where
  sources := { s.sources with files := s.sources.files ++ [file] }
  identities := (canonical, s.modules.length) :: s.identities
  active := s.active ++ [canonical]
  modules := s.modules ++ [none]
  rootDir := some directory

/-- A file that has not been loaded can be entered. -/
theorem Progress.enter (h : Progress tools files targets root directory order s)
    (hnext : Next targets root order s canonical) (hnew : canonical ∉ order)
    (hqualified : canonical ≠ root → tools.qualifier directory canonical ≠ none)
    (hdepth : s.active.length + 1 ≤ maxImportDepth) {text : String} (path : Path)
    (hread : files.readToString canonical = .ok text) :
    Progress tools files targets root directory (order ++ [canonical])
      (entered s directory canonical (path, text)) where
  nodup := by
    rw [List.nodup_append]
    refine ⟨h.nodup, List.nodup_singleton _, fun a ha b hb => ?_⟩
    rw [List.mem_singleton.mp hb]
    exact fun hsame => hnew (hsame ▸ ha)
  identities := by
    intro other index
    have hlength : s.modules.length = order.length := h.length
    rw [getElem?_concat_eq_some]
    simp only [entered, List.lookup_cons]
    by_cases hsame : other = canonical
    · subst hsame
      have hnone : order[index]? ≠ some other := fun hindex => hnew (List.mem_of_getElem? hindex)
      simp [hnone, hlength, eq_comm]
    · have hbeq : (other == canonical) = false := beq_eq_false_iff_ne.mpr hsame
      simpa [hbeq, hsame] using h.identities other index
  length := by simp [entered, h.length]
  sources := List.rel_append h.sources (.cons hread .nil)
  reachable := by
    intro other hother
    rcases List.mem_append.mp hother with hother | hother
    · exact h.reachable other hother
    · rw [List.mem_singleton.mp hother]
      exact hnext.reachable h
  qualified := by
    intro other hother
    rcases List.mem_append.mp hother with hother | hother
    · exact h.qualified other hother
    · rw [List.mem_singleton.mp hother]
      exact hqualified
  first := by
    refine .inr ⟨?_, rfl⟩
    rcases h.first with rfl | ⟨hhead, -⟩
    · obtain ⟨-, rfl⟩ | ⟨last, hlast, -⟩ := hnext
      · rfl
      · exact absurd (h.active (List.mem_of_getLast? hlast)) (List.not_mem_nil)
    · rw [List.head?_append, hhead]
      rfl
  active := by
    intro other hother
    rcases List.mem_append.mp hother with hother | hother
    · exact List.mem_append_left _ (h.active hother)
    · exact List.mem_append_right _ hother
  walk := by
    right
    obtain ⟨rfl, rfl⟩ | ⟨last, hlast, htarget⟩ := hnext
    · have hactive : s.active = [] := List.eq_nil_of_subset_nil h.active
      simpa [entered, hactive] using Walk.singleton canonical
    · rcases h.walk with hnil | hactive
      · simp [hnil] at hlast
      · exact hactive.append hlast htarget (.singleton canonical)
  depth := by simpa [entered] using hdepth
  finished := by
    intro index other hindex hother
    simp only [entered, List.mem_append, List.mem_singleton, not_or] at hother
    rw [getElem?_concat_eq_some] at hindex
    have hold : order[index]? = some other := hindex.resolve_right fun ⟨_, hsame⟩ => hother.2 hsame
    obtain ⟨module, hmodule, hfinished⟩ := h.finished index other hold hother.1
    refine ⟨module, getElem?_of_prefix (List.prefix_append _ _) hmodule, ?_⟩
    exact hfinished.of_prefix (List.prefix_append _ _)

/-- A file is finished with its imports. -/
theorem Progress.leave {s' : Loader Path Token} {order' : List Path}
    (h : Progress tools files targets root directory order s) (hextends : order <+: order')
    (h' : Progress tools files targets root directory order' s')
    (hactive : s'.active = s.active ++ [canonical]) {index : ℕ}
    (hindex : order'[index]? = some canonical) {module : LoadedModule Path Token}
    (hmodule : Finished tools files targets order' canonical module) :
    Progress tools files targets root directory order'
      { s' with modules := s'.modules.set index (some module), active := s'.active.dropLast } := by
  have hback : s'.active.dropLast = s.active := by rw [hactive, List.dropLast_concat]
  have hlt : index < s'.modules.length := by
    rw [h'.length]
    exact (List.getElem?_eq_some_iff.mp hindex).1
  rw [hback]
  refine { h' with length := ?_, active := ?_, walk := h.walk, depth := h.depth, finished := ?_ }
  · simp [h'.length]
  · exact fun other hother => hextends.subset (h.active hother)
  · intro other canonical' hother hfinished
    by_cases hsame : other = index
    · subst hsame
      obtain rfl : canonical' = canonical := Option.some.inj (hother.symm.trans hindex)
      exact ⟨module, by simp [hlt], hmodule⟩
    · have hne : canonical' ≠ canonical := by
        rintro rfl
        have hlt' : other < order'.length := (List.getElem?_eq_some_iff.mp hother).1
        exact hsame ((List.getElem?_inj hlt' h'.nodup).mp (hother.trans hindex.symm))
      obtain ⟨module', hmodule', hdone⟩ := h'.finished other canonical' hother (by
        rw [hactive]
        simp [hfinished, hne])
      refine ⟨module', ?_, hdone⟩
      rw [List.getElem?_set_ne (Ne.symm hsame)]
      exact hmodule'

omit [DecidableEq Path] in
/-- The walks from a file fit, where those from its imports fit after it. -/
theorem fits_of_targets {s' : Loader Path Token} (hactive : s'.active = s.active ++ [canonical])
    (hdepth : s.active.length + 1 ≤ maxImportDepth)
    (h : ∀ c ∈ targets canonical, Fits targets s' c) : Fits targets s canonical := by
  intro walk hwalk
  rcases hwalk.cases_on with rfl | ⟨c, hc, rest, rfl, hrest⟩
  · simpa using hdepth
  · have hfits := h c hc rest hrest
    rw [hactive, List.length_append, List.length_singleton] at hfits
    rw [List.length_cons]
    omega

/-- Only the root is entered first. -/
theorem Next.eq_root (h : Next targets root [] s canonical)
    (hprogress : Progress tools files targets root directory [] s) : canonical = root := by
  obtain ⟨-, hsame⟩ | ⟨last, hlast, -⟩ := h
  · exact hsame
  · exact absurd (hprogress.active (List.mem_of_getLast? hlast)) List.not_mem_nil

/-- After the first file, the root directory is known. -/
theorem setRootDir_run (hgraph : ImportGraph tools files targets root directory)
    (h : Progress tools files targets root directory order s)
    (hnext : Next targets root order s canonical) :
    setRootDir tools canonical s = (.ok (), { s with rootDir := some directory }) := by
  have hlength : s.modules.length = order.length := h.length
  change LoadM.andThen LoadM.get (fun s => if s.modules.length = 0 then
    LoadM.andThen (LoadM.unwrap (tools.parent canonical)) fun directory =>
      LoadM.modify fun s => { s with rootDir := some directory } else Pure.pure ()) s = _
  simp only [LoadM.andThen, LoadM.get]
  rcases h.first with rfl | ⟨hhead, hroot⟩
  · obtain rfl : canonical = root := hnext.eq_root h
    have hempty : s.modules.length = 0 := hlength
    rw [if_pos hempty, hgraph.directory]
    rfl
  · have hne : s.modules.length ≠ 0 := by
      rw [hlength]
      intro hempty
      simp [List.length_eq_zero_iff.mp hempty] at hhead
    rw [if_neg hne, ← hroot]
    rfl

/-- The path of a file other than the root is UTF-8, or the graph is rejected. -/
theorem moduleQualifier_meets (h : Progress tools files targets root directory order s)
    (hnext : Next targets root order s canonical) (hnew : canonical ∉ order) (span : Span) :
    (moduleQualifier tools canonical span).Meets { s with rootDir := some directory }
      (fun _ s' => s' = { s with rootDir := some directory } ∧
        (canonical ≠ root → tools.qualifier directory canonical ≠ none))
      (Rejected tools targets root directory) := by
  have hlength : s.modules.length = order.length := h.length
  unfold moduleQualifier
  refine LoadM.meets_bind_ok (t := { s with rootDir := some directory }) rfl ?_
  rcases h.first with rfl | ⟨hhead, -⟩
  · have hempty : s.modules.length = 0 := hlength
    rw [if_pos hempty]
    exact LoadM.meets_pure ⟨rfl, fun hne => absurd (hnext.eq_root h) hne⟩
  · have hne : s.modules.length ≠ 0 := by
      rw [hlength]
      intro hempty
      simp [List.length_eq_zero_iff.mp hempty] at hhead
    have hroot : canonical ≠ root := by
      rintro rfl
      exact hnew (List.mem_of_head? hhead)
    rw [if_neg hne]
    refine LoadM.meets_bind_ok (a := directory) (t := { s with rootDir := some directory }) rfl ?_
    cases hqualifier : tools.qualifier directory canonical with
    | some qualifier => exact LoadM.meets_pure ⟨rfl, fun _ => by simp⟩
    | none => exact LoadM.meets_fail (.encoding (hnext.reachable h) hroot hqualifier)

theorem visitNew_meets (hgraph : ImportGraph tools files targets root directory)
    {visit : Path → Option Span → LoadM (Loader Path Token) ℕ} {bound : ℕ}
    (hvisit : Visits tools files targets root directory visit bound)
    (h : Progress tools files targets root directory order s)
    (hnext : Next targets root order s canonical) (hnew : canonical ∉ order)
    (hdepth : s.active.length + 1 ≤ maxImportDepth) (hbound : bound ≤ s.active.length + 1)
    (path : Path) (span : Span) :
    (visitNew tools files visit path canonical span).Meets s
      (fun index s' => ∃ order', Visited tools files targets root directory order s canonical index
        s' order')
      (Rejected tools targets root directory) := by
  obtain ⟨parent, text, hparent, hread, hheaders⟩ := hgraph.source canonical (hnext.reachable h)
  obtain ⟨tokens, headers, hlex, hparse, hdistinct, htargets⟩ := hheaders ⟨s.sources.files.length⟩
  unfold visitNew
  refine LoadM.meets_bind_ok (a := text) (t := s) ?_ ?_
  · unfold readSource
    rw [hread]
    rfl
  refine LoadM.meets_bind_ok (setRootDir_run hgraph h hnext) ?_
  refine LoadM.meets_bind _ (moduleQualifier_meets h hnext hnew span) ?_
  rintro qualifier _ ⟨rfl, hqualified⟩
  refine LoadM.meets_bind_ok (a := ⟨s.sources.files.length⟩) rfl ?_
  refine LoadM.meets_bind_ok (a := tokens) (by rw [hlex]; rfl) ?_
  refine LoadM.meets_bind_ok (a := headers) (by rw [hparse]; rfl) ?_
  refine LoadM.meets_bind_ok (a := s.modules.length) (t := entered s directory canonical _) rfl ?_
  have hentered := h.enter hnext hnew hqualified hdepth
    (if s.modules.length = 0 then path else canonical) hread
  refine LoadM.meets_bind _ (visitImports_meets hvisit hparent htargets hdistinct (by simp)
    (List.Subset.refl _) hentered (by simp [entered]) (by simpa [entered] using hbound)) ?_
  rintro imports s₁ ⟨hmap, order₁, himports⟩
  obtain ⟨heights, hheights, hlongest⟩ := heights_meet himports.progress
    (himports.indices.imp fun i c hi => ⟨hi.2.1, by rw [himports.active]; exact hi.2.2.1⟩)
  refine LoadM.meets_bind_ok hheights ?_
  refine LoadM.meets_bind_ok (a := parent) (t := s₁) (by rw [hparent]; rfl) ?_
  refine LoadM.meets_bind_ok (a := ()) rfl ?_
  have hextends : order <+: order₁ := (List.prefix_append _ _).trans himports.order
  have hindex : order₁[s.modules.length]? = some canonical := by
    refine getElem?_of_prefix himports.order ?_
    rw [h.length, List.getElem?_concat_length]
  have hfinished : Finished tools files targets order₁ canonical
      ⟨tokens, 1 + maxHeight heights, imports, qualifier, parent⟩ := by
    refine ⟨.of_targets hlongest, by rw [hmap]; exact hparse, hparent, ?_⟩
    exact himports.indices.imp fun i c hi => ⟨hi.1, hi.2.1⟩
  refine LoadM.meets_pure ⟨order₁, hextends, ?_, ?_, hindex, ?_, ?_⟩
  · exact h.leave hextends himports.progress himports.active hindex hfinished
  · change s₁.active.dropLast = s.active
    rw [himports.active]
    exact List.dropLast_concat
  · exact fun hactive => hnew (h.active hactive)
  · have hactive : (entered s directory canonical (path, text)).active = s.active ++ [canonical] := rfl
    refine fits_of_targets hactive hdepth fun c hc => ?_
    obtain ⟨i, hi, rfl⟩ := List.getElem_of_mem hc
    exact (himports.indices.get (by rw [himports.indices.length_eq]; exact hi) hi).2.2.2

theorem visit_meets (hgraph : ImportGraph tools files targets root directory) (fuel : ℕ) :
    Visits tools files targets root directory (visit tools files fuel)
      (maxImportDepth + 1 - fuel) := by
  induction fuel with
  | zero =>
    intro order s path canonical span h _ _ hbound
    have hdepth := h.depth
    omega
  | succ fuel ih =>
    intro order s path canonical span h hnext hspells hbound
    unfold visit
    refine LoadM.meets_bind_ok (a := ()) rfl ?_
    rw [if_neg (not_not.mpr hspells.extension)]
    refine LoadM.meets_bind_ok (a := canonical)
      (t := { s with sources := s.sources.recordDependency path }) ?_ ?_
    · unfold canonicalizeSource
      rw [hspells.canonicalize]
      rfl
    obtain ⟨s₂, hs₂⟩ : ∃ s₂ : Loader Path Token, s₂ =
        { s with
          sources := (s.sources.recordDependency path).recordDependency canonical } := ⟨_, rfl⟩
    have hrecorded : Progress tools files targets root directory order s₂ := by
      rw [hs₂]
      exact (h.record path).record canonical
    have hactive : s₂.active = s.active := by rw [hs₂]
    refine LoadM.meets_bind_ok (a := ()) (t := s₂) (by rw [hs₂]; rfl) ?_
    have hnext₂ : Next targets root order s₂ canonical := by
      unfold Next
      rw [hactive]
      exact hnext
    refine LoadM.meets_bind_ok (a := s₂) (t := s₂) rfl ?_
    split
    · next hmem => exact LoadM.meets_fail (hnext₂.cycle hrecorded hmem _)
    · next hmem =>
      cases hlookup : s₂.identities.lookup canonical with
      | some index =>
        have hindex := (hrecorded.identities canonical index).mp hlookup
        obtain ⟨height', hheight, hlongest⟩ := height_meets hrecorded hindex hmem
        refine LoadM.meets_bind_ok hheight ?_
        split
        · next hdeep =>
          obtain ⟨walk, hwalk, hlength⟩ := hlongest.reached
          obtain ⟨walk', hwalk', hlength'⟩ := hnext₂.walk hrecorded hwalk
          exact LoadM.meets_fail (.depth hwalk' (by omega))
        · next hfits =>
          refine LoadM.meets_pure ⟨order, List.prefix_refl _, hrecorded, hactive, hindex, ?_, ?_⟩
          · rwa [← hactive]
          · intro walk hwalk
            have hlength := hlongest.bound walk hwalk
            rw [← hactive]
            omega
      | none =>
        have hnew : canonical ∉ order := by
          intro hmem'
          obtain ⟨index, hindex⟩ := List.getElem?_of_mem hmem'
          rw [(hrecorded.identities canonical index).mpr hindex] at hlookup
          cases hlookup
        change (if _ then _ else _ : LoadM (Loader Path Token) ℕ).Meets _ _ _
        split
        · next hdeep =>
          obtain ⟨walk', hwalk', hlength'⟩ := hnext₂.walk hrecorded (.singleton canonical)
          rw [List.length_singleton] at hlength'
          exact LoadM.meets_fail (.depth hwalk' (by omega))
        · next hfits =>
          refine (visitNew_meets hgraph ih hrecorded hnext₂ hnew (by omega) ?_ path _).mono ?_
          · rw [hactive]
            omega
          · rintro index s' ⟨order', hvisited⟩
            refine ⟨order', hvisited.order, hvisited.progress, hvisited.active.trans hactive,
              hvisited.index, ?_, ?_⟩
            · rw [← hactive]
              exact hvisited.finished
            · intro walk hwalk
              rw [← hactive]
              exact hvisited.fits walk hwalk

/-- The files that can be reached have no cycle, no walk of more than 128 files, and paths in
UTF-8 below the root's directory. -/
structure Loadable (tools : Tools Path Token) (targets : Path → List Path)
    (root directory : Path) : Prop where
  acyclic : ∀ canonical, Reachable targets root canonical →
    ¬Relation.TransGen (fun a b => b ∈ targets a) canonical canonical
  depth : ∀ walk, Walk targets root walk → walk.length ≤ maxImportDepth
  encoding : ∀ canonical, Reachable targets root canonical → canonical ≠ root →
    tools.qualifier directory canonical ≠ none

omit [DecidableEq Path] in
theorem Rejected.not_loadable {diagnostics : List Diagnostic}
    (h : Rejected tools targets root directory diagnostics) :
    ¬Loadable tools targets root directory := by
  intro hloadable
  cases h with
  | cycle hclosed hreachable =>
    obtain ⟨c, hc, hcycle⟩ := hclosed.transGen
    exact hloadable.acyclic c (hreachable c hc) hcycle
  | depth hwalk hlong =>
    have hle := hloadable.depth _ hwalk
    omega
  | encoding hreachable hne hinvalid => exact hloadable.encoding _ hreachable hne hinvalid

/-- Every reachable file is loaded once, as the module of its index, and the root comes first. -/
structure Loaded (tools : Tools Path Token) (files : Files Path) (targets : Path → List Path)
    (root : Path) (order : List Path) (s : Loader Path Token) : Prop where
  nodup : order.Nodup
  reachable : ∀ canonical, canonical ∈ order ↔ Reachable targets root canonical
  root : order[0]? = some root
  sources : List.Forall₂ (fun file canonical => files.readToString canonical = .ok file.2)
    s.sources.files order
  length : s.modules.length = order.length
  modules : ∀ (index : ℕ) canonical, order[index]? = some canonical →
    ∃ module, s.modules[index]? = some (some module) ∧
      Finished tools files targets order canonical module

/-- When no file is active, the search has loaded everything. -/
theorem Progress.loaded (h : Progress tools files targets root directory order s)
    (hactive : s.active = []) (hne : order ≠ []) : Loaded tools files targets root order s := by
  have hroot : order.head? = some root := by
    rcases h.first with hnil | ⟨hhead, -⟩
    · exact absurd hnil hne
    · exact hhead
  have hmodules : ∀ (index : ℕ) canonical, order[index]? = some canonical →
      ∃ module, s.modules[index]? = some (some module) ∧
        Finished tools files targets order canonical module :=
    fun index canonical hindex => h.finished index canonical hindex (by simp [hactive])
  refine ⟨h.nodup, fun canonical => ⟨h.reachable canonical, fun hreachable => ?_⟩, ?_, h.sources,
    h.length, hmodules⟩
  · induction hreachable with
    | refl => exact List.mem_of_head? hroot
    | tail _ hc ih =>
      obtain ⟨index, hindex⟩ := List.getElem?_of_mem ih
      obtain ⟨module, -, hfinished⟩ := hmodules index _ hindex
      obtain ⟨i, hi, rfl⟩ := List.getElem_of_mem hc
      exact List.mem_of_getElem? (hfinished.imports.get
        (by rw [hfinished.imports.length_eq]; exact hi) hi).2
  · rw [← List.head?_eq_getElem?]
    exact hroot

theorem start_progress : Progress tools files targets root directory []
    (start : Loader Path Token) where
  nodup := .nil
  identities := by simp [start]
  length := rfl
  sources := .nil
  reachable := by simp
  qualified := by simp
  first := .inl rfl
  active := List.Subset.refl _
  walk := .inl rfl
  depth := Nat.zero_le _
  finished := by simp

/-- Loading is exact : the search does not unwrap an unfinished entry, it succeeds if and only if
the graph is loadable, it loads every reachable file once, and otherwise it names a cycle, a walk
or a path that makes the graph unloadable. -/
theorem visit_exact (hgraph : ImportGraph tools files targets root directory) {path : Path}
    (hpath : Spells tools files path root) (span : Option Span) {fuel : ℕ}
    (hfuel : maxImportDepth < fuel) :
    (visit tools files fuel path span).Meets start
      (fun index s => index = 0 ∧ ∃ order, Loaded tools files targets root order s)
      (Rejected tools targets root directory) ∧
    ((∃ index s, visit tools files fuel path span start = (.ok index, s)) ↔
      Loadable tools targets root directory) := by
  have hvisit : (visit tools files fuel path span).Meets start _ _ :=
    visit_meets hgraph fuel start_progress (.inl ⟨rfl, rfl⟩) hpath (by omega)
  unfold LoadM.Meets at *
  cases hresult : visit tools files fuel path span start with
  | mk result s =>
    rw [hresult] at hvisit
    cases result with
    | panicked => exact hvisit.elim
    | error diagnostics =>
      refine ⟨hvisit, ?_, fun hloadable => absurd hloadable hvisit.not_loadable⟩
      rintro ⟨index, s', heq⟩
      cases heq
    | ok index =>
      obtain ⟨order, hvisited⟩ := hvisit
      have hmem : root ∈ order := List.mem_of_getElem? hvisited.index
      have hloaded := hvisited.progress.loaded hvisited.active (List.ne_nil_of_mem hmem)
      have hbound : ∀ walk, Walk targets root walk → walk.length ≤ maxImportDepth := by
        intro walk hwalk
        simpa [start] using hvisited.fits walk hwalk
      refine ⟨⟨?_, order, hloaded⟩, fun _ => ⟨?_, hbound, ?_⟩, fun _ => ⟨index, s, rfl⟩⟩
      · have hlt : index < order.length := (List.getElem?_eq_some_iff.mp hvisited.index).1
        exact (List.getElem?_inj hlt hloaded.nodup).mp (hvisited.index.trans hloaded.root.symm)
      · exact fun canonical hreachable => acyclic_of_bound hbound hreachable
      · exact fun canonical hreachable =>
          hvisited.progress.qualified canonical ((hloaded.reachable canonical).mpr hreachable)

end Loader

namespace ParentImport

/-- A file name, which may not be UTF-8. -/
inductive Name where
  | utf8 (name : String)
  | other (bytes : List UInt8)
  deriving DecidableEq

def Name.text : Name → Option String
  | .utf8 name => some name
  | .other _ => none

/-- `import "../lib.spk" as lib`. -/
def header : Import := ⟨"lib", "../lib.spk", ⟨⟨0⟩, 0, 26⟩⟩

/-- A game that imports a file of the directory above its own. -/
def main (home : Name) : List Name := [home, .utf8 "game", .utf8 "main.spk"]

def lib (home : Name) : List Name := [home, .utf8 "lib.spk"]

def targets (home : Name) (path : List Name) : List (List Name) :=
  if path = main home then [lib home] else []

/-- The tokens of the two files are their import headers. -/
def tools : Tools (List Name) Import where
  extension path :=
    if path.getLast? ∈ [some (.utf8 "main.spk"), some (.utf8 "lib.spk")] then some "spk" else none
  isAbsolute path := path ≠ header.path
  parent path := if path = [] then none else some path.dropLast
  join path name :=
    if name = header.path then path ++ [.utf8 "..", .utf8 "lib.spk"] else path ++ [.utf8 name]
  qualifier root path :=
    let below := if root.isPrefixOf path then path.drop root.length else path
    (below.mapM Name.text).map "/".intercalate
  display path := "/".intercalate (path.map fun name => name.text.getD "\uFFFD")
  lexIn text _ := if text = "import \"../lib.spk\" as lib" then .ok [header] else .ok []
  importHeaders tokens := .ok tokens
  declaredStructNames _ := []
  parseFile _ _ _ := .error [⟨"expected a game declaration", default⟩]
  resolve modules := .ok modules
  validate _ := .error "not a WAV file"

def files (home : Name) : Files (List Name) where
  canonicalize path :=
    if path = [home, .utf8 "game", .utf8 "..", .utf8 "lib.spk"] then .ok (lib home) else .ok path
  readToString path :=
    if path = main home then .ok "import \"../lib.spk\" as lib"
    else if path = lib home then .ok ""
    else .error "No such file or directory (os error 2)"
  metadata _ := .ok ⟨true, 0⟩
  openFile _ := .error "No such file or directory (os error 2)"

theorem graph (home : Name) :
    ImportGraph tools (files home) (targets home) (main home) [home, .utf8 "game"] := by
  refine ⟨rfl, fun canonical h => ?_⟩
  have hcases : canonical = main home ∨ canonical = lib home := by
    induction h with
    | refl => exact .inl rfl
    | tail _ hc ih =>
      rcases ih with rfl | rfl
      · simp [targets] at hc
        exact .inr hc
      · simp [targets, main, lib] at hc
  rcases hcases with rfl | rfl
  · refine ⟨[home, .utf8 "game"], "import \"../lib.spk\" as lib", rfl, by simp [files], fun id => ?_⟩
    refine ⟨[header], [header], rfl, rfl, by simp, ?_⟩
    simp only [targets, if_true]
    refine .cons ⟨by decide, by simp [tools, header], ?_⟩ .nil
    simp [files, tools, header]
  · refine ⟨[home], "", rfl, by simp [files, main, lib], fun id => ⟨[], [], rfl, rfl, by simp, ?_⟩⟩
    simp [targets, main, lib]

theorem walk_length {home : Name} {walk : List (List Name)}
    (h : Walk (targets home) (main home) walk) : walk.length ≤ 2 := by
  rcases h.cases_on with rfl | ⟨b, hb, rest, rfl, hrest⟩
  · simp
  · obtain rfl : b = lib home := by simpa [targets] using hb
    rcases hrest.cases_on with rfl | ⟨b, hb, _⟩
    · simp
    · simp [targets, main, lib] at hb

/-- A name in Latin-1. -/
def foreign : Name := .other [0xE9]

end ParentImport

open ParentImport in
/-- A file in a directory whose name is not UTF-8 is rejected, though the graph has two readable
files and no cycle. -/
theorem Loader.visit_not_utf8 :
    ImportGraph tools (files foreign) (targets foreign) (main foreign) [foreign, .utf8 "game"] ∧
    Spells tools (files foreign) (main foreign) (main foreign) ∧
    (∀ canonical, Reachable (targets foreign) (main foreign) canonical →
      ¬Relation.TransGen (fun a b => b ∈ targets foreign a) canonical canonical) ∧
    (∀ walk, Walk (targets foreign) (main foreign) walk → walk.length ≤ maxImportDepth) ∧
    (visit tools (files foreign) (maxImportDepth + 1) (main foreign) none start).1 =
      .error [⟨"module file paths must be valid UTF-8", header.span⟩] := by
  have hbound : ∀ walk, Walk (targets foreign) (main foreign) walk →
      walk.length ≤ maxImportDepth := by
    intro walk hwalk
    have hlong := walk_length hwalk
    have hlimit : 2 ≤ maxImportDepth := by decide
    omega
  exact ⟨graph _, ⟨by decide, by decide⟩, fun _ h => acyclic_of_bound hbound h, hbound, rfl⟩

open ParentImport in
theorem Loader.visit_exact_sample :
    (visit tools (files (.utf8 "home")) (maxImportDepth + 1) (main (.utf8 "home")) none).Meets start
      (fun index s => index = 0 ∧ ∃ order,
        Loaded tools (files (.utf8 "home")) (targets (.utf8 "home")) (main (.utf8 "home")) order s)
      (Rejected tools (targets (.utf8 "home")) (main (.utf8 "home")) [.utf8 "home", .utf8 "game"]) ∧
    ((∃ index s, visit tools (files (.utf8 "home")) (maxImportDepth + 1) (main (.utf8 "home")) none
      start = (.ok index, s)) ↔
      Loadable tools (targets (.utf8 "home")) (main (.utf8 "home")) [.utf8 "home", .utf8 "game"]) :=
  visit_exact (graph _) ⟨by decide, by decide⟩ none (by decide)

end Speck
