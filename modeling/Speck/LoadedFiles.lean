import Speck.ImportHeaders
import Speck.ValidSpans

/-!
# Loaded files

Every file that the loader has finished is the tokens of a text that it keeps, with the imports of its
headers under distinct aliases (`Loader.Kept`). The diagnostics of the loader have valid spans, except
for an entry file that could not be read (`Reported`), which is before there is any text.
-/

set_option linter.unusedSectionVars false

namespace Speck

/-! ## Computations that end -/

namespace LoadM

variable {State α β : Type} {s : State} {post : α → State → Prop}
  {failed : List Diagnostic → State → Prop}

/-- A result meets `post` and diagnostics meet `failed`, with the states that they leave. -/
def Ends (m : LoadM State α) (s : State) (post : α → State → Prop)
    (failed : List Diagnostic → State → Prop) : Prop :=
  match m s with
  | (.ok a, s') => post a s'
  | (.error diagnostics, s') => failed diagnostics s'
  | (.panicked, _) => True

theorem Ends.bind {m : LoadM State α} {k : α → LoadM State β} {post : β → State → Prop}
    {Q : α → State → Prop} (h : m.Ends s Q failed)
    (hk : ∀ a s', Q a s' → (k a).Ends s' post failed) : (m >>= k).Ends s post failed := by
  change Ends (andThen m k) s post failed
  unfold Ends andThen at *
  cases hm : m s with
  | mk result s' =>
    rw [hm] at h
    cases result with
    | ok a => exact hk a s' h
    | error diagnostics => exact h
    | panicked => trivial

theorem ends_pure {a : α} (h : post a s) : (pure a : LoadM State α).Ends s post failed := h

theorem ends_fail {diagnostics : List Diagnostic} (h : failed diagnostics s) :
    (fail diagnostics : LoadM State α).Ends s post failed := h

theorem ends_ofExcept {result : Except (List Diagnostic) α} (hok : ∀ a, result = .ok a → post a s)
    (herror : ∀ diagnostics, result = .error diagnostics → failed diagnostics s) :
    (ofExcept result).Ends s post failed := by
  cases result with
  | ok a => exact hok a rfl
  | error diagnostics => exact herror diagnostics rfl

theorem ends_unwrap {a : Option α} (h : ∀ b, a = some b → post b s) :
    (unwrap a).Ends s post failed := by
  cases a with
  | none => exact trivial
  | some b => exact h b rfl

theorem Ends.mono {m : LoadM State α} {post' : α → State → Prop} (h : m.Ends s post failed)
    (hpost : ∀ a s', post a s' → post' a s') : m.Ends s post' failed := by
  unfold Ends at *
  split at h
  · exact hpost _ _ h
  · exact h
  · trivial

/-- A loop that keeps what it needs of the state. -/
theorem ends_forList {f : α → LoadM State β} {as : List α} {keeps : State → Prop}
    {relates : α → β → Prop}
    (hf : ∀ a ∈ as, ∀ s, keeps s → (f a).Ends s (fun b s' => keeps s' ∧ relates a b) failed)
    (hs : keeps s) :
    (forList f as).Ends s (fun bs s' => keeps s' ∧ List.Forall₂ relates as bs) failed := by
  induction as generalizing s with
  | nil => exact ⟨hs, .nil⟩
  | cons a as ih =>
    rw [forList]
    refine Ends.bind (hf a List.mem_cons_self s hs) fun b s' hb => ?_
    have hrest := ih (fun a ha => hf a (List.mem_cons_of_mem _ ha)) hb.1
    refine Ends.bind hrest fun bs s'' hbs => ?_
    exact ⟨hbs.1, .cons hb.2 hbs.2⟩

/-- What a run shows that has a result. -/
theorem Ends.of_run {m : LoadM State α} {a : α} {s' : State} (h : m.Ends s post failed)
    (hrun : m s = (.ok a, s')) : post a s' := by
  unfold Ends at h
  rwa [hrun] at h

theorem bind_eq_ok {m : LoadM State α} {k : α → LoadM State β} {b : β} {t : State}
    (h : (m >>= k) s = (.ok b, t)) : ∃ a s', m s = (.ok a, s') ∧ k a s' = (.ok b, t) := by
  change andThen m k s = _ at h
  unfold andThen at h
  split at h
  · next a s' hm => exact ⟨a, s', hm, h⟩
  · cases h
  · cases h

end LoadM

/-! ## Kept texts -/

variable {Path : Type} [DecidableEq Path]

abbrev Loader.texts (s : Loader Path Token) : List Text := s.sources.files.map (·.2.toList)

/-- The tokens of a kept text, with the imports of its headers. -/
structure FromFile (texts : List Text) (tokens : List Token) (imports : List (Import × ℕ)) : Prop where
  file : ∃ id text, texts[id]? = some text ∧ TokensOf ⟨id⟩ text tokens
  headers : headersOf tokens = .ok (imports.map (·.1))
  aliases : (imports.map (·.1.alias)).Nodup

theorem FromFile.mono {texts texts' : List Text} {tokens : List Token} {imports : List (Import × ℕ)}
    (h : FromFile texts tokens imports) (hmore : texts <+: texts') :
    FromFile texts' tokens imports := by
  obtain ⟨⟨id, text, htext, htokens⟩, hheaders, haliases⟩ := h
  obtain ⟨rest, rfl⟩ := hmore
  obtain ⟨hlt, -⟩ := List.getElem?_eq_some_iff.mp htext
  exact ⟨⟨id, text, by rwa [List.getElem?_append_left hlt], htokens⟩, hheaders, haliases⟩

/-- Every finished file is one of the kept texts. -/
def Loader.Kept (s : Loader Path Token) : Prop :=
  ∀ module, some module ∈ s.modules → FromFile s.texts module.tokens module.imports

/-- A span that a diagnostic may have : a valid one, or that of the entry file before it is read. -/
def Reported (texts : List Text) (span : Span) : Prop :=
  span.ValidIn texts ∨ (texts = [] ∧ span = default)

abbrev Loader.Failed (diagnostics : List Diagnostic) (s : Loader Path Token) : Prop :=
  ∀ d ∈ diagnostics, Reported s.texts d.span

theorem Loader.failed_singleton {message : String} {span : Span} {s : Loader Path Token}
    (h : Reported s.texts span) : Loader.Failed [⟨message, span⟩] s :=
  List.forall_mem_singleton.mpr h

/-! ## Headers -/

/-- The imports of a file and the errors of its headers have valid spans. -/
theorem headersOf_spans {id : SourceId} {text : Text} {tokens : List Token}
    (h : TokensOf id text tokens) :
    match headersOf tokens with
    | .ok imports => ∀ header ∈ imports, Covers tokens header.span
    | .error diagnostics => ∀ d ∈ diagnostics, Covers tokens d.span := by
  have hcovered := @importHeaders_covered tokens h.ends false (by simp)
  unfold headersOf
  cases hscan : Cursor.importHeaders false tokens with
  | ok headers =>
    rw [hscan] at hcovered
    exact hcovered
  | error stop =>
    rw [hscan] at hcovered
    cases stop with
    | diagnostic d => exact List.forall_mem_singleton.mpr hcovered
    | fault fault => exact absurd h.oneFile hcovered.2

/-! ## Visits -/

namespace Loader

open LoadM

/-- What a computation keeps of the texts from a state on. -/
abbrev Continues (s s' : Loader Path Token) : Prop := s'.Kept ∧ s.texts <+: s'.texts

theorem Kept.of_modules {s s' : Loader Path Token} (h : s.Kept)
    (hmodules : ∀ module, some module ∈ s'.modules → some module ∈ s.modules)
    (htexts : s.texts <+: s'.texts) : s'.Kept :=
  fun module hmodule => (h module (hmodules module hmodule)).mono htexts

theorem recordDependency_texts (path : Path) (sources : SourceMap Path) :
    (sources.recordDependency path).files = sources.files := by
  unfold SourceMap.recordDependency
  split <;> rfl

theorem recordDependency_ends {s : Loader Path Token} (h : s.Kept) (path : Path) :
    (recordDependency path : LoadM (Loader Path Token) Unit).Ends s
      (fun _ s' => s'.Kept ∧ s'.texts = s.texts) Failed := by
  have htexts : Loader.texts { s with sources := s.sources.recordDependency path } = s.texts := by
    rw [texts, recordDependency_texts]
  exact ⟨h.of_modules (fun _ hmem => hmem) (htexts ▸ List.prefix_refl _), htexts⟩

variable {paths : PathTools Path}

theorem visitImports_ends {visit : Path → Option Span → LoadM (Loader Path Token) ℕ}
    (hvisit : ∀ path span s, s.Kept → Reported s.texts span →
      (visit path (some span)).Ends s (fun _ s' => Continues s s') Failed)
    (canonical : Path) (headers : List Import) :
    ∀ {aliases : List String} {s : Loader Path Token}, s.Kept →
      (∀ header ∈ headers, header.span.ValidIn s.texts) →
      (visitImports paths.tools visit canonical aliases headers).Ends s
        (fun imports s' => Continues s s' ∧ imports.map (·.1) = headers ∧
          (headers.map (·.alias)).Nodup ∧ ∀ header ∈ headers, header.alias ∉ aliases) Failed := by
  induction headers with
  | nil => exact fun hs _ => ⟨⟨hs, List.prefix_refl _⟩, rfl, List.nodup_nil, by simp⟩
  | cons header headers ih =>
    intro aliases s hs hspans
    have hspan : Reported s.texts header.span := .inl (hspans header List.mem_cons_self)
    rw [visitImports]
    split
    · exact ends_fail (failed_singleton hspan)
    · next halias =>
      split
      · exact ends_fail (failed_singleton hspan)
      · refine Ends.bind (Q := fun _ t => s = t) (ends_unwrap fun _ _ => rfl) ?_
        rintro directory _ rfl
        refine Ends.bind (hvisit _ _ _ hs hspan) fun target s' hs' => ?_
        have hrest := @ih (header.alias :: aliases) _ hs'.1 fun h hh =>
          (hspans h (List.mem_cons_of_mem _ hh)).mono hs'.2
        refine Ends.bind hrest fun imports s'' hs'' => ?_
        obtain ⟨hcontinues, hmap, hnodup, hfresh⟩ := hs''
        refine ⟨⟨hcontinues.1, hs'.2.trans hcontinues.2⟩, by rw [List.map_cons, hmap], ?_, ?_⟩
        · rw [List.map_cons, List.nodup_cons]
          refine ⟨fun hmem => ?_, hnodup⟩
          obtain ⟨h, hh, heq⟩ := List.mem_map.mp hmem
          exact hfresh h hh (heq ▸ List.mem_cons_self)
        · exact List.forall_mem_cons.mpr
            ⟨halias, fun h hh hmem => hfresh h hh (List.mem_cons_of_mem _ hmem)⟩

/-- A computation that fails or leaves the texts and the modules as they are. -/
theorem Kept.of_eq {s s' : Loader Path Token} (h : s.Kept) (hmodules : s'.modules = s.modules)
    (htexts : s'.texts = s.texts) : s'.Kept :=
  h.of_modules (fun _ hmem => hmodules ▸ hmem) (htexts ▸ List.prefix_refl _)

theorem setRootDir_ends {s : Loader Path Token} (hs : s.Kept) (canonical : Path) :
    (setRootDir paths.tools canonical : LoadM (Loader Path Token) Unit).Ends s
      (fun _ s' => s'.Kept ∧ s'.texts = s.texts) Failed := by
  unfold setRootDir
  refine Ends.bind (Q := fun a t => s = a ∧ s = t) ⟨rfl, rfl⟩ ?_
  rintro _ _ ⟨rfl, rfl⟩
  split
  · refine Ends.bind (Q := fun _ t => s = t) (ends_unwrap fun _ _ => rfl) ?_
    rintro directory _ rfl
    exact ⟨hs.of_eq rfl rfl, rfl⟩
  · exact ends_pure ⟨hs, rfl⟩

theorem moduleQualifier_ends {s : Loader Path Token} (hs : s.Kept) (canonical : Path) {span : Span}
    (hspan : Reported s.texts span) :
    (moduleQualifier paths.tools canonical span : LoadM (Loader Path Token) String).Ends s
      (fun _ s' => s'.Kept ∧ s'.texts = s.texts) Failed := by
  unfold moduleQualifier
  refine Ends.bind (Q := fun a t => s = a ∧ s = t) ⟨rfl, rfl⟩ ?_
  rintro _ _ ⟨rfl, rfl⟩
  split
  · exact ends_pure ⟨hs, rfl⟩
  · refine Ends.bind (Q := fun _ t => s = t) (ends_unwrap fun _ _ => rfl) ?_
    rintro root _ rfl
    split
    · exact ends_pure ⟨hs, rfl⟩
    · exact ends_fail (failed_singleton hspan)

theorem addSource_ends {s : Loader Path Token} (hs : s.Kept) (path canonical : Path)
    (source : String) : (addSource path canonical source : LoadM (Loader Path Token) SourceId).Ends s
      (fun id s' => Continues s s' ∧ s'.texts[id.id]? = some source.toList) Failed := by
  have htexts (path : Path) : (s.sources.files ++ [(path, source)]).map (·.2.toList) =
      s.texts ++ [source.toList] := by
    rw [List.map_append, List.map_singleton]
  have hmore (path : Path) :
      s.texts <+: (s.sources.files ++ [(path, source)]).map (·.2.toList) := by
    rw [htexts]
    exact List.prefix_append _ _
  have hlength : s.texts.length = s.sources.files.length := List.length_map _
  refine ⟨⟨hs.of_modules (fun _ hmem => hmem) (hmore _), hmore _⟩, ?_⟩
  · change (List.map _ (s.sources.files ++ _))[s.sources.files.length]? = _
    rw [htexts, ← hlength, List.getElem?_concat_length]

theorem enter_ends {s : Loader Path Token} (hs : s.Kept) (canonical : Path) :
    (enter canonical : LoadM (Loader Path Token) ℕ).Ends s
      (fun _ s' => s'.Kept ∧ s'.texts = s.texts) Failed := by
  refine ⟨hs.of_modules (fun module hmem => ?_) (List.prefix_refl _), rfl⟩
  rcases List.mem_append.mp hmem with hmem | hmem
  · exact hmem
  · cases List.mem_singleton.mp hmem

theorem leave_ends {s : Loader Path Token} (hs : s.Kept) (index : ℕ)
    {module : LoadedModule Path Token}
    (hmodule : FromFile s.texts module.tokens module.imports) :
    (leave index module : LoadM (Loader Path Token) Unit).Ends s
      (fun _ s' => s'.Kept ∧ s'.texts = s.texts) Failed := by
  refine ⟨fun other hother => ?_, rfl⟩
  rcases List.mem_or_eq_of_mem_set hother with hmem | heq
  · exact hs other hmem
  · obtain rfl := Option.some.inj heq
    exact hmodule

theorem height_ends (s : Loader Path Token) (index : ℕ) :
    (height index : LoadM (Loader Path Token) ℕ).Ends s (fun _ t => s = t) Failed := by
  unfold height
  refine Ends.bind (Q := fun a t => s = a ∧ s = t) ⟨rfl, rfl⟩ ?_
  rintro _ _ ⟨rfl, rfl⟩
  refine Ends.bind (Q := fun _ t => s = t) (ends_unwrap fun _ _ => rfl) ?_
  rintro _ _ rfl
  exact ends_pure rfl

theorem heights_ends (s : Loader Path Token) (imports : List (Import × ℕ)) :
    (forList (fun i : Import × ℕ => height i.2) imports : LoadM (Loader Path Token) (List ℕ)).Ends s
      (fun _ t => s = t) Failed := by
  have hloop : (forList (fun i : Import × ℕ => (height i.2 : LoadM (Loader Path Token) ℕ))
      imports).Ends s (fun bs t => s = t ∧ List.Forall₂ (fun _ _ => True) imports bs) Failed := by
    refine ends_forList (fun i _ t ht => ?_) rfl
    obtain rfl := ht
    exact (height_ends s i.2).mono fun _ _ h => ⟨h, trivial⟩
  exact hloop.mono fun _ _ h => h.1

/-- A file that is read for the first time. -/
theorem visitNew_ends {files : Files Path}
    {visit : Path → Option Span → LoadM (Loader Path Token) ℕ}
    (hvisit : ∀ path span s, s.Kept → Reported s.texts span →
      (visit path (some span)).Ends s (fun _ s' => Continues s s') Failed)
    (path canonical : Path) {span : Span} {s : Loader Path Token} (hs : s.Kept)
    (hspan : Reported s.texts span) :
    (visitNew paths.tools files visit path canonical span).Ends s
      (fun _ s' => Continues s s') Failed := by
  unfold visitNew
  refine Ends.bind (Q := fun _ t => s = t) ?_ ?_
  · refine ends_ofExcept (fun _ _ => rfl) fun diagnostics h => ?_
    cases hread : files.readToString canonical with
    | ok text =>
      rw [hread] at h
      cases h
    | error failure =>
      rw [hread] at h
      obtain rfl := Except.error.inj h
      exact failed_singleton hspan
  rintro source _ rfl
  refine Ends.bind (setRootDir_ends hs canonical) fun _ s₁ h₁ => ?_
  have hspan₁ : Reported s₁.texts span := by rwa [h₁.2]
  refine Ends.bind (moduleQualifier_ends h₁.1 canonical hspan₁) fun qualifier s₂ h₂ => ?_
  refine Ends.bind (addSource_ends h₂.1 path canonical source) fun id s₃ h₃ => ?_
  obtain ⟨⟨hkept₃, hmore₃⟩, hsource⟩ := h₃
  have hlex := lexTextIn_spans source.toList id
  refine Ends.bind (Q := fun tokens t => s₃ = t ∧ TokensOf id source.toList tokens)
    (ends_ofExcept (fun tokens h => ⟨rfl, ?_⟩) fun diagnostics h d hd => ?_) ?_
  · change lexTextIn source.toList id = _ at h
    rwa [h] at hlex
  · change lexTextIn source.toList id = _ at h
    rw [h] at hlex
    obtain ⟨heq, hpiece⟩ := hlex d hd
    exact .inl ⟨_, by rwa [heq], hpiece⟩
  rintro tokens _ ⟨rfl, htokens⟩
  have hheaders := headersOf_spans htokens
  refine Ends.bind (Q := fun headers t => s₃ = t ∧ headersOf tokens = .ok headers ∧
      ∀ header ∈ headers, Covers tokens header.span)
    (ends_ofExcept (fun headers h => ⟨rfl, h, ?_⟩) fun diagnostics h d hd => ?_) ?_
  · change headersOf tokens = _ at h
    rwa [h] at hheaders
  · change headersOf tokens = _ at h
    rw [h] at hheaders
    exact .inl ((hheaders d hd).validIn htokens hsource)
  rintro headers _ ⟨rfl, hok, hcovers⟩
  refine Ends.bind (enter_ends hkept₃ canonical) fun index s₄ h₄ => ?_
  have hspans : ∀ header ∈ headers, header.span.ValidIn s₄.texts := fun header hheader => by
    rw [h₄.2]
    exact (hcovers header hheader).validIn htokens hsource
  refine Ends.bind (visitImports_ends hvisit canonical headers h₄.1 hspans) fun imports s₅ h₅ => ?_
  obtain ⟨⟨hkept₅, hmore₅⟩, himports, hnodup, -⟩ := h₅
  refine Ends.bind (heights_ends s₅ imports) ?_
  rintro heights _ rfl
  refine Ends.bind (Q := fun _ t => s₅ = t) (ends_unwrap fun _ _ => rfl) ?_
  rintro directory _ rfl
  have hfile : FromFile s₅.texts tokens imports := by
    have hbefore : FromFile s₄.texts tokens imports :=
      ⟨⟨id.id, source.toList, by rwa [h₄.2], htokens⟩, by rwa [himports], by
        rw [← himports, List.map_map] at hnodup
        exact hnodup⟩
    exact hbefore.mono hmore₅
  refine Ends.bind (leave_ends hkept₅ index hfile) fun _ s₆ h₆ => ends_pure ⟨h₆.1, ?_⟩
  rw [h₆.2]
  refine List.IsPrefix.trans ?_ hmore₅
  rw [h₄.2]
  rw [← h₁.2, ← h₂.2]
  exact hmore₃

/-- The loader keeps every text that it has read. -/
theorem visit_ends {files : Files Path} (fuel : ℕ) :
    ∀ (path : Path) (importSpan : Option Span) (s : Loader Path Token), s.Kept →
      Reported s.texts (importSpan.getD default) →
      (visit paths.tools files fuel path importSpan).Ends s (fun _ s' => Continues s s') Failed := by
  induction fuel with
  | zero => exact fun _ _ _ _ _ => trivial
  | succ fuel ih =>
    intro path importSpan s hs hspan
    rw [visit]
    refine Ends.bind (recordDependency_ends hs path) fun _ s₁ h₁ => ?_
    rw [← h₁.2] at hspan
    split
    · exact ends_fail (failed_singleton hspan)
    · refine Ends.bind (Q := fun _ t => s₁ = t) ?_ ?_
      · refine ends_ofExcept (fun _ _ => rfl) fun diagnostics h => ?_
        cases hcanonical : files.canonicalize path with
        | ok canonical =>
          rw [hcanonical] at h
          cases h
        | error failure =>
          rw [hcanonical] at h
          obtain rfl := Except.error.inj h
          exact failed_singleton hspan
      rintro canonical _ rfl
      refine Ends.bind (recordDependency_ends h₁.1 canonical) fun _ s₂ h₂ => ?_
      rw [← h₂.2] at hspan
      have hcontinues : Continues s s₂ := ⟨h₂.1, by simp [h₂.2, h₁.2]⟩
      refine Ends.bind (Q := fun a t => s₂ = a ∧ s₂ = t) ⟨rfl, rfl⟩ ?_
      rintro _ _ ⟨rfl, rfl⟩
      split
      · exact ends_fail (failed_singleton hspan)
      · split
        · next index hindex =>
          refine Ends.bind (Q := fun _ t => s₂ = t) ?_ ?_
          · exact height_ends s₂ index
          rintro height _ rfl
          split
          · exact ends_fail (failed_singleton hspan)
          · exact ends_pure hcontinues
        · split
          · exact ends_fail (failed_singleton hspan)
          · refine (visitNew_ends (fun path span s hs hspan => ih path (some span) s hs hspan) path
              canonical h₂.1 hspan).mono fun _ s' h => ⟨h.1, hcontinues.2.trans h.2⟩

end Loader

end Speck
