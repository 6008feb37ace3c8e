import Mathlib.Data.List.AList
import Speck.Dependencies
import Speck.Runs
import Speck.Session
import Speck.SourceTexts

/-!
# The watch loop

`run` of the development watcher : it polls the recorded dependencies, waits until they are
quiet, analyzes and builds the game, and launches it if nothing has changed meanwhile.

The file system changes between two observations, and during one : a `View` is what one
observation reads, path by path, and every step of the loop reads a view of its own. The outcome
of an analysis is arbitrary too, unless the file system has been the same since it started.
-/

set_option linter.unusedSectionVars false

namespace Speck

namespace Watch

variable {Path ErrorKind : Type} [DecidableEq Path] [DecidableEq ErrorKind]

/-! ## Stamps -/

structure MetadataStamp (ErrorKind : Type) where
  length : ℕ
  modified : Except ErrorKind ℤ
  isFile : Bool
  isDirectory : Bool
  device : ℕ
  inode : ℕ
  mode : ℕ
  changedSeconds : ℤ
  changedNanoseconds : ℤ
  deriving DecidableEq

inductive Observation (ErrorKind : Type) where
  | contents (result : Except ErrorKind (List UInt8))
  | metadata (result : Except ErrorKind (MetadataStamp ErrorKind))
  deriving DecidableEq

structure Stamp (Path ErrorKind : Type) where
  target : Option Path
  observation : Observation ErrorKind
  deriving DecidableEq

/-- What an observation reads at each path : its canonical target, its contents and its
metadata. -/
structure View (Path ErrorKind : Type) where
  canonicalize : Path → Option Path
  read : Path → Except ErrorKind (List UInt8)
  metadata : Path → Except ErrorKind (MetadataStamp ErrorKind)

namespace Stamp

variable (view : View Path ErrorKind)

def contents (path : Path) : Stamp Path ErrorKind :=
  ⟨view.canonicalize path, .contents (view.read path)⟩

def metadata (path : Path) : Stamp Path ErrorKind :=
  ⟨view.canonicalize path, .metadata (view.metadata path)⟩

/-- Observe the same kind again. -/
def refresh (stamp : Stamp Path ErrorKind) (path : Path) : Stamp Path ErrorKind :=
  match stamp.observation with
  | .contents _ => contents view path
  | .metadata _ => metadata view path

def observedContents (stamp : Stamp Path ErrorKind) : Option (Except ErrorKind (List UInt8)) :=
  match stamp.observation with
  | .contents contents => some contents
  | .metadata _ => none

end Stamp

/-! ## Snapshots -/

/-- `BTreeMap<PathBuf, Stamp>`. -/
abbrev Snapshot (Path ErrorKind : Type) := AList fun _ : Path => Stamp Path ErrorKind

instance : DecidableEq (Snapshot Path ErrorKind) := fun snapshot snapshot' =>
  decidable_of_iff (snapshot.entries = snapshot'.entries) AList.ext_iff.symm

def current (view : View Path ErrorKind) (previous : Snapshot Path ErrorKind) :
    Snapshot Path ErrorKind where
  entries := previous.entries.map (.map id fun path stamp => stamp.refresh view path)
  nodupKeys := by
    have hkeys : (previous.entries.map (.map id fun path stamp => stamp.refresh view path) :
        List (Σ _ : Path, Stamp Path ErrorKind)).keys = previous.entries.keys := by
      simp only [List.keys, List.map_map]
      rfl
    rw [List.NodupKeys, hkeys]
    exact previous.nodupKeys

/-- `file.text().as_bytes()`. -/
def textBytes (text : String) : List UInt8 := text.toUTF8.data.toList

/-- A resource is stamped by its metadata. -/
def dependencyStamp (view : View Path ErrorKind) (sources : SourceMap Path) (path : Path) :
    Stamp Path ErrorKind :=
  if path ∈ sources.files.map (·.1) then .contents view path else .metadata view path

def afterAnalysis (view : View Path ErrorKind) (sources : SourceMap Path)
    (before : Snapshot Path ErrorKind) (success : Bool) : Snapshot Path ErrorKind × Bool :=
  let next := sources.dependencies.foldl
    (fun next path => next.insert path (dependencyStamp view sources path))
    (if success then ∅ else current view before)
  let changed := (next.entries.any fun entry => before.lookup entry.1 ≠ some entry.2) ||
    sources.files.any fun file =>
      match (next.lookup file.1).bind Stamp.observedContents with
      | none => true
      | some contents => contents ≠ .ok (textBytes file.2)
  (next, changed)

/-! ## What an observation says -/

section Observations

variable {view : View Path ErrorKind} {sources : SourceMap Path} {success : Bool}
  {before snapshot : Snapshot Path ErrorKind} {path : Path} {stamp : Stamp Path ErrorKind}

theorem lookup_current :
    (current view snapshot).lookup path =
      (snapshot.lookup path).map fun stamp => stamp.refresh view path :=
  List.dlookup_map₂ path

/-- Nothing has changed : every recorded stamp is observed again. -/
theorem current_eq_self_iff : current view snapshot = snapshot ↔
    ∀ path stamp, snapshot.lookup path = some stamp → stamp.refresh view path = stamp := by
  constructor
  · intro h path stamp hlookup
    have hsame : (current view snapshot).lookup path = snapshot.lookup path := by rw [h]
    rw [lookup_current, hlookup] at hsame
    exact Option.some.inj hsame
  · intro h
    refine AList.ext ?_
    refine (List.map_congr_left fun entry hentry => ?_).trans (List.map_id _)
    have hlookup : snapshot.lookup entry.1 = some entry.2 := AList.mem_lookup_iff.mpr hentry
    exact Sigma.ext rfl (heq_of_eq (h entry.1 entry.2 hlookup))

theorem Stamp.refresh_refresh :
    (stamp.refresh view path).refresh view path = stamp.refresh view path := by
  rcases stamp with ⟨target, contents | metadata⟩
  · rfl
  · rfl

theorem dependencyStamp_refresh :
    (dependencyStamp view sources path).refresh view path = dependencyStamp view sources path := by
  unfold dependencyStamp
  split
  · rfl
  · rfl

theorem lookup_insertAll (stampOf : Path → Stamp Path ErrorKind) (paths : List Path) :
    (paths.foldl (fun next path => next.insert path (stampOf path)) snapshot).lookup path =
      if path ∈ paths then some (stampOf path) else snapshot.lookup path := by
  induction paths generalizing snapshot with
  | nil => simp
  | cons first paths ih =>
    rw [List.foldl_cons, ih]
    by_cases hmem : path ∈ paths
    · simp [hmem]
    · by_cases hfirst : path = first
      · subst hfirst
        simp [hmem]
      · simp [hmem, hfirst, AList.lookup_insert_ne hfirst]

/-- The recorded dependencies are observed, and after a failure what was known before. -/
theorem lookup_afterAnalysis : (afterAnalysis view sources before success).1.lookup path =
    if path ∈ sources.dependencies then some (dependencyStamp view sources path)
    else if success then none
    else (before.lookup path).map fun stamp => stamp.refresh view path := by
  unfold afterAnalysis
  rw [lookup_insertAll]
  split
  · rfl
  · split
    · rfl
    · exact lookup_current

/-- An analysis is good if it was observed before as after it, with the texts that it read. -/
theorem afterAnalysis_unchanged : (afterAnalysis view sources before success).2 = false ↔
    (∀ path stamp, (afterAnalysis view sources before success).1.lookup path = some stamp →
      before.lookup path = some stamp) ∧
    ∀ file ∈ sources.files,
      ((afterAnalysis view sources before success).1.lookup file.1).bind Stamp.observedContents =
        some (.ok (textBytes file.2)) := by
  unfold afterAnalysis
  simp only [Bool.or_eq_false_iff, List.any_eq_false, decide_eq_true_eq, not_not]
  refine and_congr ⟨fun h path stamp hlookup => ?_, fun h entry hentry => ?_⟩
    (forall₂_congr fun file _ => ?_)
  · exact h ⟨path, stamp⟩ (AList.mem_lookup_iff.mp hlookup)
  · exact h entry.1 entry.2 (AList.mem_lookup_iff.mpr hentry)
  · split
    · next hnone => simp [hnone]
    · next contents hsome => simp [hsome]

end Observations

/-! ## The loop -/

/-- A game that has been launched, with the analysis that it was built from and the snapshots
before the analysis, after it and after the native build. -/
structure Launch (Path ErrorKind : Type) where
  sources : SourceMap Path
  before : Snapshot Path ErrorKind
  after : Snapshot Path ErrorKind
  built : Snapshot Path ErrorKind

/-- An analysis and the snapshot that was taken with it. -/
structure Analysis (Path ErrorKind : Type) where
  sources : SourceMap Path
  next : Snapshot Path ErrorKind

/-- Where the loop is. -/
inductive Pc (Path ErrorKind : Type) where
  /-- The head of the loop. -/
  | head
  /-- `before` has been observed for an analysis. -/
  | observed (before : Snapshot Path ErrorKind)
  | analyzing (before : Snapshot Path ErrorKind)
  /-- The analysis is good and its game is being built. -/
  | building (before : Snapshot Path ErrorKind) (sources : SourceMap Path)
  /-- The game is polled. -/
  | poll
  /-- The recorded paths are observed. -/
  | observe
  | debounce
  /-- `run` has returned. -/
  | returned (result : Except String Unit)

/-- The state of `run`, with the launches, the number of analyses started and the last one. -/
structure Watcher (Path ErrorKind : Type) where
  snapshot : Snapshot Path ErrorKind
  rebuild : Bool
  changedAt : Option ℕ
  pc : Pc Path ErrorKind
  game : Option (Launch Path ErrorKind)
  viewer : ViewerState
  launches : List (Launch Path ErrorKind)
  analyses : ℕ
  last : Option (Analysis Path ErrorKind)

/-- What a step of the loop may read : a view of the files, the outcome of an analysis and of a
native build, the session and the clock, in milliseconds. -/
structure Input (Path ErrorKind : Type) where
  view : View Path ErrorKind
  outcome : Outcome Program × SourceMap Path
  build : Except String Unit
  cancelled : Bool
  checkServer : Except String Unit
  stopGame : Except String Unit
  launch : Except String Unit
  pollGame : Except String (Option Bool)
  now : ℕ

/-- `QUIET`. -/
def quiet : ℕ := 200

namespace Watcher

/-- The loop starts with the entry path only. -/
def start (entry : Path) (view : View Path ErrorKind) : Watcher Path ErrorKind where
  snapshot := (∅ : Snapshot Path ErrorKind).insert entry (.contents view entry)
  rebuild := true
  changedAt := none
  pc := .head
  game := none
  viewer := .running
  launches := []
  analyses := 0
  last := none

/-- `run` returns, and the session stops its game. -/
def leave (w : Watcher Path ErrorKind) (result : Except String Unit) : Watcher Path ErrorKind :=
  { w with pc := .returned result, game := none }

/-- The end of `run`, after its loop. -/
def finish (w : Watcher Path ErrorKind) (input : Input Path ErrorKind) : Watcher Path ErrorKind :=
  match input.checkServer with
  | .error error => w.leave (.error error)
  | .ok () => w.leave (if w.game.isSome then input.stopGame else .ok ())

/-- `stop_for_edit`. -/
def stopForEdit (w : Watcher Path ErrorKind) : Watcher Path ErrorKind := { w with game := none }

def head (w : Watcher Path ErrorKind) (input : Input Path ErrorKind) : Watcher Path ErrorKind :=
  if input.cancelled then w.finish input
  else
    match input.checkServer with
    | .error error => w.leave (.error error)
    | .ok () =>
      if w.rebuild then
        { w.stopForEdit with
          viewer := .building
          rebuild := false
          changedAt := none
          pc := .observed (current input.view w.snapshot) }
      else { w with pc := .poll }

/-- `analyze_path` has returned. -/
def analyzed (w : Watcher Path ErrorKind) (before : Snapshot Path ErrorKind)
    (input : Input Path ErrorKind) : Watcher Path ErrorKind :=
  let sources := input.outcome.2
  match input.outcome.1 with
  | .ok _ =>
    let (next, changed) := afterAnalysis input.view sources before true
    if changed then
      { w with snapshot := next, last := some ⟨sources, next⟩, rebuild := true, pc := .head }
    else
      { w with snapshot := next, last := some ⟨sources, next⟩, pc := .building before sources }
  | .error _ =>
    let (next, changed) := afterAnalysis input.view sources before false
    { w with
      snapshot := next
      last := some ⟨sources, next⟩
      rebuild := changed
      viewer := .buildFailed
      pc := .poll }
  | .panicked => w.leave (.error "panicked")

/-- The native build has ended : it is launched if it is not outdated. -/
def built (w : Watcher Path ErrorKind) (before : Snapshot Path ErrorKind)
    (sources : SourceMap Path) (input : Input Path ErrorKind) : Watcher Path ErrorKind :=
  if current input.view w.snapshot ≠ w.snapshot then { w with rebuild := true, pc := .head }
  else if input.cancelled then w.finish input
  else
    match input.build with
    | .error _ => { w with viewer := .buildFailed, pc := .poll }
    | .ok () =>
      match input.launch with
      | .error error => w.leave (.error error)
      | .ok () =>
        let launch := ⟨sources, before, w.snapshot, current input.view w.snapshot⟩
        { w with
          game := some launch
          viewer := .running
          launches := w.launches ++ [launch]
          pc := .poll }

def poll (w : Watcher Path ErrorKind) (input : Input Path ErrorKind) : Watcher Path ErrorKind :=
  if w.game.isSome then
    match input.pollGame with
    | .ok none => { w with pc := .observe }
    | .ok (some _) | .error _ => { w.stopForEdit with viewer := .watching, pc := .observe }
  else { w with pc := .observe }

def observe (w : Watcher Path ErrorKind) (input : Input Path ErrorKind) : Watcher Path ErrorKind :=
  let next := current input.view w.snapshot
  if next ≠ w.snapshot then
    { w.stopForEdit with
      viewer := .building
      snapshot := next
      changedAt := some input.now
      pc := .debounce }
  else { w with pc := .debounce }

def debounce (w : Watcher Path ErrorKind) (input : Input Path ErrorKind) :
    Watcher Path ErrorKind :=
  if w.changedAt.any fun time => quiet ≤ input.now - time then
    { w with rebuild := true, pc := .head }
  else { w with pc := .head }

def step (w : Watcher Path ErrorKind) (input : Input Path ErrorKind) : Watcher Path ErrorKind :=
  match w.pc with
  | .head => w.head input
  | .observed before => { w with pc := .analyzing before, analyses := w.analyses + 1 }
  | .analyzing before => w.analyzed before input
  | .building before sources => w.built before sources input
  | .poll => w.poll input
  | .observe => w.observe input
  | .debounce => w.debounce input
  | .returned _ => w

def run (w : Watcher Path ErrorKind) (inputs : List (Input Path ErrorKind)) :
    Watcher Path ErrorKind := inputs.foldl step w

end Watcher

/-! ## No stale build, no lost edit -/

/-- The snapshot has the text of every source file. -/
def HasTexts (sources : SourceMap Path) (snapshot : Snapshot Path ErrorKind) : Prop :=
  ∀ file ∈ sources.files,
    (snapshot.lookup file.1).bind Stamp.observedContents = some (.ok (textBytes file.2))

/-- The analyzed texts were observed before the analysis, after it and after the build. -/
structure Launch.Fresh (launch : Launch Path ErrorKind) : Prop where
  before : HasTexts launch.sources launch.before
  after : HasTexts launch.sources launch.after
  built : HasTexts launch.sources launch.built

namespace Watcher

variable {w : Watcher Path ErrorKind} {input : Input Path ErrorKind}

/-- The loop polls : it neither analyzes nor builds, and has not returned. -/
def Polls (w : Watcher Path ErrorKind) : Prop :=
  w.pc = .head ∨ w.pc = .poll ∨ w.pc = .observe ∨ w.pc = .debounce

/-- No rebuild and no debounce is pending. -/
structure Idle (w : Watcher Path ErrorKind) : Prop where
  polls : w.Polls
  rebuild : w.rebuild = false
  changedAt : w.changedAt = none

/-- The snapshot is the one taken with the last analysis, and has its dependencies. -/
def Recorded (w : Watcher Path ErrorKind) : Prop :=
  ∃ analysis, w.last = some analysis ∧ w.snapshot = analysis.next ∧
    ∀ path ∈ analysis.sources.dependencies, ∃ stamp, w.snapshot.lookup path = some stamp

/-- An analysis or a build is under way : no game runs and nothing else is pending. -/
structure Busy (w : Watcher Path ErrorKind) : Prop where
  rebuild : w.rebuild = false
  changedAt : w.changedAt = none
  game : w.game = none

/-- What holds in every state of the loop. -/
structure Sound (w : Watcher Path ErrorKind) : Prop where
  launches : ∀ launch ∈ w.launches, launch.Fresh
  game : ∀ launch, w.game = some launch → launch ∈ w.launches
  recorded : w.Idle → w.Recorded
  observed : ∀ before, w.pc = .observed before → w.Busy
  analyzing : ∀ before, w.pc = .analyzing before → w.Busy
  building : ∀ before sources, w.pc = .building before sources →
    w.Busy ∧ w.Recorded ∧ HasTexts sources before ∧ HasTexts sources w.snapshot

theorem Sound.leave (h : w.Sound) (result : Except String Unit) : (w.leave result).Sound where
  launches := h.launches
  game := by simp [Watcher.leave]
  recorded hidle := by
    have hpolls := hidle.polls
    simp [Polls, Watcher.leave] at hpolls
  observed := by simp [Watcher.leave]
  analyzing := by simp [Watcher.leave]
  building := by simp [Watcher.leave]

theorem Sound.finish (h : w.Sound) (input : Input Path ErrorKind) : (w.finish input).Sound := by
  unfold Watcher.finish
  split
  · exact h.leave _
  · exact h.leave _

/-- A polling step that leaves the launches alone. -/
theorem Sound.of_polls {w' : Watcher Path ErrorKind} (h : w.Sound) (hpolls : w'.Polls)
    (hlaunches : w'.launches = w.launches) (hgame : w'.game = none ∨ w'.game = w.game)
    (hrecorded : w'.Idle → w'.Recorded) : w'.Sound where
  launches := by
    rw [hlaunches]
    exact h.launches
  game launch hlaunch := by
    rw [hlaunches]
    rcases hgame with hnone | hsame
    · rw [hnone] at hlaunch
      cases hlaunch
    · exact h.game launch (hsame ▸ hlaunch)
  recorded := hrecorded
  observed before hpc := by simp [Polls, hpc] at hpolls
  analyzing before hpc := by simp [Polls, hpc] at hpolls
  building before sources hpc := by simp [Polls, hpc] at hpolls

theorem Sound.head (h : w.Sound) (hpc : w.pc = .head) : (w.head input).Sound := by
  unfold Watcher.head
  split
  · exact h.finish input
  · split
    · exact h.leave _
    · split
      · have hbusy : ({ w.stopForEdit with
            viewer := .building
            rebuild := false
            changedAt := none
            pc := .observed (current input.view w.snapshot) } : Watcher Path ErrorKind).Busy :=
          ⟨rfl, rfl, rfl⟩
        refine ⟨h.launches, by simp [stopForEdit], fun hidle => ?_, fun _ _ => hbusy, by simp,
          by simp⟩
        have hpolls := hidle.polls
        simp [Polls] at hpolls
      · refine h.of_polls (.inr (.inl rfl)) rfl (.inr rfl) fun hidle => ?_
        exact h.recorded ⟨.inl hpc, hidle.rebuild, hidle.changedAt⟩

theorem Sound.poll (h : w.Sound) (hpc : w.pc = .poll) : (w.poll input).Sound := by
  have hobserve : Idle { w with pc := .observe } → w.Recorded := fun hidle =>
    h.recorded ⟨.inr (.inl hpc), hidle.rebuild, hidle.changedAt⟩
  unfold Watcher.poll
  split
  · split
    · exact h.of_polls (.inr (.inr (.inl rfl))) rfl (.inr rfl) hobserve
    · refine h.of_polls (.inr (.inr (.inl rfl))) rfl (.inl rfl) fun hidle => ?_
      exact hobserve ⟨.inr (.inr (.inl rfl)), hidle.rebuild, hidle.changedAt⟩
    · refine h.of_polls (.inr (.inr (.inl rfl))) rfl (.inl rfl) fun hidle => ?_
      exact hobserve ⟨.inr (.inr (.inl rfl)), hidle.rebuild, hidle.changedAt⟩
  · exact h.of_polls (.inr (.inr (.inl rfl))) rfl (.inr rfl) hobserve

theorem Sound.observe (h : w.Sound) (hpc : w.pc = .observe) : (w.observe input).Sound := by
  unfold Watcher.observe
  dsimp only
  split
  · refine h.of_polls (.inr (.inr (.inr rfl))) rfl (.inl rfl) fun hidle => ?_
    exact absurd hidle.changedAt (by simp)
  · refine h.of_polls (.inr (.inr (.inr rfl))) rfl (.inr rfl) fun hidle => ?_
    exact h.recorded ⟨.inr (.inr (.inl hpc)), hidle.rebuild, hidle.changedAt⟩

theorem Sound.debounce (h : w.Sound) (hpc : w.pc = .debounce) : (w.debounce input).Sound := by
  unfold Watcher.debounce
  split
  · refine h.of_polls (.inl rfl) rfl (.inr rfl) fun hidle => ?_
    exact absurd hidle.rebuild (by simp)
  · refine h.of_polls (.inl rfl) rfl (.inr rfl) fun hidle => ?_
    exact h.recorded ⟨.inr (.inr (.inr hpc)), hidle.rebuild, hidle.changedAt⟩

theorem Sound.analyzed (h : w.Sound) {before : Snapshot Path ErrorKind}
    (hpc : w.pc = .analyzing before) : (w.analyzed before input).Sound := by
  obtain ⟨hrebuild, hchanged, hgame⟩ := h.analyzing before hpc
  have hkeys : ∀ success, ∀ path ∈ input.outcome.2.dependencies, ∃ stamp,
      (afterAnalysis input.view input.outcome.2 before success).1.lookup path = some stamp := by
    intro success path hpath
    rw [lookup_afterAnalysis, if_pos hpath]
    exact ⟨_, rfl⟩
  unfold Watcher.analyzed
  cases hresult : input.outcome.1 with
  | panicked => exact h.leave _
  | error diagnostics =>
    refine h.of_polls (.inr (.inl rfl)) rfl (.inr rfl) fun hidle => ?_
    exact ⟨_, rfl, rfl, hkeys false⟩
  | ok program =>
    simp only
    split
    · refine h.of_polls (.inl rfl) rfl (.inr rfl) fun hidle => ?_
      exact absurd hidle.rebuild (by simp)
    · next hunchanged =>
      obtain ⟨hsame, htexts⟩ := afterAnalysis_unchanged.mp (Bool.eq_false_iff.mpr hunchanged)
      refine ⟨h.launches, h.game, fun hidle => ?_, by simp, by simp, ?_⟩
      · have hpolls := hidle.polls
        simp [Polls] at hpolls
      · rintro before' sources' hpc'
        obtain ⟨rfl, rfl⟩ := Pc.building.inj hpc'
        refine ⟨⟨hrebuild, hchanged, hgame⟩, ⟨_, rfl, rfl, hkeys true⟩, fun file hfile => ?_, htexts⟩
        have htext := htexts file hfile
        obtain ⟨stamp, hstamp, hcontents⟩ := Option.bind_eq_some_iff.mp htext
        rw [hsame file.1 stamp hstamp]
        exact hcontents

theorem Sound.built (h : w.Sound) {before : Snapshot Path ErrorKind} {sources : SourceMap Path}
    (hpc : w.pc = .building before sources) : (w.built before sources input).Sound := by
  obtain ⟨hbusy, hrecorded, hbefore, hafter⟩ := h.building before sources hpc
  unfold Watcher.built
  split
  · refine h.of_polls (.inl rfl) rfl (.inr rfl) fun hidle => ?_
    exact absurd hidle.rebuild (by simp)
  · next hsame =>
    split
    · exact h.finish input
    · split
      · exact h.of_polls (.inr (.inl rfl)) rfl (.inr rfl) fun _ => hrecorded
      · split
        · exact h.leave _
        · have hbuilt : HasTexts sources (current input.view w.snapshot) := by
            rw [not_not.mp hsame]
            exact hafter
          refine ⟨fun launch hlaunch => ?_, ?_, fun _ => hrecorded, by simp, by simp, by simp⟩
          · rcases List.mem_append.mp hlaunch with hlaunch | hlaunch
            · exact h.launches launch hlaunch
            · rw [List.mem_singleton.mp hlaunch]
              exact ⟨hbefore, hafter, hbuilt⟩
          · intro launch hlaunch
            obtain rfl := Option.some.inj hlaunch
            simp

theorem Sound.step (h : w.Sound) (input : Input Path ErrorKind) : (w.step input).Sound := by
  unfold Watcher.step
  cases hpc : w.pc with
  | head => exact h.head hpc
  | observed before =>
    have hbusy := h.observed before hpc
    refine ⟨h.launches, h.game, fun hidle => ?_, by simp, fun _ _ => ?_, by simp⟩
    · have hpolls := hidle.polls
      simp [Polls] at hpolls
    · exact ⟨hbusy.rebuild, hbusy.changedAt, hbusy.game⟩
  | analyzing before => exact h.analyzed hpc
  | building before sources => exact h.built hpc
  | poll => exact h.poll hpc
  | observe => exact h.observe hpc
  | debounce => exact h.debounce hpc
  | returned result => exact h

theorem sound_start (entry : Path) (view : View Path ErrorKind) : (start entry view).Sound where
  launches := by simp [start]
  game := by simp [start]
  recorded hidle := absurd hidle.rebuild (by simp [start])
  observed := by simp [start]
  analyzing := by simp [start]
  building := by simp [start]

theorem Sound.run (h : w.Sound) (inputs : List (Input Path ErrorKind)) : (w.run inputs).Sound :=
  foldl_invariant h (fun _ input h => h.step input) inputs

/-- `run` has returned. -/
def Returned (w : Watcher Path ErrorKind) : Prop := ∃ result, w.pc = .returned result

/-- An analysis is going to start. -/
def Pending (w : Watcher Path ErrorKind) : Prop :=
  w.Polls ∧ (w.rebuild = true ∨ w.changedAt ≠ none) ∨ ∃ before, w.pc = .observed before

theorem Pending.not_idle (h : w.Pending) : ¬w.Idle := by
  intro hidle
  obtain ⟨-, hrebuild | hchanged⟩ | ⟨before, hpc⟩ := h
  · simp [hidle.rebuild] at hrebuild
  · exact hchanged hidle.changedAt
  · have hpolls := hidle.polls
    simp [Polls, hpc] at hpolls

theorem returned_finish : (w.finish input).Returned := by
  unfold Watcher.finish
  split
  · exact ⟨_, rfl⟩
  · exact ⟨_, rfl⟩

/-- What is pending stays pending until the analysis starts or the loop returns. -/
theorem Pending.step (h : w.Pending) (input : Input Path ErrorKind) :
    w.analyses < (w.step input).analyses ∨ (w.step input).Returned ∨ (w.step input).Pending := by
  unfold Watcher.step
  obtain ⟨hpolls, hflag⟩ | ⟨before, hpc⟩ := h
  · rcases hpolls with hpc | hpc | hpc | hpc
    · simp only [hpc, Watcher.head]
      right
      split
      · exact .inl returned_finish
      · split
        · exact .inl ⟨_, rfl⟩
        · split
          · exact .inr (.inr ⟨_, rfl⟩)
          · exact .inr (.inl ⟨.inr (.inl rfl), hflag⟩)
    · simp only [hpc, Watcher.poll]
      right; right; left
      split
      · split
        · exact ⟨.inr (.inr (.inl rfl)), hflag⟩
        · exact ⟨.inr (.inr (.inl rfl)), hflag⟩
        · exact ⟨.inr (.inr (.inl rfl)), hflag⟩
      · exact ⟨.inr (.inr (.inl rfl)), hflag⟩
    · simp only [hpc, Watcher.observe]
      right; right; left
      split
      · exact ⟨.inr (.inr (.inr rfl)), .inr (by simp)⟩
      · exact ⟨.inr (.inr (.inr rfl)), hflag⟩
    · simp only [hpc, Watcher.debounce]
      right; right; left
      split
      · exact ⟨.inl rfl, .inl rfl⟩
      · exact ⟨.inl rfl, hflag⟩
  · simp only [hpc]
    exact .inl (Nat.lt_succ_self _)

theorem analyses_finish : (w.finish input).analyses = w.analyses := by
  unfold Watcher.finish
  split
  · rfl
  · rfl

/-- Only an analysis that starts is counted. -/
theorem analyses_step (hpc : ∀ before, w.pc ≠ .observed before) :
    (w.step input).analyses = w.analyses := by
  unfold Watcher.step
  cases hw : w.pc with
  | head =>
    simp only [Watcher.head]
    split
    · exact analyses_finish
    · split
      · rfl
      · split
        · rfl
        · rfl
  | observed before => exact absurd hw (hpc before)
  | analyzing before =>
    simp only [Watcher.analyzed]
    split
    · split
      · rfl
      · rfl
    · rfl
    · rfl
  | building before sources =>
    simp only [Watcher.built]
    split
    · rfl
    · split
      · exact analyses_finish
      · split
        · rfl
        · split
          · rfl
          · rfl
  | poll =>
    simp only [Watcher.poll]
    split
    · split
      · rfl
      · rfl
      · rfl
    · rfl
  | observe =>
    simp only [Watcher.observe]
    split
    · rfl
    · rfl
  | debounce =>
    simp only [Watcher.debounce]
    split
    · rfl
    · rfl
  | returned result => rfl

theorem analyses_step_le : w.analyses ≤ (w.step input).analyses := by
  by_cases hpc : ∃ before, w.pc = .observed before
  · obtain ⟨before, hpc⟩ := hpc
    simp only [Watcher.step, hpc]
    omega
  · rw [analyses_step fun before hw => hpc ⟨before, hw⟩]

theorem Returned.step (h : w.Returned) (input : Input Path ErrorKind) : w.step input = w := by
  obtain ⟨result, hpc⟩ := h
  simp only [Watcher.step, hpc]

/-- What is pending in a run stays pending until the analysis starts or the loop returns. -/
theorem Pending.run (h : w.Pending) (inputs : List (Input Path ErrorKind)) :
    w.analyses < (w.run inputs).analyses ∨ (w.run inputs).Returned ∨ (w.run inputs).Pending := by
  have hstart : w.analyses ≤ w.analyses ∧
      (w.analyses < w.analyses ∨ w.Returned ∨ w.Pending) := ⟨le_refl _, .inr (.inr h)⟩
  refine (foldl_invariant (P := fun w' : Watcher Path ErrorKind => w.analyses ≤ w'.analyses ∧
    (w.analyses < w'.analyses ∨ w'.Returned ∨ w'.Pending)) hstart ?_ inputs).2
  · rintro w' input ⟨hle, hcases⟩
    have hstep : w'.analyses ≤ (w'.step input).analyses := analyses_step_le
    refine ⟨hle.trans hstep, ?_⟩
    rcases hcases with hstarted | hreturned | hpending
    · exact .inl (by omega)
    · rw [hreturned.step]
      exact .inr (.inl hreturned)
    · rcases hpending.step input with hstarts | hrest
      · exact .inl (by omega)
      · exact .inr hrest

/-- A recorded path that is observed to differ stops the game. -/
theorem observe_differs (hpc : w.pc = .observe) {path : Path} {stamp : Stamp Path ErrorKind}
    (hlookup : w.snapshot.lookup path = some stamp)
    (hdiffers : stamp.refresh input.view path ≠ stamp) :
    (w.step input).game = none ∧ (w.step input).changedAt = some input.now ∧
      (w.step input).Pending := by
  have hne : current input.view w.snapshot ≠ w.snapshot := fun hsame =>
    hdiffers (current_eq_self_iff.mp hsame path stamp hlookup)
  have hstep : w.step input =
      { w.stopForEdit with
        viewer := .building
        snapshot := current input.view w.snapshot
        changedAt := some input.now
        pc := .debounce } := by
    simp only [Watcher.step, hpc, Watcher.observe, if_pos hne]
  rw [hstep]
  exact ⟨rfl, rfl, .inl ⟨.inr (.inr (.inr rfl)), .inr (by simp)⟩⟩

/-- After a quiet pass, the pending analysis starts. -/
theorem quiet_pass (hpc : w.pc = .observe) {first second third fourth : Input Path ErrorKind}
    (hsame : current first.view w.snapshot = w.snapshot)
    (hquiet : w.rebuild = true ∨ ∃ time, w.changedAt = some time ∧ quiet ≤ second.now - time)
    (hcancelled : third.cancelled = false) (hserver : third.checkServer = .ok ()) :
    (w.run [first, second, third, fourth]).analyses = w.analyses + 1 := by
  have hobserve : w.step first = { w with pc := .debounce } := by
    simp [Watcher.step, hpc, Watcher.observe, hsame]
  have hdebounce : (Watcher.step { w with pc := .debounce } second) =
      { w with pc := .head, rebuild := true } := by
    rcases hquiet with hrebuild | ⟨time, hchanged, hquiet⟩
    · simp only [Watcher.step, Watcher.debounce]
      split
      · rfl
      · rw [hrebuild]
    · simp [Watcher.step, Watcher.debounce, hchanged, hquiet]
  simp only [Watcher.run, List.foldl_cons, List.foldl_nil, hobserve, hdebounce]
  simp [Watcher.step, Watcher.head, hcancelled, hserver, stopForEdit]

end Watcher

/-! ## The loop settles -/

/-- The files of a machine, as the loader and the stamps read them. -/
structure Disk (Path ErrorKind : Type) where
  files : Files Path
  read : Path → Except ErrorKind (List UInt8)
  metadata : Path → Except ErrorKind (MetadataStamp ErrorKind)
  /-- A text is the decoded contents. -/
  read_of_text : ∀ {path text}, files.readToString path = .ok text →
    read path = .ok (textBytes text)
  /-- Reading follows links. -/
  read_link : ∀ {path canonical}, files.canonicalize path = .ok canonical →
    files.readToString path = files.readToString canonical

namespace Disk

variable {Token : Type} [F32Primitives] (tools : Tools Path Token) (entry : Path)
  (disk : Disk Path ErrorKind)

def view : View Path ErrorKind where
  canonicalize path := (disk.files.canonicalize path).toOption
  read := disk.read
  metadata := disk.metadata

/-- An analysis while the disk does not change. -/
def analysis : Outcome Program × SourceMap Path := Loader.analyzePath tools disk.files entry

/-- Whether that analysis succeeds. -/
def succeeds : Bool :=
  match (disk.analysis tools entry).1 with
  | .ok _ => true
  | _ => false

/-- A snapshot that an analysis of this disk does not change. -/
structure Settled (snapshot : Snapshot Path ErrorKind) : Prop where
  current : current disk.view snapshot = snapshot
  unchanged : (afterAnalysis disk.view (disk.analysis tools entry).2 snapshot
    (disk.succeeds tools entry)).2 = false

/-- The snapshot taken with an analysis of this disk is settled. -/
theorem settled_afterAnalysis (before : Snapshot Path ErrorKind) :
    disk.Settled tools entry (afterAnalysis disk.view (disk.analysis tools entry).2 before
      (disk.succeeds tools entry)).1 := by
  have hcurrent : Watch.current disk.view (afterAnalysis disk.view (disk.analysis tools entry).2
      before (disk.succeeds tools entry)).1 = (afterAnalysis disk.view
      (disk.analysis tools entry).2 before (disk.succeeds tools entry)).1 := by
    refine current_eq_self_iff.mpr fun path stamp hlookup => ?_
    rw [lookup_afterAnalysis] at hlookup
    split at hlookup
    · rw [← Option.some.inj hlookup]
      exact dependencyStamp_refresh
    · split at hlookup
      · cases hlookup
      · obtain ⟨old, -, rfl⟩ := Option.map_eq_some_iff.mp hlookup
        exact Stamp.refresh_refresh
  refine ⟨hcurrent, afterAnalysis_unchanged.mpr ⟨fun path stamp hlookup => ?_, fun file hfile => ?_⟩⟩
  · rw [lookup_afterAnalysis] at hlookup ⊢
    split at hlookup
    · next hmem => rwa [if_pos hmem]
    · next hmem =>
      rw [if_neg hmem]
      split at hlookup
      · cases hlookup
      · next hfailed =>
        rw [← lookup_current, hcurrent, lookup_afterAnalysis, if_neg hmem, if_neg hfailed] at hlookup
        rwa [if_neg hfailed]
  · have hrecorded : (disk.analysis tools entry).2.Recorded disk.files :=
      Loader.analyzePath_recorded tools disk.read_link entry
    obtain ⟨hmem, hread⟩ := hrecorded file hfile
    have hsource : file.1 ∈ (disk.analysis tools entry).2.files.map (·.1) :=
      List.mem_map_of_mem hfile
    rw [lookup_afterAnalysis, if_pos hmem, dependencyStamp, if_pos hsource]
    exact congrArg some (disk.read_of_text hread)

end Disk

namespace Watcher

variable {Token : Type} [F32Primitives] {tools : Tools Path Token} {entry : Path}
  {disk : Disk Path ErrorKind} {w : Watcher Path ErrorKind} {input : Input Path ErrorKind}

/-- From the state `w`, the files do not change : a step observes this disk, and an analysis that
has started since has its outcome. -/
def Unchanging (tools : Tools Path Token) (entry : Path) (disk : Disk Path ErrorKind)
    (w w' : Watcher Path ErrorKind) (input : Input Path ErrorKind) : Prop :=
  input.view = disk.view ∧ (w.analyses < w'.analyses → input.outcome = disk.analysis tools entry)

/-- The states after a second analysis has started : it is of a settled snapshot, and nothing is
pending after it. -/
structure Last (tools : Tools Path Token) (entry : Path) (disk : Disk Path ErrorKind)
    (w : Watcher Path ErrorKind) : Prop where
  rebuild : w.rebuild = false
  changedAt : w.changedAt = none
  settled : ∀ before, w.pc = .analyzing before → disk.Settled tools entry before
  snapshot : (∀ before, w.pc ≠ .analyzing before) → disk.Settled tools entry w.snapshot
  started : ∀ before, w.pc ≠ .observed before

/-- The states after a first analysis has started : when it has ended, the snapshot is settled. -/
structure First (tools : Tools Path Token) (entry : Path) (disk : Disk Path ErrorKind)
    (w : Watcher Path ErrorKind) : Prop where
  snapshot : (∀ before, w.pc ≠ .analyzing before) → disk.Settled tools entry w.snapshot
  observed : ∀ before, w.pc = .observed before → before = w.snapshot

/-- How often an analysis has started since `n`. -/
def Settling (tools : Tools Path Token) (entry : Path) (disk : Disk Path ErrorKind) (n : ℕ)
    (w : Watcher Path ErrorKind) : Prop :=
  w.analyses = n ∨ w.analyses = n + 1 ∧ (w.Returned ∨ w.First tools entry disk) ∨
    w.analyses = n + 2 ∧ (w.Returned ∨ w.Last tools entry disk)

/-- A step that observes no change, other than the start and the end of an analysis. -/
structure Calm (w w' : Watcher Path ErrorKind) : Prop where
  snapshot : w'.snapshot = w.snapshot
  analyzing : ∀ before, w'.pc ≠ .analyzing before
  observed : ∀ before, w'.pc = .observed before → before = w.snapshot ∧ w.rebuild = true
  rebuild : w.rebuild = false → w.changedAt = none → w'.rebuild = false
  changedAt : w.changedAt = none → w'.changedAt = none

/-- A step to a state that polls and only has another pc, or another game. -/
theorem calm_polls {w' : Watcher Path ErrorKind} (hpolls : w'.Polls)
    (hsnapshot : w'.snapshot = w.snapshot) (hrebuild : w'.rebuild = w.rebuild)
    (hchanged : w'.changedAt = w.changedAt) : w.Calm w' where
  snapshot := hsnapshot
  analyzing before hpc := by simp [Polls, hpc] at hpolls
  observed before hpc := by simp [Polls, hpc] at hpolls
  rebuild h _ := hrebuild.trans h
  changedAt h := hchanged.trans h

theorem calm_step (hsame : current input.view w.snapshot = w.snapshot)
    (hobserved : ∀ before, w.pc ≠ .observed before)
    (hanalyzing : ∀ before, w.pc ≠ .analyzing before) :
    (w.step input).Returned ∨ w.Calm (w.step input) := by
  unfold Watcher.step
  cases hpc : w.pc with
  | head =>
    simp only [Watcher.head]
    split
    · exact .inl returned_finish
    · split
      · exact .inl ⟨_, rfl⟩
      · split
        · next hrebuild =>
          refine .inr ⟨rfl, by simp, fun before hbefore => ?_, fun _ _ => rfl, fun _ => rfl⟩
          obtain rfl := Pc.observed.inj hbefore
          exact ⟨hsame, hrebuild⟩
        · exact .inr (calm_polls (.inr (.inl rfl)) rfl rfl rfl)
  | observed before => exact absurd hpc (hobserved before)
  | analyzing before => exact absurd hpc (hanalyzing before)
  | building before sources =>
    simp only [Watcher.built, hsame, ne_eq, not_true_eq_false, if_false]
    split
    · exact .inl returned_finish
    · split
      · exact .inr (calm_polls (.inr (.inl rfl)) rfl rfl rfl)
      · split
        · exact .inl ⟨_, rfl⟩
        · exact .inr (calm_polls (.inr (.inl rfl)) rfl rfl rfl)
  | poll =>
    simp only [Watcher.poll]
    right
    split
    · split
      · exact calm_polls (.inr (.inr (.inl rfl))) rfl rfl rfl
      · exact calm_polls (.inr (.inr (.inl rfl))) rfl rfl rfl
      · exact calm_polls (.inr (.inr (.inl rfl))) rfl rfl rfl
    · exact calm_polls (.inr (.inr (.inl rfl))) rfl rfl rfl
  | observe =>
    simp only [Watcher.observe, hsame, ne_eq, not_true_eq_false, if_false]
    exact .inr (calm_polls (.inr (.inr (.inr rfl))) rfl rfl rfl)
  | debounce =>
    simp only [Watcher.debounce]
    right
    split
    · next hquiet =>
      refine ⟨rfl, by simp, by simp, fun _ hchanged => ?_, fun hchanged => hchanged⟩
      simp [hchanged] at hquiet
    · exact calm_polls (.inl rfl) rfl rfl rfl
  | returned result => exact .inl ⟨result, hpc⟩

/-- An analysis of this disk ends with a settled snapshot, and unchanged if it started with one. -/
theorem analyzed_settled (hview : input.view = disk.view)
    (houtcome : input.outcome = disk.analysis tools entry) (before : Snapshot Path ErrorKind) :
    (w.analyzed before input).Returned ∨
      disk.Settled tools entry (w.analyzed before input).snapshot ∧
      (∀ before', (w.analyzed before input).pc ≠ .analyzing before') ∧
      (∀ before', (w.analyzed before input).pc ≠ .observed before') ∧
      (w.analyzed before input).changedAt = w.changedAt ∧
      (disk.Settled tools entry before → w.rebuild = false →
        (w.analyzed before input).rebuild = false) := by
  unfold Watcher.analyzed
  rw [houtcome, hview]
  have hsettled := disk.settled_afterAnalysis tools entry before
  cases hresult : (disk.analysis tools entry).1 with
  | panicked => exact .inl ⟨_, rfl⟩
  | error diagnostics =>
    have hfails : disk.succeeds tools entry = false := by simp only [Disk.succeeds, hresult]
    rw [hfails] at hsettled
    refine .inr ⟨hsettled, by simp, by simp, rfl, fun hbefore _ => ?_⟩
    have hunchanged := hbefore.unchanged
    rwa [hfails] at hunchanged
  | ok program =>
    have hsucceeds : disk.succeeds tools entry = true := by simp only [Disk.succeeds, hresult]
    rw [hsucceeds] at hsettled
    right
    simp only
    split
    · next hchanged =>
      refine ⟨hsettled, by simp, by simp, rfl, fun hbefore _ => ?_⟩
      have hunchanged := hbefore.unchanged
      rw [hsucceeds, hchanged] at hunchanged
      cases hunchanged
    · exact ⟨hsettled, by simp, by simp, rfl, fun _ hrebuild => hrebuild⟩

theorem First.step (h : w.First tools entry disk) (hview : input.view = disk.view)
    (houtcome : input.outcome = disk.analysis tools entry)
    (hobserved : ∀ before, w.pc ≠ .observed before) :
    (w.step input).Returned ∨ (w.step input).First tools entry disk := by
  by_cases hpc : ∃ before, w.pc = .analyzing before
  · obtain ⟨before, hpc⟩ := hpc
    have hstep : w.step input = w.analyzed before input := by simp only [Watcher.step, hpc]
    rw [hstep]
    refine (analyzed_settled hview houtcome before).imp id fun ⟨hsettled, _, hne, _⟩ => ?_
    exact ⟨fun _ => hsettled, fun before' hbefore => absurd hbefore (hne before')⟩
  · have hanalyzing : ∀ before, w.pc ≠ .analyzing before := fun before hw => hpc ⟨before, hw⟩
    have hsettled := h.snapshot hanalyzing
    refine (calm_step (hview ▸ hsettled.current) hobserved hanalyzing).imp id fun hcalm => ?_
    refine ⟨fun _ => hcalm.snapshot ▸ hsettled, fun before hbefore => ?_⟩
    rw [hcalm.snapshot]
    exact (hcalm.observed before hbefore).1

theorem Last.step (h : w.Last tools entry disk) (hview : input.view = disk.view)
    (houtcome : input.outcome = disk.analysis tools entry) :
    (w.step input).Returned ∨ (w.step input).Last tools entry disk := by
  by_cases hpc : ∃ before, w.pc = .analyzing before
  · obtain ⟨before, hpc⟩ := hpc
    have hstep : w.step input = w.analyzed before input := by simp only [Watcher.step, hpc]
    rw [hstep]
    refine (analyzed_settled hview houtcome before).imp id
      fun ⟨hsettled, hne, hobserved, hchanged, hrebuild⟩ => ?_
    exact ⟨hrebuild (h.settled before hpc) h.rebuild, hchanged.trans h.changedAt,
      fun before' hbefore => absurd hbefore (hne before'), fun _ => hsettled, hobserved⟩
  · have hanalyzing : ∀ before, w.pc ≠ .analyzing before := fun before hw => hpc ⟨before, hw⟩
    have hsettled := h.snapshot hanalyzing
    refine (calm_step (hview ▸ hsettled.current) h.started hanalyzing).imp id fun hcalm => ?_
    refine ⟨hcalm.rebuild h.rebuild h.changedAt, hcalm.changedAt h.changedAt,
      fun before hbefore => absurd hbefore (hcalm.analyzing before),
      fun _ => hcalm.snapshot ▸ hsettled, fun before hbefore => ?_⟩
    have hrebuild := (hcalm.observed before hbefore).2
    rw [h.rebuild] at hrebuild
    cases hrebuild

/-- An analysis that starts is the first or the last since `n`, and then none starts. -/
theorem Settling.step {n : ℕ} (h : w.Settling tools entry disk n) (hsound : w.Sound)
    (hview : input.view = disk.view)
    (houtcome : n < w.analyses → input.outcome = disk.analysis tools entry) :
    (w.step input).Settling tools entry disk n := by
  rcases h with hnone | ⟨hone, hreturned | hfirst⟩ | ⟨htwo, hreturned | hlast⟩
  · by_cases hpc : ∃ before, w.pc = .observed before
    · obtain ⟨before, hpc⟩ := hpc
      have hstep : w.step input = { w with pc := .analyzing before, analyses := w.analyses + 1 } := by
        simp only [Watcher.step, hpc]
      rw [hstep]
      refine .inr (.inl ⟨by simp [hnone], .inr ⟨fun hne => absurd rfl (hne before), by simp⟩⟩)
    · exact .inl ((analyses_step fun before hw => hpc ⟨before, hw⟩).trans hnone)
  · rw [hreturned.step]
    exact .inr (.inl ⟨hone, .inl hreturned⟩)
  · by_cases hpc : ∃ before, w.pc = .observed before
    · obtain ⟨before, hpc⟩ := hpc
      have hstep : w.step input = { w with pc := .analyzing before, analyses := w.analyses + 1 } := by
        simp only [Watcher.step, hpc]
      have hbusy := hsound.observed before hpc
      have hsettled := hfirst.snapshot (by simp [hpc])
      rw [hstep]
      refine .inr (.inr ⟨by simp [hone], .inr ⟨hbusy.rebuild, hbusy.changedAt, ?_, ?_, by simp⟩⟩)
      · intro before' hbefore
        obtain rfl := Pc.analyzing.inj hbefore
        rw [hfirst.observed before hpc]
        exact hsettled
      · exact fun hne => absurd rfl (hne before)
    · have hobserved : ∀ before, w.pc ≠ .observed before := fun before hw => hpc ⟨before, hw⟩
      refine .inr (.inl ⟨(analyses_step hobserved).trans hone, ?_⟩)
      exact hfirst.step hview (houtcome (by omega)) hobserved
  · rw [hreturned.step]
    exact .inr (.inr ⟨htwo, .inl hreturned⟩)
  · refine .inr (.inr ⟨(analyses_step hlast.started).trans htwo, ?_⟩)
    exact hlast.step hview (houtcome (by omega))

/-- A game is launched only with the texts that were observed before its analysis, after it and
after its build. -/
def NeverStale (w : Watcher Path ErrorKind) : Prop :=
  (∀ launch ∈ w.launches, launch.Fresh) ∧ ∀ launch, w.game = some launch → launch ∈ w.launches

/-- The idle loop has the snapshot of the last analysis. A recorded path that is observed to differ
stops the game, and an analysis stays pending until it starts, at the latest after a quiet pass. -/
structure LosesNoEdit (w : Watcher Path ErrorKind) : Prop where
  recorded : w.Idle → w.Recorded
  differs : ∀ input path stamp, w.pc = .observe → w.snapshot.lookup path = some stamp →
    stamp.refresh input.view path ≠ stamp →
    (w.step input).game = none ∧ (w.step input).changedAt = some input.now ∧
    ∀ inputs, w.analyses < ((w.step input).run inputs).analyses ∨
      ((w.step input).run inputs).Returned ∨ ((w.step input).run inputs).Pending
  rebuilds : ∀ first second third fourth, w.pc = .observe →
    current first.view w.snapshot = w.snapshot →
    (w.rebuild = true ∨ ∃ time, w.changedAt = some time ∧ quiet ≤ second.now - time) →
    third.cancelled = false → third.checkServer = .ok () →
    (w.run [first, second, third, fourth]).analyses = w.analyses + 1

/-- When the files stop changing, at most two analyses start, and the loop is idle after the
second. -/
def Settles (tools : Tools Path Token) (entry : Path) (w : Watcher Path ErrorKind) : Prop :=
  ∀ (disk : Disk Path ErrorKind) inputs,
    StepsMeet Watcher.step (Unchanging tools entry disk w) w inputs →
    (w.run inputs).analyses ≤ w.analyses + 2 ∧
    ((w.run inputs).analyses = w.analyses + 2 → (w.run inputs).Polls → (w.run inputs).Idle)

theorem Sound.settles (h : w.Sound) : w.Settles tools entry := by
  intro disk inputs hinputs
  have hrun : (w.run inputs).Sound ∧ (w.run inputs).Settling tools entry disk w.analyses := by
    refine foldl_invariant_of_stepsMeet
      (P := fun w' => w'.Sound ∧ w'.Settling tools entry disk w.analyses) ⟨h, .inl rfl⟩ ?_ hinputs
    rintro w' input ⟨hsound, hsettling⟩ ⟨hview, houtcome⟩
    exact ⟨hsound.step input, hsettling.step hsound hview houtcome⟩
  obtain ⟨-, hnone | ⟨hone, -⟩ | ⟨htwo, hlast⟩⟩ := hrun
  · exact ⟨by omega, fun _ => by omega⟩
  · exact ⟨by omega, fun _ => by omega⟩
  · refine ⟨by omega, fun _ hpolls => ?_⟩
    rcases hlast with ⟨result, hpc⟩ | hlast
    · simp [Polls, hpc] at hpolls
    · exact ⟨hpolls, hlast.rebuild, hlast.changedAt⟩

/-- The loop never launches a stale build, loses no edit and settles, in every state of every
run. -/
theorem watch_is_exact (tools : Tools Path Token) (entry : Path) (view : View Path ErrorKind)
    (inputs : List (Input Path ErrorKind)) :
    ((start entry view).run inputs).NeverStale ∧ ((start entry view).run inputs).LosesNoEdit ∧
      ((start entry view).run inputs).Settles tools entry := by
  have hsound := (sound_start entry view).run inputs
  refine ⟨⟨hsound.launches, hsound.game⟩, ⟨hsound.recorded, ?_, ?_⟩, hsound.settles⟩
  · intro input path stamp hpc hlookup hdiffers
    obtain ⟨hgame, hchanged, hpending⟩ := observe_differs hpc hlookup hdiffers
    refine ⟨hgame, hchanged, fun inputs => ?_⟩
    have hrun := hpending.run inputs
    rwa [analyses_step (by simp [hpc])] at hrun
  · exact fun first second third fourth hpc => quiet_pass hpc

end Watcher

end Watch

namespace EditedGame

open Watch

inductive ErrorKind where
  | notFound
  deriving DecidableEq

/-- A game without imports, before it is edited. -/
def playable : View (List String) ErrorKind where
  canonicalize _ := some ["game", "main.spk"]
  read _ := .ok (textBytes "game \"sample\"")
  metadata _ := .error .notFound

def playableSources : SourceMap (List String) :=
  ⟨[(["main.spk"], "game \"sample\"")], [["main.spk"], ["game", "main.spk"]]⟩

/-- The edited game imports a file that does not exist. -/
def edited : Disk (List String) ErrorKind where
  files := MissingImport.files "todo"
  read path := ((MissingImport.files "todo").readToString path).map textBytes |>.mapError
    fun _ => .notFound
  metadata _ := .error .notFound
  read_of_text h := by
    rw [h]
    rfl
  read_link := by
    intro path canonical h
    by_cases hmain : path = ["main.spk"]
    · subst hmain
      simp only [MissingImport.files, if_true] at h
      cases h
      rfl
    · simp only [MissingImport.files, hmain, if_false] at h
      split at h
      · cases h
        rfl
      · cases h

/-- Nothing fails and nothing is cancelled. -/
def input (view : View (List String) ErrorKind)
    (outcome : Outcome Program × SourceMap (List String)) : Input (List String) ErrorKind :=
  ⟨view, outcome, .ok (), false, .ok (), .ok (), .ok (), .ok none, 0⟩

/-- The playable game is analyzed twice, because the first analysis finds its canonical path. -/
def launched : Watcher (List String) ErrorKind :=
  (Watcher.start ["main.spk"] playable).run
    (List.replicate 9 (input playable (.ok Sample.program, playableSources)))

/-- What the loop reads after the edit. -/
def after : Input (List String) ErrorKind :=
  input edited.view (@Disk.analysis _ _ _ _ softFloat MissingImport.tools ["main.spk"] edited)

end EditedGame

open EditedGame in
/-- A game is launched, and the loop settles after the edit. -/
theorem Watch.Watcher.watch_is_exact_sample :
    launched.launches.length = 1 ∧ launched.NeverStale ∧ launched.LosesNoEdit ∧
    (launched.run (List.replicate 30 after)).analyses ≤ launched.analyses + 2 := by
  have hexact := @watch_is_exact _ _ _ _ _ softFloat MissingImport.tools ["main.spk"] playable
    (List.replicate 9 (input playable (.ok Sample.program, playableSources)))
  refine ⟨by decide +kernel, hexact.1, hexact.2.1, ?_⟩
  refine (hexact.2.2 edited (List.replicate 30 after) (stepsMeet_of_forall ?_)).1
  intro w input hinput
  obtain rfl := List.eq_of_mem_replicate hinput
  exact ⟨rfl, fun _ => rfl⟩

end Speck
