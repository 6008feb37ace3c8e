import Speck.Runs
import Speck.SlotRecord

/-!
# Persistent slots

`crumb_save_i32` and `crumb_load_i32` of `runtime/crumb/storage.c`, by any number of processes
on the directory of one game. A step is one file-system call of one process, with what the
system decides : whether it fails or is interrupted and how many bytes it transfers. Exclusive
creation and renaming are atomic, and a process can stop before any of its calls.

`StorageWorld` adds what the code does not keep : the renames that took effect, and for each
load the value that its slot held when it opened the file.
-/

namespace Speck

/-! ## The file system -/

abbrev FileName := List Char

inductive Node where
  | regular (contents : Bytes)
  | other

/-- The record of a file, if it is well formed. -/
def Node.record : Node → Option I32
  | .regular contents => parseI32 contents
  | .other => none

def Node.append (bytes : Bytes) : Node → Node
  | .regular contents => .regular (contents ++ bytes)
  | .other => .other

/-- The directory of the game, if it exists, and the files. -/
structure FileSystem where
  directory : Option (FileName → Option ℕ)
  nodes : ℕ → Node
  nextNode : ℕ
  known : ∀ name node, (directory.bind fun entries => entries name) = some node → node < nextNode

namespace FileSystem

def lookup (fs : FileSystem) (name : FileName) : Option ℕ :=
  fs.directory.bind fun entries => entries name

/-- `mkdir` of the directory itself. -/
def makeDirectory (fs : FileSystem) : FileSystem :=
  { fs with directory := some fs.lookup, known := fs.known }

/-- `openat` with `O_CREAT | O_EXCL`, for a name that is free. -/
def create (fs : FileSystem) (name : FileName) : FileSystem where
  directory := some (Function.update fs.lookup name (some fs.nextNode))
  nodes := Function.update fs.nodes fs.nextNode (.regular [])
  nextNode := fs.nextNode + 1
  known := fun other node h => by
    by_cases hname : other = name
    · simp only [Option.bind_some, hname, Function.update_self, Option.some.injEq] at h
      omega
    · simp only [Option.bind_some, Function.update_of_ne hname] at h
      exact Nat.lt_succ_of_lt (fs.known other node h)

def write (fs : FileSystem) (node : ℕ) (bytes : Bytes) : FileSystem :=
  { fs with nodes := Function.update fs.nodes node ((fs.nodes node).append bytes) }

/-- `unlinkat`. -/
def unlink (fs : FileSystem) (name : FileName) : FileSystem where
  directory := some (Function.update fs.lookup name none)
  nodes := fs.nodes
  nextNode := fs.nextNode
  known := fun other node h => by
    by_cases hname : other = name
    · simp [hname] at h
    · simp only [Option.bind_some, Function.update_of_ne hname] at h
      exact fs.known other node h

/-- `renameat`, of a file that exists. -/
def rename (fs : FileSystem) (source target : FileName) : FileSystem where
  directory := some (Function.update (Function.update fs.lookup target (fs.lookup source)) source none)
  nodes := fs.nodes
  nextNode := fs.nextNode
  known := fun other node h => by
    by_cases hsource : other = source
    · simp [hsource] at h
    by_cases htarget : other = target
    · rw [Option.bind_some, Function.update_of_ne hsource, htarget, Function.update_self] at h
      exact fs.known source node h
    · rw [Option.bind_some, Function.update_of_ne hsource, Function.update_of_ne htarget] at h
      exact fs.known other node h

end FileSystem

/-! ## Names -/

def validSlot (slot : I32) : Bool := 0 ≤ slot.toInt && slot.toInt < 16

/-- `"%02" PRId32`, of a valid slot. -/
def slotNumber (slot : I32) : List Char := List.leftpad 2 '0' (Nat.toDigits 10 slot.toNat)

def slotName (slot : I32) : FileName :=
  ['s', 'l', 'o', 't', '-'] ++ slotNumber slot ++ ['.', 'i', '3', '2']

def temporaryName (slot : I32) (pid attempt : ℕ) : FileName :=
  ['.', 's', 'l', 'o', 't', '-'] ++ slotNumber slot ++ ['.', 't', 'm', 'p', '-'] ++
    Nat.toDigits 10 pid ++ ['-'] ++ Nat.toDigits 10 attempt

theorem temporaryName_ne_slotName (slot slot' : I32) (pid attempt : ℕ) :
    temporaryName slot pid attempt ≠ slotName slot' := by
  simp [temporaryName, slotName]

theorem slotName_injective {slot slot' : I32} (h : validSlot slot) (h' : validSlot slot')
    (heq : slotName slot = slotName slot') : slot = slot' := by
  have hnumber : ∀ n m : Fin 16, List.leftpad 2 '0' (Nat.toDigits 10 n.val) =
      List.leftpad 2 '0' (Nat.toDigits 10 m.val) → n = m := by decide
  have hlt : ∀ {s : I32}, validSlot s → s.toNat < 16 := fun {s} hs => by
    simp only [validSlot, Bool.and_eq_true, decide_eq_true_eq] at hs
    have hs' := BitVec.toInt_eq_toNat_cond s
    omega
  have heq : slotNumber slot = slotNumber slot' := by simpa [slotName] using heq
  have hn := hnumber ⟨slot.toNat, hlt h⟩ ⟨slot'.toNat, hlt h'⟩ heq
  exact BitVec.eq_of_toNat_eq (Fin.mk.inj hn)

/-! ## Processes -/

/-- An open temporary file. -/
structure Temporary where
  name : FileName
  node : ℕ

/-- Where `crumb_save_i32` is : before the call it is named after. -/
inductive SavePc where
  | makeDirectory (component : ℕ)
  | openDirectory
  | statDirectory
  | create (attempt : ℕ)
  | write (temporary : Temporary) (rest : Bytes)
  | sync (temporary : Temporary)
  | close (temporary : Temporary) (succeeded : Bool)
  | rename (temporary : Temporary)
  | unlink (temporary : Temporary)
  | syncDirectory
  | closeDirectory (result : Bool)

/-- Where `crumb_load_i32` is. -/
inductive LoadPc where
  | openDirectory
  | statDirectory
  | openSlot
  | stat (node : ℕ)
  | read (node : ℕ) (contents : Bytes)
  | close (node : ℕ) (contents : Option Bytes)
  | closeDirectory (result : I32)

inductive Pc where
  | idle
  | save (slot value : I32) (pc : SavePc)
  | load (slot fallback : I32) (pc : LoadPc)
  | stopped

structure Process where
  pid : ℕ
  pc : Pc
  -- ghost state
  renamed : Bool
  failed : Bool
  held : Option I32

/-- What the system makes of a call. -/
inductive CallOutcome where
  | transferred (count : ℕ)
  | interrupted
  | failed

def CallOutcome.ok : CallOutcome → Bool
  | transferred _ => true
  | interrupted | failed => false

inductive StorageCall where
  | save (slot value : I32)
  | load (slot fallback : I32)

structure Rename where
  slot : I32
  value : I32

/-- A save that has returned, and whether its rename took effect. -/
structure SaveReturn where
  slot : I32
  value : I32
  renamed : Bool
  result : Bool

/-- A load that has returned, whether one of its calls failed and what its slot held when it
opened the file. -/
structure LoadReturn where
  slot : I32
  fallback : I32
  failed : Bool
  held : Option I32
  result : I32

structure StorageWorld where
  /-- The directories above the game's own. -/
  parents : ℕ
  fs : FileSystem
  processes : ℕ → Process
  -- ghost state
  initial : FileSystem
  renames : List Rename
  saves : List SaveReturn
  loads : List LoadReturn

inductive StorageAction where
  | call (process : ℕ) (call : StorageCall)
  | next (process : ℕ) (outcome : CallOutcome)
  | stop (process : ℕ)

/-- The value of the well-formed record in a slot. -/
def FileSystem.holds (fs : FileSystem) (slot : I32) : Option I32 :=
  if validSlot slot then (fs.lookup (slotName slot)).bind fun node => (fs.nodes node).record
  else none

namespace StorageWorld

/-- Processes on a directory with any files in it. -/
def start (parents : ℕ) (fs : FileSystem) (pids : ℕ → ℕ) : StorageWorld where
  parents := parents
  fs := fs
  processes := fun p => ⟨pids p, .idle, false, false, none⟩
  initial := fs
  renames := []
  saves := []
  loads := []

/-- The value of the latest rename on a slot, or what the slot held at first. -/
def latest (w : StorageWorld) (slot : I32) : Option I32 :=
  match (w.renames.filter fun r => r.slot = slot).getLast? with
  | some r => some r.value
  | none => w.initial.holds slot

def setProcess (w : StorageWorld) (p : ℕ) (process : Process) : StorageWorld :=
  { w with processes := Function.update w.processes p process }

def setPc (w : StorageWorld) (p : ℕ) (pc : Pc) : StorageWorld :=
  w.setProcess p { w.processes p with pc }

/-- Go on after a call that failed. -/
def failTo (w : StorageWorld) (p : ℕ) (pc : Pc) : StorageWorld :=
  w.setProcess p { w.processes p with pc, failed := true }

theorem setProcess_setProcess (w : StorageWorld) (p : ℕ) (process process' : Process) :
    (w.setProcess p process).setProcess p process' = w.setProcess p process' := by
  simp [setProcess]

theorem processes_setProcess (w : StorageWorld) (p : ℕ) (process : Process) :
    (w.setProcess p process).processes p = process := by
  simp [setProcess]

def returnSave (w : StorageWorld) (p : ℕ) (slot value : I32) (result : Bool) : StorageWorld :=
  { w.setPc p .idle with
    saves := w.saves ++ [⟨slot, value, (w.processes p).renamed, result⟩] }

def returnLoad (w : StorageWorld) (p : ℕ) (slot fallback result : I32) : StorageWorld :=
  { w.setPc p .idle with
    loads := w.loads ++
      [⟨slot, fallback, (w.processes p).failed, (w.processes p).held, result⟩] }

/-- `crumb_save_i32`, after its slot was found valid. -/
def stepSave (w : StorageWorld) (p : ℕ) (slot value : I32) (pc : SavePc) (outcome : CallOutcome) :
    StorageWorld :=
  match pc with
  -- `crumb_storage_ensure_directory` : a component is made, or is there already
  | .makeDirectory component =>
    if !outcome.ok then w.returnSave p slot value false
    else if component < w.parents then
      w.setPc p (.save slot value (.makeDirectory (component + 1)))
    else
      { w.setPc p (.save slot value .openDirectory) with fs := w.fs.makeDirectory }
  | .openDirectory =>
    if outcome.ok && w.fs.directory.isSome then w.setPc p (.save slot value .statDirectory)
    else w.returnSave p slot value false
  | .statDirectory =>
    if outcome.ok && (slotRecord value).length < 40 then w.setPc p (.save slot value (.create 0))
    else w.setPc p (.save slot value (.closeDirectory false))
  | .create attempt =>
    let name := temporaryName slot (w.processes p).pid attempt
    if 80 ≤ name.length || !outcome.ok then w.setPc p (.save slot value (.closeDirectory false))
    else
      match w.fs.lookup name with
      | some _ =>
        if attempt + 1 < 128 then w.setPc p (.save slot value (.create (attempt + 1)))
        else w.setPc p (.save slot value (.closeDirectory false))
      | none =>
        { w.setPc p (.save slot value (.write ⟨name, w.fs.nextNode⟩ (slotRecord value))) with
          fs := w.fs.create name }
  -- `crumb_storage_write_all`
  | .write temporary rest =>
    match outcome with
    | .transferred (count + 1) =>
      let w := { w with fs := w.fs.write temporary.node (rest.take (count + 1)) }
      if rest.length ≤ count + 1 then w.setPc p (.save slot value (.sync temporary))
      else w.setPc p (.save slot value (.write temporary (rest.drop (count + 1))))
    | .interrupted => w
    | .transferred 0 | .failed => w.setPc p (.save slot value (.close temporary false))
  | .sync temporary => w.setPc p (.save slot value (.close temporary outcome.ok))
  | .close temporary succeeded =>
    if outcome.ok && succeeded then w.setPc p (.save slot value (.rename temporary))
    else w.setPc p (.save slot value (.unlink temporary))
  | .rename temporary =>
    if outcome.ok && (w.fs.lookup temporary.name).isSome then
      { w.setProcess p
          { w.processes p with pc := .save slot value .syncDirectory, renamed := true } with
        fs := w.fs.rename temporary.name (slotName slot)
        renames := w.renames ++ [⟨slot, value⟩] }
    else w.setPc p (.save slot value (.unlink temporary))
  | .unlink temporary =>
    if outcome.ok then
      { w.setPc p (.save slot value (.closeDirectory false)) with
        fs := w.fs.unlink temporary.name }
    else w.setPc p (.save slot value (.closeDirectory false))
  | .syncDirectory => w.setPc p (.save slot value (.closeDirectory true))
  | .closeDirectory result => w.returnSave p slot value result

/-- `crumb_load_i32`, after its slot was found valid. -/
def stepLoad (w : StorageWorld) (p : ℕ) (slot fallback : I32) (pc : LoadPc)
    (outcome : CallOutcome) : StorageWorld :=
  match pc with
  | .openDirectory =>
    let w := w.setProcess p { w.processes p with held := w.latest slot }
    if !outcome.ok then w.failTo p (.load slot fallback (.closeDirectory fallback))
    else if w.fs.directory.isSome then w.setPc p (.load slot fallback .statDirectory)
    else w.setPc p (.load slot fallback (.closeDirectory fallback))
  | .statDirectory =>
    if outcome.ok then w.setPc p (.load slot fallback .openSlot)
    else w.failTo p (.load slot fallback (.closeDirectory fallback))
  | .openSlot =>
    let w := w.setProcess p { w.processes p with held := w.latest slot }
    if !outcome.ok then w.failTo p (.load slot fallback (.closeDirectory fallback))
    else
      match w.fs.lookup (slotName slot) with
      | some node => w.setPc p (.load slot fallback (.stat node))
      | none => w.setPc p (.load slot fallback (.closeDirectory fallback))
  | .stat node =>
    if !outcome.ok then w.failTo p (.load slot fallback (.close node none))
    else
      match w.fs.nodes node with
      | .regular contents =>
        if contents.length < 64 then w.setPc p (.load slot fallback (.read node []))
        else w.setPc p (.load slot fallback (.close node none))
      | .other => w.setPc p (.load slot fallback (.close node none))
  -- `crumb_storage_read_all` : only the end of the file gives no bytes
  | .read node contents =>
    match outcome, w.fs.nodes node with
    | .transferred count, .regular file =>
      let rest := file.drop contents.length
      if rest = [] then w.setPc p (.load slot fallback (.close node (some contents)))
      else
        let contents := contents ++ rest.take (min (max count 1) (64 - contents.length))
        if contents.length < 64 then w.setPc p (.load slot fallback (.read node contents))
        else w.setPc p (.load slot fallback (.close node none))
    | .interrupted, _ => w
    | _, _ => w.failTo p (.load slot fallback (.close node none))
  | .close _ contents =>
    if !outcome.ok then w.failTo p (.load slot fallback (.closeDirectory fallback))
    else
      match contents.bind parseI32 with
      | some value => w.setPc p (.load slot fallback (.closeDirectory value))
      | none => w.setPc p (.load slot fallback (.closeDirectory fallback))
  | .closeDirectory result => w.returnLoad p slot fallback result

def step (w : StorageWorld) : StorageAction → StorageWorld
  | .call p call =>
    match (w.processes p).pc, call with
    | .idle, .save slot value =>
      let w := w.setProcess p { w.processes p with renamed := false }
      if validSlot slot then w.setPc p (.save slot value (.makeDirectory 0))
      else w.returnSave p slot value false
    | .idle, .load slot fallback =>
      let w := w.setProcess p { w.processes p with failed := false, held := none }
      if validSlot slot then w.setPc p (.load slot fallback .openDirectory)
      else w.returnLoad p slot fallback fallback
    | _, _ => w
  | .next p outcome =>
    match (w.processes p).pc with
    | .save slot value pc => w.stepSave p slot value pc outcome
    | .load slot fallback pc => w.stepLoad p slot fallback pc outcome
    | .idle | .stopped => w
  | .stop p => w.setPc p .stopped

/-- Any interleaving of calls, from any files in the directory. -/
def run (parents : ℕ) (fs : FileSystem) (pids : ℕ → ℕ) (actions : List StorageAction) :
    StorageWorld := actions.foldl step (start parents fs pids)

end StorageWorld

/-! ## Temporary files -/

def SavePc.temporary : SavePc → Option Temporary
  | .write t _ | .sync t | .close t _ | .rename t | .unlink t => some t
  | _ => none

/-- The temporary file that a save has open or is about to remove. -/
def Pc.temporary : Pc → Option Temporary
  | .save _ _ pc => pc.temporary
  | _ => none

/-- The file that a load has open. -/
def Pc.reading : Pc → Option ℕ
  | .load _ _ (.stat node) | .load _ _ (.read node _) => some node
  | _ => none

/-- Every save has a temporary file of its own, which no slot names and no load reads. -/
structure Exclusive (fs : FileSystem) (temporary : ℕ → Option Temporary)
    (reading : ℕ → Option ℕ) : Prop where
  named : ∀ p t, temporary p = some t →
    fs.lookup t.name = some t.node ∧ ∀ slot, t.name ≠ slotName slot
  distinct : ∀ p q t t', temporary p = some t → temporary q = some t' → t.node = t'.node → p = q
  apart : ∀ p t slot, temporary p = some t → fs.lookup (slotName slot) ≠ some t.node
  unread : ∀ p t q, temporary p = some t → reading q ≠ some t.node
  read : ∀ q node, reading q = some node → node < fs.nextNode

namespace Exclusive

variable {fs fs' : FileSystem} {temporary temporary' : ℕ → Option Temporary}
  {reading reading' : ℕ → Option ℕ}

/-- Temporary files are given up, and a load may open a slot. -/
theorem mono (h : Exclusive fs temporary reading)
    (htemporary : ∀ q t, temporary' q = some t → temporary q = some t)
    (hreading : ∀ q node, reading' q = some node →
      reading q = some node ∨ ∃ slot, fs.lookup (slotName slot) = some node) :
    Exclusive fs temporary' reading' := by
  refine ⟨fun p t ht => h.named p t (htemporary p t ht), fun p q t t' ht ht' =>
    h.distinct p q t t' (htemporary p t ht) (htemporary q t' ht'),
    fun p t slot ht => h.apart p t slot (htemporary p t ht), fun p t q ht hq => ?_,
    fun q node hq => ?_⟩
  · rcases hreading q t.node hq with hq | ⟨slot, hslot⟩
    · exact h.unread p t q (htemporary p t ht) hq
    · exact h.apart p t slot (htemporary p t ht) hslot
  · rcases hreading q node hq with hq | ⟨slot, hslot⟩
    · exact h.read q node hq
    · exact fs.known _ node hslot

theorem congr (h : Exclusive fs temporary reading) (hlookup : fs'.lookup = fs.lookup)
    (hnext : fs'.nextNode = fs.nextNode) : Exclusive fs' temporary reading := by
  refine ⟨?_, h.distinct, ?_, h.unread, ?_⟩
  · rw [hlookup]
    exact h.named
  · rw [hlookup]
    exact h.apart
  · rw [hnext]
    exact h.read

theorem lt_nextNode (h : Exclusive fs temporary reading) {p : ℕ} {t : Temporary}
    (ht : temporary p = some t) : t.node < fs.nextNode :=
  fs.known _ _ (h.named p t ht).1

/-- Exclusive creation makes a temporary file that nobody else has. -/
theorem create (h : Exclusive fs temporary reading) {p : ℕ} {name : FileName}
    (hfree : fs.lookup name = none) (hname : ∀ slot, name ≠ slotName slot)
    (htemporary : ∀ q t, temporary' q = some t →
      (q = p ∧ t = ⟨name, fs.nextNode⟩) ∨ temporary q = some t)
    (hreading : ∀ q node, reading' q = some node → reading q = some node) :
    Exclusive (fs.create name) temporary' reading' := by
  have hlookup : ∀ other, other ≠ name → (fs.create name).lookup other = fs.lookup other :=
    fun other hother => Function.update_of_ne hother _ _
  have hself : (fs.create name).lookup name = some fs.nextNode := Function.update_self _ _ _
  refine ⟨fun q t ht => ?_, fun q r t t' ht ht' heq => ?_, fun q t slot ht hslot => ?_,
    fun q t r ht hr => ?_, fun q node hq => Nat.lt_succ_of_lt (h.read q node (hreading q node hq))⟩
  · rcases htemporary q t ht with ⟨-, rfl⟩ | ht
    · exact ⟨hself, hname⟩
    · obtain ⟨hnamed, hslots⟩ := h.named q t ht
      have hne : t.name ≠ name := fun heq => by
        rw [heq, hfree] at hnamed
        cases hnamed
      exact ⟨(hlookup _ hne).trans hnamed, hslots⟩
  · rcases htemporary q t ht with ⟨hq, rfl⟩ | ht <;>
      rcases htemporary r t' ht' with ⟨hr, rfl⟩ | ht'
    · exact hq.trans hr.symm
    · exact absurd heq (h.lt_nextNode ht').ne'
    · exact absurd heq (h.lt_nextNode ht).ne
    · exact h.distinct q r t t' ht ht' heq
  · rw [hlookup _ (hname slot).symm] at hslot
    rcases htemporary q t ht with ⟨-, rfl⟩ | ht
    · exact absurd (fs.known _ _ hslot) (lt_irrefl _)
    · exact h.apart q t slot ht hslot
  · have hr := hreading r _ hr
    rcases htemporary q t ht with ⟨-, rfl⟩ | ht
    · exact absurd (h.read r _ hr) (lt_irrefl _)
    · exact h.unread q t r ht hr

/-- Two saves never have one name. -/
theorem name_ne (h : Exclusive fs temporary reading) {p q : ℕ} {t t' : Temporary}
    (ht : temporary p = some t) (ht' : temporary q = some t') (hpq : q ≠ p) : t'.name ≠ t.name := by
  intro heq
  have hnode := (h.named q t' ht').1
  rw [heq, (h.named p t ht).1] at hnode
  exact hpq (h.distinct p q t t' ht ht' (Option.some.inj hnode)).symm

theorem rename (h : Exclusive fs temporary reading) {p : ℕ} {t : Temporary}
    (ht : temporary p = some t) (slot : I32)
    (htemporary : ∀ q t', temporary' q = some t' → q ≠ p ∧ temporary q = some t')
    (hreading : ∀ q node, reading' q = some node → reading q = some node) :
    Exclusive (fs.rename t.name (slotName slot)) temporary' reading' := by
  obtain ⟨hnamed, hslots⟩ := h.named p t ht
  have hlookup : ∀ name, name ≠ t.name → name ≠ slotName slot →
      (fs.rename t.name (slotName slot)).lookup name = fs.lookup name := fun name h1 h2 =>
    (Function.update_of_ne h1 _ _).trans (Function.update_of_ne h2 _ _)
  have htarget : (fs.rename t.name (slotName slot)).lookup (slotName slot) = some t.node :=
    ((Function.update_of_ne (hslots slot).symm _ _).trans (Function.update_self _ _ _)).trans hnamed
  refine ⟨fun q t' hq => ?_, fun q r t' t'' hq hr => ?_, fun q t' other hq hother => ?_,
    fun q t' r hq hr => ?_, fun q node hq => h.read q node (hreading q node hq)⟩
  · obtain ⟨hqp, hq⟩ := htemporary q t' hq
    obtain ⟨hnamed', hslots'⟩ := h.named q t' hq
    exact ⟨(hlookup _ (h.name_ne ht hq hqp) (hslots' slot)).trans hnamed', hslots'⟩
  · exact h.distinct q r t' t'' (htemporary q t' hq).2 (htemporary r t'' hr).2
  · obtain ⟨hqp, hq⟩ := htemporary q t' hq
    by_cases hsame : slotName other = slotName slot
    · rw [hsame, htarget] at hother
      exact hqp (h.distinct q p t' t hq ht (Option.some.inj hother).symm)
    · rw [hlookup _ (hslots other).symm hsame] at hother
      exact h.apart q t' other hq hother
  · exact h.unread q t' r (htemporary q t' hq).2 (hreading r _ hr)

theorem unlink (h : Exclusive fs temporary reading) {p : ℕ} {t : Temporary}
    (ht : temporary p = some t)
    (htemporary : ∀ q t', temporary' q = some t' → q ≠ p ∧ temporary q = some t')
    (hreading : ∀ q node, reading' q = some node → reading q = some node) :
    Exclusive (fs.unlink t.name) temporary' reading' := by
  obtain ⟨hnamed, hslots⟩ := h.named p t ht
  have hlookup : ∀ name, name ≠ t.name → (fs.unlink t.name).lookup name = fs.lookup name :=
    fun name hname => Function.update_of_ne hname _ _
  refine ⟨fun q t' hq => ?_, fun q r t' t'' hq hr => ?_, fun q t' other hq hother => ?_,
    fun q t' r hq hr => ?_, fun q node hq => h.read q node (hreading q node hq)⟩
  · obtain ⟨hqp, hq⟩ := htemporary q t' hq
    obtain ⟨hnamed', hslots'⟩ := h.named q t' hq
    exact ⟨(hlookup _ (h.name_ne ht hq hqp)).trans hnamed', hslots'⟩
  · exact h.distinct q r t' t'' (htemporary q t' hq).2 (htemporary r t'' hr).2
  · rw [hlookup _ (hslots other).symm] at hother
    exact h.apart q t' other (htemporary q t' hq).2 hother
  · exact h.unread q t' r (htemporary q t' hq).2 (hreading r _ hr)

end Exclusive

/-! ## What a slot holds -/

namespace FileSystem

variable {fs : FileSystem}

theorem holds_makeDirectory (slot : I32) : fs.makeDirectory.holds slot = fs.holds slot := rfl

theorem holds_create {name : FileName} (hname : ∀ slot, name ≠ slotName slot) (slot : I32) :
    (fs.create name).holds slot = fs.holds slot := by
  have hlookup : (fs.create name).lookup (slotName slot) = fs.lookup (slotName slot) :=
    Function.update_of_ne (hname slot).symm _ _
  unfold holds
  rw [hlookup]
  cases hnode : fs.lookup (slotName slot) with
  | none => rfl
  | some node =>
    have hne : node ≠ fs.nextNode := (fs.known _ node hnode).ne
    simp [create, Function.update_of_ne hne]

theorem holds_write {node : ℕ} (hnode : ∀ slot, fs.lookup (slotName slot) ≠ some node)
    (bytes : Bytes) (slot : I32) : (fs.write node bytes).holds slot = fs.holds slot := by
  unfold holds
  have hlookup : (fs.write node bytes).lookup (slotName slot) = fs.lookup (slotName slot) := rfl
  rw [hlookup]
  cases hslot : fs.lookup (slotName slot) with
  | none => rfl
  | some other =>
    have hne : other ≠ node := fun heq => hnode slot (heq ▸ hslot)
    simp [write, Function.update_of_ne hne]

theorem holds_unlink {name : FileName} (hname : ∀ slot, name ≠ slotName slot) (slot : I32) :
    (fs.unlink name).holds slot = fs.holds slot := by
  have hlookup : (fs.unlink name).lookup (slotName slot) = fs.lookup (slotName slot) :=
    Function.update_of_ne (hname slot).symm _ _
  unfold holds
  rw [hlookup]
  rfl

/-- A rename changes its own slot only. -/
theorem holds_rename {source : FileName} (hsource : ∀ slot, source ≠ slotName slot) {node : ℕ}
    (hnode : fs.lookup source = some node) {slot : I32} (hvalid : validSlot slot) (other : I32) :
    (fs.rename source (slotName slot)).holds other =
      if other = slot then (fs.nodes node).record else fs.holds other := by
  have hlookup : ∀ name, name ≠ source → (fs.rename source (slotName slot)).lookup name =
      if name = slotName slot then some node else fs.lookup name := fun name hname => by
    refine (Function.update_of_ne hname _ _).trans ?_
    rw [Function.update_apply, hnode]
  unfold holds
  rw [hlookup _ (hsource other).symm]
  by_cases heq : other = slot
  · subst heq
    simp [hvalid, rename]
  · rw [if_neg heq]
    by_cases hother : validSlot other
    · rw [if_neg fun hnames => heq (slotName_injective hother hvalid hnames)]
      rfl
    · simp [hother]

end FileSystem

/-! ## The invariant -/

def SavePc.Sane (fs : FileSystem) (value : I32) (renamed : Bool) : SavePc → Prop
  | .write t rest =>
    (∃ written, fs.nodes t.node = .regular written ∧ written ++ rest = slotRecord value) ∧
      renamed = false
  | .sync t | .close t true | .rename t =>
    fs.nodes t.node = .regular (slotRecord value) ∧ renamed = false
  | .syncDirectory => renamed = true
  | .closeDirectory result => result = renamed
  | _ => renamed = false

def LoadPc.Sane (fs : FileSystem) (fallback : I32) (failed : Bool) (held : Option I32) :
    LoadPc → Prop
  | .openDirectory | .statDirectory | .openSlot => True
  | .stat node => held = (fs.nodes node).record
  | .read node contents => ∃ file, fs.nodes node = .regular file ∧ held = parseI32 file ∧
      file.length < 64 ∧ contents <+: file
  | .close _ (some contents) => held = parseI32 contents
  | .close _ none => held = none ∨ failed = true
  | .closeDirectory result =>
    held = some result ∨ result = fallback ∧ (held = none ∨ failed = true)

/-- What a process has done so far. -/
def Process.Sane (fs : FileSystem) (process : Process) : Prop :=
  match process.pc with
  | .save slot value pc => validSlot slot = true ∧ pc.Sane fs value process.renamed
  | .load slot fallback pc =>
    validSlot slot = true ∧ pc.Sane fs fallback process.failed process.held
  | .idle | .stopped => True

/-- Only a process' own files matter to it. -/
theorem Process.Sane.frame {fs fs' : FileSystem} {process : Process} (h : process.Sane fs)
    (htemporary : ∀ t, process.pc.temporary = some t → fs'.nodes t.node = fs.nodes t.node)
    (hreading : ∀ node, process.pc.reading = some node → fs'.nodes node = fs.nodes node) :
    process.Sane fs' := by
  unfold Process.Sane at h ⊢
  cases hpc : process.pc with
  | idle | stopped => trivial
  | save slot value pc =>
    rw [hpc] at h htemporary
    refine ⟨h.1, ?_⟩
    have hsane := h.2
    cases pc
    case close t succeeded =>
      cases succeeded
      · exact hsane
      · simpa only [SavePc.Sane, htemporary t rfl] using hsane
    case write t rest => simpa only [SavePc.Sane, htemporary t rfl] using hsane
    case sync t | rename t => simpa only [SavePc.Sane, htemporary t rfl] using hsane
    all_goals exact hsane
  | load slot fallback pc =>
    rw [hpc] at h hreading
    refine ⟨h.1, ?_⟩
    have hsane := h.2
    cases pc
    case stat node | read node contents =>
      simpa only [LoadPc.Sane, hreading node rfl] using hsane
    case close node contents => cases contents <;> exact hsane
    all_goals exact hsane

/-- The slots hold what the renames made of them, and what has returned is right. -/
structure Stored (w : StorageWorld) : Prop where
  exclusive : Exclusive w.fs (fun p => (w.processes p).pc.temporary)
    (fun p => (w.processes p).pc.reading)
  sane : ∀ p, (w.processes p).Sane w.fs
  holds : ∀ slot, w.fs.holds slot = w.latest slot
  saves : ∀ s ∈ w.saves, s.result = true ↔ s.renamed = true
  loads : ∀ l ∈ w.loads,
    l.held = some l.result ∨ l.result = l.fallback ∧ (l.held = none ∨ l.failed = true)

namespace Stored

variable {w w' : StorageWorld}

theorem start (parents : ℕ) (fs : FileSystem) (pids : ℕ → ℕ) :
    Stored (StorageWorld.start parents fs pids) := by
  refine ⟨⟨nofun, nofun, nofun, nofun, nofun⟩, fun _ => trivial, fun _ => rfl, nofun, nofun⟩

/-- What a process has after another one has moved. -/
theorem of_update {α : Type} (f : Process → Option α) (processes : ℕ → Process) (p : ℕ)
    (process : Process) {q : ℕ} {a : α} (h : f (Function.update processes p process q) = some a) :
    q = p ∧ f process = some a ∨ q ≠ p ∧ f (processes q) = some a := by
  by_cases hq : q = p
  · subst hq
    rw [Function.update_self] at h
    exact .inl ⟨rfl, h⟩
  · rw [Function.update_of_ne hq] at h
    exact .inr ⟨hq, h⟩

/-- A process goes on and the files stay as they are. -/
theorem move (h : Stored w) {p : ℕ} {process : Process}
    (hprocesses : w'.processes = Function.update w.processes p process) (hfs : w'.fs = w.fs)
    (hinitial : w'.initial = w.initial) (hrenames : w'.renames = w.renames)
    (htemporary : ∀ t, process.pc.temporary = some t → (w.processes p).pc.temporary = some t)
    (hreading : ∀ node, process.pc.reading = some node →
      (w.processes p).pc.reading = some node ∨ ∃ slot, w.fs.lookup (slotName slot) = some node)
    (hsane : process.Sane w.fs)
    (hsaves : ∀ s ∈ w'.saves, s.result = true ↔ s.renamed = true)
    (hloads : ∀ l ∈ w'.loads,
      l.held = some l.result ∨ l.result = l.fallback ∧ (l.held = none ∨ l.failed = true)) :
    Stored w' := by
  refine ⟨?_, fun q => ?_, fun slot => ?_, hsaves, hloads⟩
  · rw [hfs, hprocesses]
    refine h.exclusive.mono (fun q t ht => ?_) (fun q node hnode => ?_)
    · rcases of_update (fun process => process.pc.temporary) w.processes p process ht with
        ⟨rfl, ht'⟩ | ⟨-, ht'⟩
      · exact htemporary t ht'
      · exact ht'
    · rcases of_update (fun process => process.pc.reading) w.processes p process hnode with
        ⟨rfl, hnode'⟩ | ⟨-, hnode'⟩
      · exact hreading node hnode'
      · exact .inl hnode'
  · rw [hfs, hprocesses]
    by_cases hq : q = p
    · subst hq
      rwa [Function.update_self]
    · rw [Function.update_of_ne hq]
      exact h.sane q
  · rw [hfs, h.holds, StorageWorld.latest, StorageWorld.latest, hinitial, hrenames]

theorem setProcess (h : Stored w) {p : ℕ} {process : Process}
    (htemporary : ∀ t, process.pc.temporary = some t → (w.processes p).pc.temporary = some t)
    (hreading : ∀ node, process.pc.reading = some node →
      (w.processes p).pc.reading = some node ∨ ∃ slot, w.fs.lookup (slotName slot) = some node)
    (hsane : process.Sane w.fs) : Stored (w.setProcess p process) :=
  h.move rfl rfl rfl rfl htemporary hreading hsane h.saves h.loads

theorem returnSave (h : Stored w) (p : ℕ) (slot value : I32) {result : Bool}
    (hresult : result = (w.processes p).renamed) : Stored (w.returnSave p slot value result) := by
  refine h.move rfl rfl rfl rfl nofun nofun trivial ?_ h.loads
  exact List.forall_mem_append.mpr ⟨h.saves, List.forall_mem_singleton.mpr (by simp [hresult])⟩

theorem returnLoad (h : Stored w) (p : ℕ) (slot : I32) {fallback result : I32}
    (hresult : (w.processes p).held = some result ∨
      result = fallback ∧ ((w.processes p).held = none ∨ (w.processes p).failed = true)) :
    Stored (w.returnLoad p slot fallback result) := by
  refine h.move rfl rfl rfl rfl nofun nofun trivial h.saves ?_
  exact List.forall_mem_append.mpr ⟨h.loads, List.forall_mem_singleton.mpr hresult⟩

/-- A process changes its own temporary file. -/
theorem change (h : Stored w) {p : ℕ} {process : Process}
    (hprocesses : w'.processes = Function.update w.processes p process)
    (hexclusive : ∀ temporary reading,
      (∀ q t, temporary q = some t →
        q = p ∧ process.pc.temporary = some t ∨ q ≠ p ∧ (w.processes q).pc.temporary = some t) →
      (∀ q node, reading q = some node →
        q = p ∧ process.pc.reading = some node ∨ q ≠ p ∧ (w.processes q).pc.reading = some node) →
      Exclusive w'.fs temporary reading)
    (hnodes : ∀ q, q ≠ p →
      (∀ t, (w.processes q).pc.temporary = some t → w'.fs.nodes t.node = w.fs.nodes t.node) ∧
      ∀ node, (w.processes q).pc.reading = some node → w'.fs.nodes node = w.fs.nodes node)
    (hsane : process.Sane w'.fs) (hholds : ∀ slot, w'.fs.holds slot = w'.latest slot)
    (hsaves : w'.saves = w.saves) (hloads : w'.loads = w.loads) : Stored w' := by
  refine ⟨?_, fun q => ?_, hholds, hsaves ▸ h.saves, hloads ▸ h.loads⟩
  · rw [hprocesses]
    exact hexclusive _ _
      (fun q t ht => of_update (fun process => process.pc.temporary) w.processes p process ht)
      (fun q node hnode => of_update (fun process => process.pc.reading) w.processes p process hnode)
  · rw [hprocesses]
    by_cases hq : q = p
    · subst hq
      rwa [Function.update_self]
    · rw [Function.update_of_ne hq]
      exact (h.sane q).frame (hnodes q hq).1 (hnodes q hq).2

theorem stepSave (h : Stored w) {p : ℕ} {slot value : I32} {pc : SavePc}
    (hpc : (w.processes p).pc = .save slot value pc) (outcome : CallOutcome) :
    Stored (w.stepSave p slot value pc outcome) := by
  have hsane := h.sane p
  unfold Process.Sane at hsane
  rw [hpc] at hsane
  obtain ⟨hvalid, hsane⟩ := hsane
  -- going on to a place without a temporary file, and to one with the same file
  have hclosed : ∀ pc' : SavePc, pc'.temporary = none →
      pc'.Sane w.fs value (w.processes p).renamed → Stored (w.setPc p (.save slot value pc')) :=
    fun pc' hnone hsane' => by
      refine h.setProcess (fun t ht => ?_) nofun ⟨hvalid, hsane'⟩
      cases hnone.symm.trans ht
  have hopen : ∀ (pc' : SavePc) (t : Temporary), pc'.temporary = some t → pc.temporary = some t →
      pc'.Sane w.fs value (w.processes p).renamed → Stored (w.setPc p (.save slot value pc')) :=
    fun pc' t ht' ht hsane' => by
      refine h.setProcess (fun t' heq => ?_) nofun ⟨hvalid, hsane'⟩
      rw [hpc]
      exact ht.trans (ht'.symm.trans heq)
  have htemporary : ∀ t, pc.temporary = some t → (w.processes p).pc.temporary = some t :=
    fun t ht => by
      rw [hpc]
      exact ht
  unfold StorageWorld.stepSave
  cases pc <;> simp only
  case makeDirectory component =>
    split
    · exact h.returnSave p slot value hsane.symm
    split
    · exact hclosed _ rfl hsane
    · refine h.change rfl (fun temporary reading ht hr => ?_) (fun q _ => ⟨fun _ _ => rfl, fun _ _ => rfl⟩)
        ⟨hvalid, hsane⟩ h.holds rfl rfl
      refine (h.exclusive.mono (fun q t hq => ?_) (fun q node hq => ?_)).congr rfl rfl
      · rcases ht q t hq with ⟨-, hq⟩ | ⟨-, hq⟩
        · cases hq
        · exact hq
      · rcases hr q node hq with ⟨-, hq⟩ | ⟨-, hq⟩
        · cases hq
        · exact .inl hq
  case openDirectory =>
    split
    · exact hclosed _ rfl hsane
    · exact h.returnSave p slot value hsane.symm
  case statDirectory => split <;> exact hclosed _ rfl (by first | exact hsane | exact hsane.symm)
  case create attempt =>
    split
    · exact hclosed _ rfl hsane.symm
    have hname : ∀ slot', temporaryName slot (w.processes p).pid attempt ≠ slotName slot' :=
      fun slot' => temporaryName_ne_slotName slot slot' _ _
    split
    · split
      · exact hclosed _ rfl hsane
      · exact hclosed _ rfl hsane.symm
    · next hfree =>
      have hnode : ∀ node, node < w.fs.nextNode →
          (w.fs.create (temporaryName slot (w.processes p).pid attempt)).nodes node =
            w.fs.nodes node := fun node hlt => Function.update_of_ne hlt.ne _ _
      refine h.change rfl (fun temporary reading ht hr => ?_) (fun q _ => ⟨fun t ht => ?_,
        fun node hread => ?_⟩) ⟨hvalid, ⟨[], ?_, rfl⟩, hsane⟩ (fun slot' => ?_) rfl rfl
      · refine h.exclusive.create (p := p) hfree hname (fun q t hq => ?_) (fun q node hq => ?_)
        · rcases ht q t hq with ⟨hqp, hq⟩ | ⟨-, hq⟩
          · exact .inl ⟨hqp, (Option.some.inj hq).symm⟩
          · exact .inr hq
        · rcases hr q node hq with ⟨-, hq⟩ | ⟨-, hq⟩
          · cases hq
          · exact hq
      · exact hnode _ (h.exclusive.lt_nextNode ht)
      · exact hnode _ (h.exclusive.read q node hread)
      · exact Function.update_self _ _ _
      · exact (FileSystem.holds_create hname slot').trans (h.holds slot')
  case write t rest =>
    obtain ⟨⟨written, hwritten, hrecord⟩, hrenamed⟩ := hsane
    have ht := htemporary t rfl
    -- the bytes reach the file, and the loop ends or goes on
    have hstep : ∀ (count : ℕ) (pc' : SavePc), pc'.temporary = some t →
        pc'.Sane (w.fs.write t.node (rest.take count)) value (w.processes p).renamed →
        Stored { w.setPc p (.save slot value pc') with
          fs := w.fs.write t.node (rest.take count) } := fun count pc' ht' hsane' => by
      have hother : ∀ node, node ≠ t.node →
          (w.fs.write t.node (rest.take count)).nodes node = w.fs.nodes node :=
        fun node hne => Function.update_of_ne hne _ _
      refine h.change rfl (fun temporary reading hq hr => ?_) (fun q hqp => ⟨fun t' hq => ?_,
        fun node hr => ?_⟩) ⟨hvalid, hsane'⟩ (fun slot' => ?_) rfl rfl
      · refine (h.exclusive.mono (fun q t' hq' => ?_) (fun q node hr' => ?_)).congr rfl rfl
        · rcases hq q t' hq' with ⟨rfl, hq'⟩ | ⟨-, hq'⟩
          · exact ht.trans (ht'.symm.trans hq')
          · exact hq'
        · rcases hr q node hr' with ⟨-, hr'⟩ | ⟨-, hr'⟩
          · cases hr'
          · exact .inl hr'
      · exact hother _ fun heq => hqp (h.exclusive.distinct q p t' t hq ht heq)
      · exact hother _ fun heq => h.exclusive.unread p t q ht (heq ▸ hr)
      · rw [FileSystem.holds_write (fun slot'' => h.exclusive.apart p t slot'' ht)]
        exact h.holds slot'
    have hnode : ∀ count, (w.fs.write t.node (rest.take count)).nodes t.node =
        .regular (written ++ rest.take count) := fun count => by
      simp [FileSystem.write, hwritten, Node.append]
    cases outcome
    case transferred count =>
      cases count
      case zero => exact hopen _ t rfl rfl hrenamed
      case succ count =>
        simp only
        split
        · next hle =>
          refine hstep (count + 1) _ rfl ⟨?_, hrenamed⟩
          rw [hnode, List.take_of_length_le hle, hrecord]
        · refine hstep (count + 1) _ rfl ⟨⟨written ++ rest.take (count + 1), hnode _, ?_⟩, hrenamed⟩
          rw [List.append_assoc, List.take_append_drop, hrecord]
    case interrupted => exact h
    case failed => exact hopen _ t rfl rfl hrenamed
  case sync t =>
    cases outcome
    case transferred => exact hopen _ t rfl rfl hsane
    all_goals exact hopen _ t rfl rfl hsane.2
  case close t succeeded =>
    cases succeeded
    · rw [Bool.and_false, if_neg Bool.false_ne_true]
      exact hopen _ t rfl rfl hsane
    · split
      · exact hopen _ t rfl rfl hsane
      · exact hopen _ t rfl rfl hsane.2
  case rename t =>
    obtain ⟨hrecord, hrenamed⟩ := hsane
    have ht := htemporary t rfl
    obtain ⟨hnamed, hslots⟩ := h.exclusive.named p t ht
    split
    · refine h.change rfl (fun temporary reading hq hr => ?_)
        (fun q _ => ⟨fun _ _ => rfl, fun _ _ => rfl⟩) ⟨hvalid, rfl⟩ (fun slot' => ?_) rfl rfl
      · refine h.exclusive.rename ht slot (fun q t' hq' => ?_) (fun q node hr' => ?_)
        · rcases hq q t' hq' with ⟨-, hq'⟩ | hq'
          · cases hq'
          · exact hq'
        · rcases hr q node hr' with ⟨-, hr'⟩ | ⟨-, hr'⟩
          · cases hr'
          · exact hr'
      · rw [FileSystem.holds_rename hslots hnamed hvalid, hrecord, Node.record,
          parseI32_eq_some.mpr rfl, StorageWorld.latest, List.filter_append]
        by_cases heq : slot' = slot
        · subst heq
          simp
        · have hnone : [(⟨slot, value⟩ : Rename)].filter (fun r => r.slot = slot') = [] := by
            simp [Ne.symm heq]
          rw [if_neg heq, h.holds, hnone, List.append_nil]
          rfl
    · exact hopen _ t rfl rfl hrenamed
  case unlink t =>
    have ht := htemporary t rfl
    obtain ⟨-, hslots⟩ := h.exclusive.named p t ht
    split
    · refine h.change rfl (fun temporary reading hq hr => ?_)
        (fun q _ => ⟨fun _ _ => rfl, fun _ _ => rfl⟩) ⟨hvalid, hsane.symm⟩ (fun slot' => ?_) rfl rfl
      · refine h.exclusive.unlink ht (fun q t' hq' => ?_) (fun q node hr' => ?_)
        · rcases hq q t' hq' with ⟨-, hq'⟩ | hq'
          · cases hq'
          · exact hq'
        · rcases hr q node hr' with ⟨-, hr'⟩ | ⟨-, hr'⟩
          · cases hr'
          · exact hr'
      · exact (FileSystem.holds_unlink hslots slot').trans (h.holds slot')
    · exact hclosed _ rfl hsane.symm
  case syncDirectory => exact hclosed _ rfl hsane.symm
  case closeDirectory result => exact h.returnSave p slot value hsane

theorem stepLoad (h : Stored w) {p : ℕ} {slot fallback : I32} {pc : LoadPc}
    (hpc : (w.processes p).pc = .load slot fallback pc) (outcome : CallOutcome) :
    Stored (w.stepLoad p slot fallback pc outcome) := by
  have hsane := h.sane p
  unfold Process.Sane at hsane
  rw [hpc] at hsane
  obtain ⟨hvalid, hsane⟩ := hsane
  have hheld : w.latest slot =
      (w.fs.lookup (slotName slot)).bind fun node => (w.fs.nodes node).record := by
    rw [← h.holds, FileSystem.holds, if_pos hvalid]
  -- going on to a place without an open file, and with the same file
  have hclosed : ∀ (pc' : LoadPc) (renamed failed : Bool) (held : Option I32),
      (Pc.load slot fallback pc').reading = none → pc'.Sane w.fs fallback failed held →
      Stored (w.setProcess p
        ⟨(w.processes p).pid, .load slot fallback pc', renamed, failed, held⟩) :=
    fun pc' renamed failed held hnone hsane' => by
      refine h.setProcess nofun (fun node hnode => ?_) ⟨hvalid, hsane'⟩
      cases hnone.symm.trans hnode
  unfold StorageWorld.stepLoad
  cases pc <;> simp only [StorageWorld.failTo, StorageWorld.setPc,
    StorageWorld.setProcess_setProcess, StorageWorld.processes_setProcess]
  case openDirectory =>
    split
    · exact hclosed _ _ _ _ rfl (.inr ⟨rfl, .inr rfl⟩)
    split
    · exact hclosed _ _ _ _ rfl trivial
    · next hmissing =>
      refine hclosed _ _ _ _ rfl (.inr ⟨rfl, .inl ?_⟩)
      have hmissing : w.fs.directory = none := Option.not_isSome_iff_eq_none.mp hmissing
      rw [hheld, FileSystem.lookup, hmissing]
      rfl
  case statDirectory =>
    split
    · exact hclosed _ _ _ _ rfl trivial
    · exact hclosed _ _ _ _ rfl (.inr ⟨rfl, .inr rfl⟩)
  case openSlot =>
    split
    · exact hclosed _ _ _ _ rfl (.inr ⟨rfl, .inr rfl⟩)
    split
    · next node hnode =>
      refine h.setProcess nofun (fun node' hnode' => ?_) ⟨hvalid, ?_⟩
      · cases hnode'
        exact .inr ⟨slot, hnode⟩
      · simp only [LoadPc.Sane]
        rw [hheld]
        exact congrArg (Option.bind · _) hnode
    · next hnone =>
      refine hclosed _ _ _ _ rfl (.inr ⟨rfl, .inl ?_⟩)
      rw [hheld]
      exact congrArg (Option.bind · _) hnone
  case stat node =>
    have hheld : (w.processes p).held = (w.fs.nodes node).record := hsane
    split
    · exact hclosed _ _ _ _ rfl (.inr rfl)
    split
    · next contents hnode =>
      rw [hnode] at hheld
      split
      · next hlen =>
        refine h.setProcess nofun (fun node' hnode' => ?_)
          ⟨hvalid, contents, hnode, hheld, hlen, List.nil_prefix⟩
        rw [hpc]
        exact .inl hnode'
      · next hlen =>
        -- a file this long is not a record
        refine hclosed _ _ _ _ rfl (.inl ?_)
        rw [hheld, Node.record, Option.eq_none_iff_forall_ne_some]
        intro value hvalue
        have hrecord := length_slotRecord_le value
        rw [← parseI32_eq_some.mp hvalue] at hrecord
        omega
    · next hnode =>
      refine hclosed _ _ _ _ rfl (.inl ?_)
      rw [hheld, hnode]
      rfl
  case read node contents =>
    obtain ⟨file, hfile, hheld, hlen, hprefix⟩ := hsane
    rw [hfile]
    cases outcome <;> simp only
    case interrupted => exact h
    case failed => exact hclosed _ _ _ _ rfl (.inr rfl)
    case transferred count =>
      obtain ⟨rest, rfl⟩ := hprefix
      rw [List.drop_left]
      split
      · next hrest =>
        refine hclosed _ _ _ _ rfl ?_
        rwa [hrest, List.append_nil] at hheld
      · have hshort : (contents ++ rest.take (min (max count 1) (64 - contents.length))).length <
            64 := by
          simp only [List.length_append, List.length_take] at hlen ⊢
          omega
        rw [if_pos hshort]
        refine h.setProcess nofun (fun node' hnode' => ?_) ⟨hvalid, _, hfile, hheld, hlen, ?_⟩
        · rw [hpc]
          exact .inl hnode'
        · exact (List.prefix_append_right_inj contents).mpr (List.take_prefix _ rest)
  case close node contents =>
    split
    · exact hclosed _ _ _ _ rfl (.inr ⟨rfl, .inr rfl⟩)
    cases contents with
    | none => exact hclosed _ _ _ _ rfl (.inr ⟨rfl, hsane⟩)
    | some contents =>
      have hheld : (w.processes p).held = parseI32 contents := hsane
      split
      · next value hvalue => exact hclosed _ _ _ _ rfl (.inl (hheld.trans hvalue))
      · next hnone => exact hclosed _ _ _ _ rfl (.inr ⟨rfl, .inl (hheld.trans hnone)⟩)
  case closeDirectory result => exact h.returnLoad p slot hsane

theorem step (h : Stored w) (action : StorageAction) : Stored (w.step action) := by
  cases action with
  | call p call =>
    simp only [StorageWorld.step]
    -- an idle process keeps nothing but its identity
    have hidle : ∀ (renamed failed : Bool) (held : Option I32), (w.processes p).pc = .idle →
        Stored (w.setProcess p ⟨(w.processes p).pid, (w.processes p).pc, renamed, failed, held⟩) :=
      fun renamed failed held hpc => by
        rw [hpc]
        exact h.setProcess nofun nofun trivial
    split
    · next slot value hpc =>
      split
      · next hvalid =>
        rw [StorageWorld.setPc, StorageWorld.setProcess_setProcess,
          StorageWorld.processes_setProcess]
        exact h.setProcess nofun nofun ⟨hvalid, rfl⟩
      · refine (hidle _ _ _ hpc).returnSave p slot value ?_
        rw [StorageWorld.processes_setProcess]
    · next slot fallback hpc =>
      split
      · next hvalid =>
        rw [StorageWorld.setPc, StorageWorld.setProcess_setProcess,
          StorageWorld.processes_setProcess]
        exact h.setProcess nofun nofun ⟨hvalid, trivial⟩
      · refine (hidle _ _ _ hpc).returnLoad p slot (.inr ⟨rfl, .inl ?_⟩)
        rw [StorageWorld.processes_setProcess]
    · exact h
  | next p outcome =>
    simp only [StorageWorld.step]
    split
    · next hpc => exact h.stepSave hpc outcome
    · next hpc => exact h.stepLoad hpc outcome
    · exact h
    · exact h
  | stop p => exact h.setProcess nofun nofun trivial

theorem run (parents : ℕ) (fs : FileSystem) (pids : ℕ → ℕ) (actions : List StorageAction) :
    Stored (StorageWorld.run parents fs pids actions) :=
  foldl_invariant (start parents fs pids) (fun _ action h => h.step action) actions

end Stored

end Speck
