import Speck.EmbeddedData
import Speck.SoundHandles

/-!
# The sound lookup

What the emitted function `spk_sound_lookup` does. A line of its body is an instruction or a label
(`LookupLine`), and `Lookup.run` is its run : the `switch` goes to the block of the handle, or to
`missing`, and the block stores a pointer and a number of samples and returns. For the sounds of a
loaded program, it finds for each handle the samples of the sound with that handle, and for any other
number nothing (`sound_lookup_exact`).
-/

namespace Speck

namespace EmbeddedData

/-! ## Lines -/

/-- A line of `spk_sound_lookup`. The block `missing` has no handle. -/
inductive LookupLine where
  | switch
  | case (handle : I32)
  | switchEnd
  | label (handle : Option I32)
  | storeData (handle : Option I32)
  | storeCount (count : ℕ)
  | ret (found : Bool)
  | close
  | blank
  deriving DecidableEq

/-- The symbol of a sound's samples. -/
def soundSymbol (handle : I32) : Text := "spk_sound_asset_".toList ++ i32Text handle

def LookupLine.write : LookupLine → Text
  | switch => "  switch i32 %handle, label %missing [".toList
  | case handle => "    i32 ".toList ++ i32Text handle ++ ", label %sound_".toList ++ i32Text handle
  | switchEnd => "  ]".toList
  | label (some handle) => "sound_".toList ++ i32Text handle ++ ":".toList
  | label none => "missing:".toList
  | storeData (some handle) => "  store ptr @".toList ++ soundSymbol handle ++ ", ptr %data".toList
  | storeData none => "  store ptr null, ptr %data".toList
  | storeCount count => "  store i32 ".toList ++ decimalText count ++ ", ptr %sample_count".toList
  | ret found => "  ret i32 ".toList ++ (if found then "1" else "0").toList
  | close => "\x7d".toList
  | blank => []

/-- The block of a sound. -/
def soundBlock (sound : SoundAsset) : List LookupLine :=
  [.label sound.handle, .storeData sound.handle, .storeCount (sound.pcm.length / 2), .ret true]

/-- What is stored for a number that is no handle. -/
def missingBlock : List LookupLine := [.storeData none, .storeCount 0, .ret false, .close, .blank]

def lookupCode (sounds : List SoundAsset) : List LookupLine :=
  if sounds = [] then missingBlock
  else
    .switch :: (sounds.map fun sound => .case sound.handle) ++ .switchEnd ::
      sounds.flatMap soundBlock ++ .label none :: missingBlock

theorem lookupLines_eq (sounds : List SoundAsset) :
    lookupLines sounds = (lookupCode sounds).map LookupLine.write := by
  unfold lookupLines lookupCode
  split
  · rfl
  · simp only [List.map_cons, List.map_append, List.map_map, List.map_flatMap, missingBlock,
      List.map_nil, soundBlock]
    rfl

/-! ## Runs -/

/-- What a run has stored, and whether it returns 1. -/
structure LookupResult where
  data : Option I32
  count : ℕ
  found : Bool

namespace Lookup

/-- The lines of a block, from its label on. -/
def block (label : Option I32) (code : List LookupLine) : List LookupLine :=
  (code.dropWhile (· ≠ .label label)).tail

/-- Run the lines of a block up to its `ret`. -/
def runBlock (data : Option (Option I32)) (count : Option ℕ) : List LookupLine → Option LookupResult
  | .storeData handle :: rest => runBlock (some handle) count rest
  | .storeCount n :: rest => runBlock data (some n) rest
  | .ret found :: _ => do
    let data ← data
    let count ← count
    pure ⟨data, count, found⟩
  | _ => none

/-- The block that a `switch` goes to. -/
def target (handle : I32) (code : List LookupLine) : Option I32 :=
  if .case handle ∈ code.takeWhile (· ≠ .switchEnd) then some handle else none

/-- Run `spk_sound_lookup`. -/
def run (code : List LookupLine) (handle : I32) : Option LookupResult :=
  match code with
  | .switch :: rest => runBlock none none (block (target handle rest) rest)
  | code => runBlock none none code

variable {sounds : List SoundAsset}

theorem target_lookupCode (handle : I32) (rest : List LookupLine) :
    target handle ((sounds.map fun sound => LookupLine.case sound.handle) ++ .switchEnd :: rest) =
      if handle ∈ sounds.map (·.handle) then some handle else none := by
  have hcases : ∀ line ∈ sounds.map fun sound => LookupLine.case sound.handle,
      decide (line ≠ .switchEnd) = true := by
    simp
  rw [target, List.takeWhile_append_of_pos hcases]
  simp

/-- The code before a block has other labels. -/
theorem block_append {label : Option I32} {front back : List LookupLine}
    (h : ∀ line ∈ front, line ≠ .label label) : block label (front ++ .label label :: back) = back := by
  rw [block, List.dropWhile_append_of_pos (fun line hline => decide_eq_true (h line hline)),
    List.dropWhile_cons_of_neg (by simp)]
  rfl

/-- The code of a `switch` over sounds. -/
theorem run_lookupCode (hnonempty : sounds ≠ []) (handle : I32) : run (lookupCode sounds) handle =
    runBlock none none (block (if handle ∈ sounds.map (·.handle) then some handle else none)
      ((sounds.map fun sound => LookupLine.case sound.handle) ++ .switchEnd ::
        (sounds.flatMap soundBlock ++ .label none :: missingBlock))) := by
  rw [lookupCode, if_neg hnonempty, ← target_lookupCode handle, List.cons_append, List.cons_append,
    List.append_assoc]
  rfl

/-- No line of another block has the label of a block. -/
theorem ne_label {label : Option I32} {others : List SoundAsset}
    (h : ∀ sound ∈ others, some sound.handle ≠ label) :
    ∀ line ∈ (sounds.map fun sound => LookupLine.case sound.handle) ++ .switchEnd ::
      others.flatMap soundBlock, line ≠ .label label := by
  intro line hline
  rcases List.mem_append.mp hline with hline | hline
  · obtain ⟨sound, -, rfl⟩ := List.mem_map.mp hline
    rintro ⟨⟩
  · rcases List.mem_cons.mp hline with rfl | hline
    · rintro ⟨⟩
    · obtain ⟨sound, hsound, hline⟩ := List.mem_flatMap.mp hline
      simp only [soundBlock, List.mem_cons, List.not_mem_nil, or_false] at hline
      rcases hline with rfl | rfl | rfl | rfl
      · exact fun heq => h sound hsound (LookupLine.label.inj heq)
      all_goals rintro ⟨⟩

theorem run_missing {handle : I32} (h : handle ∉ sounds.map (·.handle)) :
    run (lookupCode sounds) handle = some ⟨none, 0, false⟩ := by
  by_cases hnonempty : sounds = []
  · rw [hnonempty]
    rfl
  · have hfront : ∀ line ∈ (sounds.map fun sound => LookupLine.case sound.handle) ++ .switchEnd ::
        sounds.flatMap soundBlock, line ≠ .label none := ne_label (by simp)
    rw [run_lookupCode hnonempty, if_neg h, ← List.cons_append, ← List.append_assoc,
      block_append hfront]
    rfl

theorem run_found (hnodup : (sounds.map (·.handle)).Nodup) {sound : SoundAsset}
    (hsound : sound ∈ sounds) : run (lookupCode sounds) sound.handle =
      some ⟨sound.handle, sound.pcm.length / 2, true⟩ := by
  obtain ⟨before, after, hsounds⟩ := List.append_of_mem hsound
  have hother : ∀ other ∈ before, some other.handle ≠ some sound.handle := by
    intro other hmem heq
    rw [hsounds, List.map_append, List.nodup_append] at hnodup
    exact hnodup.2.2 _ (List.mem_map_of_mem hmem) _ List.mem_cons_self (Option.some.inj heq)
  -- the code before the block of the sound
  have hcode : (sounds.map fun sound => LookupLine.case sound.handle) ++ .switchEnd ::
      (sounds.flatMap soundBlock ++ .label none :: missingBlock) =
      ((sounds.map fun sound => LookupLine.case sound.handle) ++ .switchEnd ::
        before.flatMap soundBlock) ++ .label sound.handle :: (.storeData sound.handle ::
          .storeCount (sound.pcm.length / 2) :: .ret true ::
            (after.flatMap soundBlock ++ .label none :: missingBlock)) := by
    conv_lhs => rw [hsounds]
    conv_rhs => rw [hsounds]
    simp [soundBlock]
  have hnonempty : sounds ≠ [] := List.ne_nil_of_mem hsound
  rw [run_lookupCode hnonempty, if_pos (List.mem_map_of_mem hsound), hcode,
    block_append (ne_label hother)]
  rfl

end Lookup

/-- In a program that the analysis accepts, the lookup finds for each sound its samples under its
handle, and nothing for any other number. -/
theorem sound_lookup_exact [F32Primitives] {Path : Type} [DecidableEq Path] {paths : PathTools Path}
    {files : Files Path} {path : Path} {program' : Program} {sources : SourceMap Path}
    (h : analyzeFiles paths files path = (.ok program', sources)) :
    lookupLines (sortedSounds program') =
        (lookupCode (sortedSounds program')).map LookupLine.write ∧
      (∀ sound ∈ program'.sounds,
        Lookup.run (lookupCode (sortedSounds program')) sound.handle =
          some ⟨sound.handle, sound.pcm.length / 2, true⟩ ∧
        ∃ definition, readDefinition (soundLine sound) = some definition ∧
          Declares definition (soundSymbol sound.handle) sound.pcm) ∧
      ∀ handle ∉ program'.sounds.map (·.handle),
        Lookup.run (lookupCode (sortedSounds program')) handle = some ⟨none, 0, false⟩ := by
  obtain ⟨-, hhandles, -⟩ := sound_handles h
  have hperm : (sortedSounds program').Perm program'.sounds := List.mergeSort_perm _ _
  have hnodup : ((sortedSounds program').map (·.handle)).Nodup := by
    have hrange : ((List.range program'.sounds.length).map fun index : ℕ => (index : ℤ) + 1).Nodup :=
      List.nodup_range.map fun a b h => by simpa using h
    have hints := hhandles.nodup_iff.mpr hrange
    rw [← Function.comp_def BitVec.toInt, ← List.map_map] at hints
    exact (hperm.map _).nodup_iff.mpr hints.of_map
  refine ⟨lookupLines_eq _, fun sound hsound => ⟨?_, ?_⟩, fun handle hhandle => ?_⟩
  · exact Lookup.run_found hnodup (hperm.mem_iff.mpr hsound)
  · exact (reads_soundLine sound).declares
  · exact Lookup.run_missing fun hmem => hhandle ((hperm.map _).mem_iff.mp hmem)

theorem sound_lookup_exact_sample : ∃ program' sources,
    @analyzeFiles softFloat String _ Sample.paths Sample.files "g.spk" = (.ok program', sources) ∧
      program'.sounds.map (·.handle) = [1] ∧
      Lookup.run (lookupCode (sortedSounds program')) 2 = some ⟨none, 0, false⟩ := by
  obtain ⟨program', sources, hrun, hhandles⟩ := Sample.files_accepted
  exact ⟨program', sources, hrun, hhandles,
    (@sound_lookup_exact softFloat _ _ _ _ _ _ _ hrun).2.2 2 (by rw [hhandles]; decide)⟩

end EmbeddedData

end Speck
