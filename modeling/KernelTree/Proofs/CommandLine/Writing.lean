import KernelTree.CommandLine.Command
import KernelTree.Proofs.Files.Disk
/-! Texts written on a disk. When all of them could be written, each is read back from its path,
unless a later one was written to the same place. Whatever else stood on the disk stands there
still, also if the run broke off. -/
namespace KernelTree

namespace Disk

/-- A change that may be refused: a refusal leaves the disk as it was. -/
theorem run_changed (d : Disk) (changed : Except FileError Disk) :
    (match changed with
      | .ok d' => do
        set d'
        return .ok ()
      | .error e => return .error e : StateM Disk (Except FileError Unit)).run d =
      match changed with
      | .ok d' => (.ok (), d')
      | .error e => (.error e, d) := by
  cases changed <;> rfl

theorem run_write (d : Disk) (path text : String) :
    (Files.write path text : StateM Disk _).run d =
      match d.write path text with
      | .ok d' => (.ok (), d')
      | .error e => (.error e, d) :=
  run_changed d (d.write path text)

theorem run_createDirectories (d : Disk) (path : String) :
    (Files.createDirectories path : StateM Disk _).run d =
      match d.createDirectories path with
      | .ok d' => (.ok (), d')
      | .error e => (.error e, d) :=
  run_changed d (d.createDirectories path)

end Disk

namespace CommandLine

variable {name path : String} {o : TargetOutput} {files rest : List (String × TargetOutput)}
  {d d' : Disk}

/-- A run that writes texts into their files on a disk, and the disk afterwards. -/
def writing (name : String) (files : List (String × TargetOutput)) (d : Disk) : Outcome × Disk :=
  (writeAll name files : StateM Disk Outcome).run d

theorem writing_of_ok (done : d.write path o.source = .ok d') :
    (writing name ((path, o) :: rest) d).1.status = (writing name rest d').1.status ∧
      (writing name ((path, o) :: rest) d).2 = (writing name rest d').2 := by
  rw [writing, writeAll, StateT.run_bind, Disk.run_write, done]
  exact ⟨rfl, rfl⟩

theorem writing_of_error {e : FileError} (refused : d.write path o.source = .error e) :
    (writing name ((path, o) :: rest) d).1.status = 1 ∧
      (writing name ((path, o) :: rest) d).2 = d := by
  rw [writing, writeAll, StateT.run_bind, Disk.run_write, refused]
  exact ⟨rfl, rfl⟩

/-- All paths lead to where they led, whether all texts could be written or not. -/
theorem locate_writing (other : String) (goal : List String) :
    (writing name files d).2.locate other = .ok goal ↔ d.locate other = .ok goal := by
  induction files generalizing d with
  | nil => rfl
  | cons file rest ih =>
    obtain ⟨path, o⟩ := file
    cases written : d.write path o.source with
    | error e => rw [(writing_of_error written).2]
    | ok d₁ =>
      obtain ⟨place, -, -, still⟩ := Disk.entry_of_write written
      rw [(writing_of_ok written).2, ih, still]

/-- Nothing is changed but the files at the paths. -/
theorem entry_writing {x : List String} (elsewhere : ∀ file ∈ files, d.locate file.1 ≠ .ok x) :
    Disk.entry? (writing name files d).2 x = d.entry? x := by
  induction files generalizing d with
  | nil => rfl
  | cons file rest ih =>
    obtain ⟨path, o⟩ := file
    obtain ⟨here, others⟩ := List.forall_mem_cons.mp elsewhere
    cases written : d.write path o.source with
    | error e => rw [(writing_of_error written).2]
    | ok d₁ =>
      obtain ⟨place, led, stands, still⟩ := Disk.entry_of_write written
      rw [(writing_of_ok written).2, ih fun file member => mt (still _ _).mp (others file member),
        stands, if_neg]
      rintro rfl
      exact here led

/-- When all texts could be written, each is read back, unless a later one went to its place. -/
theorem read_writing (done : (writing name files d).1.status = 0)
    {before after : List (String × TargetOutput)} (split : files = before ++ (path, o) :: after)
    (last : ∀ file ∈ after, ∀ place, d.locate path = .ok place → d.locate file.1 ≠ .ok place) :
    (writing name files d).2.read path = .ok o.source := by
  induction files generalizing d before with
  | nil => simp at split
  | cons file rest ih =>
    obtain ⟨first, o'⟩ := file
    cases written : d.write first o'.source with
    | error e =>
      rw [(writing_of_error written).1] at done
      cases done
    | ok d₁ =>
      obtain ⟨place, led, stands, still⟩ := Disk.entry_of_write written
      rw [(writing_of_ok written).1] at done
      rw [(writing_of_ok written).2]
      cases before with
      | nil =>
        obtain ⟨same, rfl⟩ := List.cons.inj split
        cases same
        apply Disk.read_of_entry ((locate_writing _ _).mpr ((still _ _).mpr led))
        rw [entry_writing fun file member => mt (still _ _).mp (last file member place led),
          stands, if_pos rfl]
      | cons _ before =>
        apply ih done (List.cons.inj split).2
        intro file member place led
        exact mt (still _ _).mp (last file member place ((still _ _).mp led))

/-- Writing the texts of a run into a directory leaves all that stood on the disk, but for the files
at the paths of the texts. When the run ends well, each text is read back from its path, unless that
of a later one leads to the same place. -/
theorem writeOutputs_on_disk (d : Disk) (directory name : String) (outputs : List TargetOutput) :
    let ran := (writeOutputs directory name outputs : StateM Disk Outcome).run d
    let files := (outputPaths directory name [] outputs).zip outputs
    (∀ x entry, d.entry? x = some entry → (∀ file ∈ files, ran.2.locate file.1 ≠ .ok x) →
      Disk.entry? ran.2 x = some entry) ∧
    (ran.1.status = 0 → ∀ before path o after, files = before ++ (path, o) :: after →
      (∀ file ∈ after, ran.2.locate file.1 ≠ ran.2.locate path) →
        ran.2.read path = .ok o.source) := by
  intro ran files
  cases made : d.createDirectories directory with
  | error e =>
    have broken : ran.1.status = 1 ∧ ran.2 = d := by
      simp only [ran]
      rw [writeOutputs, StateT.run_bind, Disk.run_createDirectories, made]
      exact ⟨rfl, rfl⟩
    rw [broken.1, broken.2]
    exact ⟨fun x entry stands _ => stands, nofun⟩
  | ok d₁ =>
    have wrote : ran = writing name files d₁ := by
      simp only [ran]
      rw [writeOutputs, StateT.run_bind, Disk.run_createDirectories, made]
      rfl
    rw [wrote]
    refine ⟨fun x entry stands elsewhere => ?_, fun done before path o after split apart => ?_⟩
    · rw [entry_writing fun file member =>
        mt (locate_writing _ _).mpr (elsewhere file member)]
      exact Disk.within_of_createDirectories made x entry stands
    · apply read_writing done split
      intro file member place led same
      apply apart file member
      rw [(locate_writing _ _).mpr led, (locate_writing _ _).mpr same]

end CommandLine
end KernelTree
