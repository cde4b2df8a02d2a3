import KernelTree.CommandLine.Command
/-! The files into which the texts of one run go. A text whose file is taken is displaced to a file
that is named for its target too. Nothing is displaced twice, so two texts are for the same file
exactly if the file of a displaced one is that of a text before it. -/
namespace KernelTree.CommandLine

variable {directory name : String} {outputs : List TargetOutput} {o : TargetOutput} {i j : Nat}

/-- The name of a file that tells the kernel. -/
def shortName (name : String) (o : TargetOutput) : String := name ++ o.extension

/-- The name of a file that tells the kernel and the target. -/
def longName (name : String) (o : TargetOutput) : String := name ++ "." ++ o.target ++ o.extension

/-- The names on the path to a file that is named from a directory. -/
def place (directory file : String) : List String := Path.names (Path.join directory file)

def fileName (directory name : String) (taken : List (List String)) (o : TargetOutput) : String :=
  if taken.contains (place directory (shortName name o)) then longName name o else shortName name o

/-- What is joined to the directory for each text. -/
def fileNames (directory name : String) : List (List String) → List TargetOutput → List String
  | _, [] => []
  | taken, o :: rest =>
    let file := fileName directory name taken o
    file :: fileNames directory name (place directory file :: taken) rest

theorem outputPath_eq (directory name : String) (taken : List (List String)) (o : TargetOutput) :
    outputPath directory name taken o = Path.join directory (fileName directory name taken o) := by
  simp only [fileName, List.contains_iff_mem, apply_ite (Path.join directory)]
  rfl

theorem outputPaths_eq (directory name : String) (taken : List (List String))
    (outputs : List TargetOutput) :
    outputPaths directory name taken outputs =
      (fileNames directory name taken outputs).map (Path.join directory) := by
  induction outputs generalizing taken with
  | nil => rfl
  | cons o rest ih =>
    rw [outputPaths, fileNames, List.map_cons, outputPath_eq, ih]
    rfl

theorem length_fileNames (directory name : String) (taken : List (List String))
    (outputs : List TargetOutput) :
    (fileNames directory name taken outputs).length = outputs.length := by
  induction outputs generalizing taken with
  | nil => rfl
  | cons o rest ih => simp [fileNames, ih]

/-- The file of a text is chosen by the files of the texts before it. -/
theorem getElem?_fileNames (taken : List (List String)) (i : Nat) :
    (fileNames directory name taken outputs)[i]? = outputs[i]?.map (fileName directory name
      ((((fileNames directory name taken outputs).take i).map (place directory)).reverse ++
        taken)) := by
  induction outputs generalizing taken i with
  | nil => rfl
  | cons o rest ih =>
    cases i with
    | zero => simp [fileNames]
    | succ i => simp [fileNames, ih]

/-- The file stands before that place of the list, perhaps under another name. -/
def TakenBefore (directory : String) (files : List String) (i : Nat) (file : String) : Prop :=
  ∃ j < i, ∃ other, files[j]? = some other ∧ place directory file = place directory other

theorem TakenBefore.later {files : List String} {file other : String} (before : j < i)
    (same : place directory file = place directory other)
    (taken : TakenBefore directory files j other) : TakenBefore directory files i file := by
  obtain ⟨k, earlier, first, found, also⟩ := taken
  exact ⟨k, Nat.lt_trans earlier before, first, found, same.trans also⟩

theorem mem_places_take {files : List String} {file : String} :
    place directory file ∈ ((files.take i).map (place directory)).reverse ↔
      TakenBefore directory files i file := by
  rw [List.mem_reverse, List.mem_map]
  constructor
  · rintro ⟨other, member, same⟩
    obtain ⟨j, inside, rfl⟩ := List.mem_take_iff_getElem.mp member
    exact ⟨j, by omega, files[j], List.getElem?_eq_getElem (by omega), same.symm⟩
  · rintro ⟨j, before, other, found, same⟩
    have member := List.mem_of_getElem? ((List.getElem?_take_of_lt before).trans found)
    exact ⟨other, member, same.symm⟩

/-- A text has its short name unless the file has been taken. -/
theorem getElem?_fileNames_of_getElem? (directory name : String) (own : outputs[i]? = some o) :
    let files := fileNames directory name [] outputs
    (TakenBefore directory files i (shortName name o) ∧ files[i]? = some (longName name o)) ∨
      (¬TakenBefore directory files i (shortName name o) ∧
        files[i]? = some (shortName name o)) := by
  intro files
  rw [getElem?_fileNames, own, Option.map_some, List.append_nil, fileName, ← mem_places_take]
  by_cases taken : place directory (shortName name o) ∈
      ((files.take i).map (place directory)).reverse
  · exact .inl ⟨taken, congrArg some (if_pos (List.contains_iff_mem.mpr taken))⟩
  · exact .inr ⟨taken, congrArg some (if_neg (mt List.contains_iff_mem.mp taken))⟩

/-- Every file is that of a text. -/
theorem exists_of_getElem?_fileNames {file : String}
    (found : (fileNames directory name [] outputs)[i]? = some file) :
    let files := fileNames directory name [] outputs
    ∃ o, outputs[i]? = some o ∧
      ((TakenBefore directory files i (shortName name o) ∧ file = longName name o) ∨
        (¬TakenBefore directory files i (shortName name o) ∧ file = shortName name o)) := by
  have chosen := found
  rw [getElem?_fileNames] at chosen
  obtain ⟨o, own, -⟩ := Option.map_eq_some_iff.mp chosen
  refine ⟨o, own, ?_⟩
  rcases getElem?_fileNames_of_getElem? directory name own with ⟨taken, placed⟩ | ⟨free, placed⟩
  · exact .inl ⟨taken, Option.some.inj (found.symm.trans placed)⟩
  · exact .inr ⟨free, Option.some.inj (found.symm.trans placed)⟩

/-- The text at this place of the list cannot have its short name: a text before has the same one,
or has been displaced to it. -/
inductive Displaced (directory name : String) (outputs : List TargetOutput) : Nat → Prop
  | shared {i j : Nat} {o p : TargetOutput} (before : j < i) (own : outputs[i]? = some o)
      (other : outputs[j]? = some p)
      (same : place directory (shortName name o) = place directory (shortName name p)) :
      Displaced directory name outputs i
  | met {i j : Nat} {o p : TargetOutput} (before : j < i) (own : outputs[i]? = some o)
      (other : outputs[j]? = some p) (displaced : Displaced directory name outputs j)
      (same : place directory (shortName name o) = place directory (longName name p)) :
      Displaced directory name outputs i

/-- The files that have the short names of the texts before a place are taken there, by whichever
text it may be. So a text is displaced exactly if its own is. -/
theorem displaced_iff (own : outputs[i]? = some o) : Displaced directory name outputs i ↔
    TakenBefore directory (fileNames directory name [] outputs) i (shortName name o) := by
  induction i using Nat.strongRecOn generalizing o with
  | _ i ih =>
  constructor
  · intro displaced
    cases displaced with
    | @shared _ j o' p before own' other same =>
      cases own.symm.trans own'
      rcases getElem?_fileNames_of_getElem? directory name other with ⟨taken, -⟩ | ⟨-, placed⟩
      · exact taken.later before same
      · exact ⟨j, before, _, placed, same⟩
    | @met _ j o' p before own' other displaced same =>
      cases own.symm.trans own'
      rcases getElem?_fileNames_of_getElem? directory name other with ⟨-, placed⟩ | ⟨free, -⟩
      · exact ⟨j, before, _, placed, same⟩
      · exact absurd ((ih j before other).mp displaced) free
  · rintro ⟨j, before, file, found, same⟩
    obtain ⟨p, other, ⟨taken, rfl⟩ | ⟨-, rfl⟩⟩ := exists_of_getElem?_fileNames found
    · exact .met before own other ((ih j before other).mpr taken) same
    · exact .shared before own other same

/-- Every text has a name for its file: the long one if it is displaced, and else the short one. -/
structure Placed (directory name : String) (outputs : List TargetOutput) (files : List String) :
    Prop where
  length : files.length = outputs.length
  long {i : Nat} {o : TargetOutput} : outputs[i]? = some o →
    Displaced directory name outputs i → files[i]? = some (longName name o)
  short {i : Nat} {o : TargetOutput} : outputs[i]? = some o →
    ¬Displaced directory name outputs i → files[i]? = some (shortName name o)

theorem placed_fileNames (directory name : String) (outputs : List TargetOutput) :
    Placed directory name outputs (fileNames directory name [] outputs) where
  length := length_fileNames directory name [] outputs
  long own displaced := by
    rcases getElem?_fileNames_of_getElem? directory name own with ⟨-, placed⟩ | ⟨free, -⟩
    · exact placed
    · exact absurd ((displaced_iff own).mp displaced) free
  short own stays := by
    rcases getElem?_fileNames_of_getElem? directory name own with ⟨taken, -⟩ | ⟨-, placed⟩
    · exact absurd ((displaced_iff own).mpr taken) stays
    · exact placed

/-- The long name of a displaced text leads to no file that a text before it is named for, by its
short name or, if it is displaced as well, by its long one. -/
def Apart (directory name : String) (outputs : List TargetOutput) : Prop :=
  ∀ ⦃i j : Nat⦄ ⦃o p : TargetOutput⦄, j < i → outputs[i]? = some o → outputs[j]? = some p →
    Displaced directory name outputs i →
    place directory (longName name o) ≠ place directory (shortName name p) ∧
      (Displaced directory name outputs j →
        place directory (longName name o) ≠ place directory (longName name p))

theorem nodup_fileNames_iff (directory name : String) (outputs : List TargetOutput) :
    ((fileNames directory name [] outputs).map (place directory)).Nodup ↔
      Apart directory name outputs := by
  have placed := placed_fileNames directory name outputs
  rw [List.Nodup, List.pairwise_map, List.pairwise_iff_getElem]
  constructor
  · intro distinct i j o p before own other displaced
    have file := placed.long own displaced
    have free : ¬TakenBefore directory (fileNames directory name [] outputs) i
        (longName name o) := by
      rintro ⟨k, earlier, path, found, same⟩
      obtain ⟨inside, rfl⟩ := List.getElem?_eq_some_iff.mp found
      obtain ⟨own, placed⟩ := List.getElem?_eq_some_iff.mp file
      exact distinct k i inside own earlier (same.symm.trans (congrArg _ placed.symm))
    constructor
    · intro same
      rcases getElem?_fileNames_of_getElem? directory name other with ⟨taken, -⟩ | ⟨-, stays⟩
      · exact free (taken.later before same)
      · exact free ⟨j, before, _, stays, same⟩
    · intro moved same
      exact free ⟨j, before, _, placed.long other moved, same⟩
  · intro apart j i earlier inside before same
    have first := List.getElem?_eq_getElem earlier
    obtain ⟨p, other, file⟩ := exists_of_getElem?_fileNames first
    obtain ⟨o, own, ⟨taken, long⟩ | ⟨free, short⟩⟩ :=
      exists_of_getElem?_fileNames (List.getElem?_eq_getElem inside)
    · obtain ⟨notShort, notLong⟩ := apart before own other ((displaced_iff own).mpr taken)
      rw [long] at same
      rcases file with ⟨moved, file⟩ | ⟨-, file⟩
      · exact notLong ((displaced_iff other).mpr moved) (file ▸ same.symm)
      · exact notShort (file ▸ same.symm)
    · rw [short] at same
      exact free ⟨j, before, _, first, same.symm⟩

/-- Every text has a file in the directory, by its short name or by its long one, and these are
different files exactly if the long names keep apart from the names before them. -/
theorem outputPaths_nodup_iff (directory name : String) (outputs : List TargetOutput) :
    ∃ files, Placed directory name outputs files ∧
      outputPaths directory name [] outputs = files.map (Path.join directory) ∧
      (((outputPaths directory name [] outputs).map Path.names).Nodup ↔
        Apart directory name outputs) := by
  refine ⟨fileNames directory name [] outputs, placed_fileNames directory name outputs,
    outputPaths_eq directory name [] outputs, ?_⟩
  rw [outputPaths_eq, List.map_map]
  exact nodup_fileNames_iff directory name outputs

/-- The long name of the third text is the short name of the first. -/
theorem not_outputPaths_nodup :
    ¬∀ (directory name : String) (outputs : List TargetOutput),
      ((outputPaths directory name [] outputs).map Path.names).Nodup := by
  intro distinct
  have apart := distinct "out" "k" [
    { target := "a", extension := ".b.cpp", source := "", fingerprint := default },
    { target := "serial", extension := ".cpp", source := "", fingerprint := default },
    { target := "b", extension := ".cpp", source := "", fingerprint := default }]
  revert apart
  decide +kernel

end KernelTree.CommandLine
