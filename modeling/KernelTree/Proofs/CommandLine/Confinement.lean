import KernelTree.Proofs.CommandLine.Ledger
import KernelTree.Proofs.Files.Path
/-! Where the files of a run are. The names of targets keep them in the directory; the name of a
kernel and the extension of a dialect, which nothing checks, can lead elsewhere. -/
namespace KernelTree.CommandLine
open KernelTree.Path

variable {name directory : String} {outputs : List TargetOutput} {o : TargetOutput}

theorem not_mem_append {front back : String} :
    '/' ∉ (front ++ back).toList ↔ '/' ∉ front.toList ∧ '/' ∉ back.toList := by
  rw [String.toList_append, List.mem_append, not_or]

/-- No name of a target is empty or begins with a dot, so a long name is no pair of dots. -/
theorem isPlain_longName (valid : DialectOverride.isValidName o.target)
    (plain : IsPlain (shortName name o)) : IsPlain (longName name o) := by
  simp only [DialectOverride.isValidName, Bool.and_eq_true, Bool.not_eq_true', bne_iff_ne] at valid
  obtain ⟨⟨⟨⟨nonempty, free⟩, -⟩, -⟩, first⟩ := valid
  obtain ⟨kernel, ending⟩ := not_mem_append.mp plain.not_slash
  obtain ⟨c, rest, target⟩ := List.exists_cons_of_ne_nil (mt String.toList_eq_nil_iff.mp
    (mt String.isEmpty_iff.mpr (Bool.eq_false_iff.mp nonempty)))
  have long : (longName name o).toList =
      name.toList ++ '.' :: (o.target.toList ++ o.extension.toList) := by simp [longName]
  have more : 2 ≤ (longName name o).toList.length := by
    simp [long, target]
    omega
  refine ⟨?_, ?_, ?_, ?_⟩
  · simpa [long, kernel, ending] using free
  · intro same
    simp [same] at more
  · intro same
    simp [same] at more
  · intro same
    have two := congrArg String.toList same
    rw [long, target] at two
    rw [target] at first
    cases before : name.toList with
    | nil =>
      simp only [before, List.nil_append, List.cons_append] at two
      exact first (congrArg some (List.cons.inj (List.cons.inj two).2).1)
    | cons d others =>
      have sizes := congrArg List.length two
      simp [before] at sizes
      omega

/-- A name that leads elsewhere is not displaced by the plain names before it. -/
theorem isPlain_fileNames_iff (directory : String)
    (valid : ∀ o ∈ outputs, DialectOverride.isValidName o.target) :
    (∀ file ∈ fileNames directory name [] outputs, IsPlain file) ↔
      ∀ o ∈ outputs, IsPlain (shortName name o) := by
  constructor
  · intro plain o member
    obtain ⟨i, own⟩ := List.mem_iff_getElem?.mp member
    rcases getElem?_fileNames_of_getElem? directory name own with ⟨taken, long⟩ | ⟨-, short⟩
    -- The file of its short name is that of a text before, which is plain.
    · obtain ⟨j, -, other, found, same⟩ := taken
      have plainLong := plain _ (List.mem_of_getElem? long)
      have plainOther := plain other (List.mem_of_getElem? found)
      have free : '/' ∉ (shortName name o).toList := by
        have slashless := plainLong.not_slash
        simp only [longName, not_mem_append] at slashless
        exact not_mem_append.mpr ⟨slashless.1.1.1, slashless.2⟩
      rw [place, place, plainOther.names_join] at same
      exact eq_of_names_join free same ▸ plainOther
    · exact plain _ (List.mem_of_getElem? short)
  · intro plain file member
    obtain ⟨i, found⟩ := List.mem_iff_getElem?.mp member
    obtain ⟨o, own, ⟨-, rfl⟩ | ⟨-, rfl⟩⟩ := exists_of_getElem?_fileNames found
    · have member := List.mem_of_getElem? own
      exact isPlain_longName (valid o member) (plain o member)
    · exact plain o (List.mem_of_getElem? own)

theorem fileNames_take (directory name : String) (taken : List (List String))
    (outputs : List TargetOutput) (n : Nat) :
    fileNames directory name taken (outputs.take n) =
      (fileNames directory name taken outputs).take n := by
  induction outputs generalizing taken n with
  | nil => simp [fileNames]
  | cons o rest ih =>
    cases n with
    | zero => rfl
    | succ n => simp [fileNames, ih]

/-- The name that a kernel has of its file. -/
theorem not_mem_kernelName (path : String) : '/' ∉ (kernelName none path).toList := by
  rw [kernelName, Option.getD_none]
  cases stem : fileStem? path with
  | some name => exact not_mem_of_fileStem? stem
  | none => decide

/-- Whatever a run writes is named from the directory. All of these names are plain, and so lead to
entries of the directory, exactly if the name of the kernel with the extension is plain for every
dialect whose text is written. A kernel without a name of its own has one without slashes. -/
theorem written_afterEmit (l : Ledger) (r : EmitRequest) (directory : String) :
    (afterEmit l r directory).written = l.written ∨
      ∃ given t dialects c, ∃ n > 0, Emits l r directory given t dialects c ∧
        let name := kernelName given r.input
        let files := (fileNames directory name [] c.outputs).take n
        (afterEmit l r directory).written = l.written ++ files.map (join directory) ∧
          ((∀ file ∈ files, IsPlain file) ↔
            ∀ d ∈ dialects.take n, IsPlain (name ++ d.extension)) ∧
          (∀ file ∈ files, IsPlain file → names (join directory file) = names directory ++ [file]) ∧
          (given = none → '/' ∉ name.toList) := by
  rcases emits_or_afterEmit_eq l r directory with ⟨given, t, dialects, c, h⟩ | same
  · obtain ⟨n, some, run⟩ := h.afterEmit_eq
    refine .inr ⟨given, t, dialects, c, n, some, h, ?_, ?_, ?_, ?_⟩
    · rw [run, outputPaths_eq, ← List.map_take]
      rfl
    · rw [← fileNames_take, h.outputs_eq, ← List.map_take, isPlain_fileNames_iff,
        List.forall_mem_map]
      · rfl
      · simp only [List.forall_mem_map]
        exact fun d member => (h.known d (List.mem_of_mem_take member)).isValidName
    · exact fun file _ plain => plain.names_join
    · rintro rfl
      exact not_mem_kernelName r.input
  · exact .inl (congrArg Ledger.written same)

/-- A kernel whose name begins with two dots is written beside the directory. -/
theorem not_isPlain_of_written :
    ¬∀ (l : Ledger) (r : EmitRequest) (directory : String),
      ∀ path ∈ (afterEmit l r directory).written,
        path ∈ l.written ∨ ∃ file, IsPlain file ∧ path = join directory file := by
  intro confined
  let source := "\x7b\"name\": \"../k\", \"statements\": [\"break\"]\x7d"
  let l : Ledger :=
    { text := fun _ => .ok source, makes := fun _ => .ok (), takes := fun _ _ => .ok () }
  let r : EmitRequest := { input := "k.json", targets := ["serial"] }
  obtain ⟨⟨given, t⟩, loaded, seen⟩ := except_exists_of_any
    (p := fun (given, t) => given = some "../k" ∧
      ∀ finding ∈ t.validate Tree.root, finding.isError = false)
    (show (Description.load source).toOption.any _ by decide +kernel)
  simp only [decide_eq_true_eq] at seen
  obtain ⟨rfl, sound⟩ := seen
  obtain ⟨d, built, -⟩ := Description.exists_of_load loaded
  obtain ⟨c, compiled⟩ :=
    Tree.exists_compilation (Build.reachable_of_toTree built) sound [.serial] {}
  have h : Emits l r "out" (some "../k") t [.serial] c :=
    ⟨⟨source, rfl, loaded⟩, rfl, compiled, rfl⟩
  obtain ⟨n, some, run⟩ := h.afterEmit_eq
  have written : (afterEmit l r "out").written = ["out/../k.cpp"] := by
    obtain ⟨n, rfl⟩ := Nat.exists_eq_add_one.mpr some
    have chosen : outputPath "out" "../k" [] (t.outputFor {} .serial) = "out/../k.cpp" := by
      rw [outputPath, if_neg List.not_mem_nil]
      change join "out" ("../k" ++ ".cpp") = _
      decide +kernel
    rw [run, h.outputs_eq]
    change [outputPath "out" "../k" [] (t.outputFor {} .serial)].take (n + 1) = _
    rw [chosen, List.take_succ_cons, List.take_nil]
  rcases confined l r "out" "out/../k.cpp" (by simp [written]) with earlier | ⟨file, plain, same⟩
  · cases earlier
  · have places := congrArg names same
    have around : names "out/../k.cpp" = ["out", "..", "k.cpp"] := by decide +kernel
    have directory : names "out" = ["out"] := by decide +kernel
    rw [plain.names_join, around, directory] at places
    cases places

end KernelTree.CommandLine
