import KernelTree.Files.Disk
import KernelTree.Proofs.Except
/-! What is written on a disk. A text is read back from the path under which it was written. Nothing
else is changed, and since a file never takes the place of a directory, all paths lead to where they
led before. -/
namespace KernelTree.Disk

variable {d d' : Disk} {path other text : String} {place base goal x : List String}
  {entry : DiskEntry}

theorem lookup_filter_of_ne {entries : List (List String × DiskEntry)} (differs : x ≠ place) :
    (entries.filter (·.1 ≠ place)).lookup x = entries.lookup x := by
  induction entries with
  | nil => rfl
  | cons e rest ih =>
    obtain ⟨spot, stands⟩ := e
    by_cases gone : spot = place
    · have apart : (x == spot) = false := beq_false_of_ne (gone ▸ differs)
      rw [List.filter_cons_of_neg (by simp [gone]), ih, List.lookup_cons, apart]
    · rw [List.filter_cons_of_pos (by simp [gone]), List.lookup_cons, List.lookup_cons, ih]

theorem entry_put (below : place ≠ []) (x : List String) :
    Disk.entry? (d.put place entry) x = if x = place then some entry else d.entry? x := by
  unfold entry?
  by_cases top : x = []
  · rw [if_pos top, if_neg (top ▸ Ne.symm below), if_pos top]
  · rw [if_neg top, if_neg top, put, List.lookup_cons]
    by_cases here : x = place
    · simp [here]
    · rw [beq_false_of_ne here, if_neg here]
      exact lookup_filter_of_ne here

theorem checkDirectory_ok_iff :
    d.checkDirectory place = .ok () ↔ d.entry? place = some .directory := by
  unfold checkDirectory
  split <;> simp [*]

theorem follow_append (front : List String) (name : String) :
    d.follow base (front ++ [name]) = (do d.follow (← d.follow base front) [name]) := by
  induction front generalizing base with
  | nil => rfl
  | cons piece rest ih =>
    simp only [List.cons_append, follow, ih]
    cases d.checkDirectory base with
    | error => rfl
    | ok =>
      split
      · rfl
      · split
        · rfl
        · cases checkName piece <;> rfl

/-- The paths lead to the same places as long as the same places are directories. -/
theorem follow_ok_iff_of_directories (same : ∀ x, d'.entry? x = some .directory ↔
    d.entry? x = some .directory) {pieces : List String} :
    d'.follow base pieces = .ok goal ↔ d.follow base pieces = .ok goal := by
  induction pieces generalizing base with
  | nil => rw [follow, follow]
  | cons piece rest ih =>
    simp only [follow, except_seq_ok, checkDirectory_ok_iff, same]
    apply and_congr_right'
    split
    · exact ih
    · split
      · exact ih
      · simp only [except_seq_ok, ih]

theorem locate_ok_iff_of_directories (home : d'.home = d.home)
    (same : ∀ x, d'.entry? x = some .directory ↔ d.entry? x = some .directory) :
    d'.locate path = .ok goal ↔ d.locate path = .ok goal := by
  have start : d'.start path = d.start path := by rw [start, start, home]
  simp only [locate, except_seq_ok, start, follow_ok_iff_of_directories same]

/-- What is found around the last name of a path. -/
theorem exists_of_locateAround {around : List String} {name : String} {ended : Bool}
    (found : d.locateAround path = .ok (around, name, ended)) :
    let backward := (Path.pieces path).reverse
    let rest := backward.dropWhile (· = "")
    checkPath path = .ok () ∧ d.follow (d.start path) rest.tail.reverse = .ok around ∧
      d.checkDirectory around = .ok () ∧ rest.head?.getD "" = name ∧
      (name ≠ ".." ∧ name ≠ "." → checkName name = .ok ()) ∧
      (backward.takeWhile (· = "")).isEmpty = !ended := by
  intro backward rest
  obtain ⟨checked, found⟩ := except_seq_ok.mp found
  obtain ⟨base, led, found⟩ := except_bind_ok.mp found
  obtain ⟨directory, found⟩ := except_seq_ok.mp found
  simp only at found
  split at found
  next proper =>
    obtain ⟨short, found⟩ := except_seq_ok.mp found
    obtain ⟨rfl, rfl, unended⟩ := by simpa using except_pure_ok.mp found
    exact ⟨checked, led, directory, rfl, fun _ => short, unended⟩
  next improper =>
    obtain ⟨rfl, rfl, unended⟩ := by simpa using except_pure_ok.mp found
    exact ⟨checked, led, directory, rfl, fun proper => absurd proper improper, unended⟩

/-- A proper name at the end of a path is looked up in the directory around it. -/
theorem locate_of_locateAround {around : List String} {name : String}
    (found : d.locateAround path = .ok (around, name, false))
    (proper : ¬ (name = "" ∨ name = "." ∨ name = "..")) :
    d.locate path = .ok (around ++ [name]) := by
  simp only [not_or] at proper
  obtain ⟨filled, dot, dots⟩ := proper
  obtain ⟨checked, led, directory, last, short, unended⟩ := exists_of_locateAround found
  -- Nothing stands behind the name, so what is cut off for it is all of the end.
  have whole : (Path.pieces path).reverse.dropWhile (· = "") = (Path.pieces path).reverse := by
    rw [Bool.not_false, List.isEmpty_iff] at unended
    have split := List.takeWhile_append_dropWhile (p := (· = "")) (l := (Path.pieces path).reverse)
    rwa [unended, List.nil_append] at split
  rw [whole] at led last
  have cut : Path.pieces path = (Path.pieces path).reverse.tail.reverse ++ [name] := by
    cases backward : (Path.pieces path).reverse with
    | nil => exact absurd (by simpa [backward] using last.symm) filled
    | cons piece rest =>
      rw [backward, List.head?_cons, Option.getD_some] at last
      rw [List.tail_cons, ← last, ← List.reverse_cons, ← backward, List.reverse_reverse]
  rw [locate, checked, cut, follow_append, led]
  simp [bind, Except.bind, follow, directory, filled, dot, dots, short ⟨dots, dot⟩]

/-- A text goes to the place to which its path leads, unless a directory stands there. -/
theorem put_of_write (done : d.write path text = .ok d') :
    ∃ place, d.locate path = .ok place ∧ place ≠ [] ∧ d.entry? place ≠ some .directory ∧
      d' = d.put place (.file text) := by
  obtain ⟨⟨around, name, ended⟩, found, done⟩ := except_bind_ok.mp done
  simp only at done
  split at done
  next => cases done
  next proper =>
  split at done
  next => cases done
  next other =>
  obtain ⟨unended, proper⟩ := not_or.mp proper
  rw [Bool.not_eq_true] at unended
  exact ⟨around ++ [name], locate_of_locateAround (unended ▸ found) proper, by simp, other,
    (except_pure_ok.mp done).symm⟩

/-- A written text stands at its place. All other places are as they were, and the paths lead to
where they led. -/
theorem entry_of_write (done : d.write path text = .ok d') :
    ∃ place, d.locate path = .ok place ∧
      (∀ x, d'.entry? x = if x = place then some (.file text) else d.entry? x) ∧
      ∀ other goal, d'.locate other = .ok goal ↔ d.locate other = .ok goal := by
  obtain ⟨place, led, below, other, rfl⟩ := put_of_write done
  refine ⟨place, led, entry_put below, fun _ _ => locate_ok_iff_of_directories rfl fun x => ?_⟩
  rw [entry_put below]
  split
  next here => simp [here, other]
  next => rfl

theorem read_of_entry (led : d.locate path = .ok place)
    (stands : d.entry? place = some (.file text)) : d.read path = .ok text := by
  rw [read, led]
  simp [bind, Except.bind, stands, pure, Except.pure]

/-- What is written is read back. -/
theorem read_of_write (done : d.write path text = .ok d') : d'.read path = .ok text := by
  obtain ⟨place, led, stands, still⟩ := entry_of_write done
  exact read_of_entry ((still _ _).mpr led) (by rw [stands, if_pos rfl])

/-- Making a directory puts it where nothing stood. -/
theorem put_of_createDirectory (done : d.createDirectory path = .ok d') :
    ∃ place ≠ [], d.entry? place = none ∧ d' = d.put place .directory := by
  obtain ⟨⟨around, name, ended⟩, -, done⟩ := except_bind_ok.mp done
  simp only at done
  split at done
  next => cases done
  next =>
  split at done
  next => cases done
  next free =>
  exact ⟨around ++ [name], by simp, by simpa using free, (except_pure_ok.mp done).symm⟩

/-- Whatever stands on the one disk stands on the other. -/
def Within (d d' : Disk) : Prop := ∀ x entry, d.entry? x = some entry → d'.entry? x = some entry

theorem Within.trans {d'' : Disk} (first : d.Within d') (later : d'.Within d'') : d.Within d'' :=
  fun x entry stands => later x entry (first x entry stands)

theorem within_of_createDirectory (done : d.createDirectory path = .ok d') : d.Within d' := by
  obtain ⟨place, below, free, rfl⟩ := put_of_createDirectory done
  intro x entry stands
  rw [entry_put below, if_neg, stands]
  rintro rfl
  simp [free] at stands

theorem within_of_createBehind {before : Disk → Except FileError Disk}
    (earlier : ∀ d d', before d = .ok d' → d.Within d')
    (done : createBehind path before d = .ok d') : d.Within d' := by
  unfold createBehind at done
  split at done
  next made =>
    cases done
    exact within_of_createDirectory made
  next =>
    obtain ⟨d₁, first, done⟩ := except_bind_ok.mp done
    split at done
    next made =>
      cases done
      exact (earlier _ _ first).trans (within_of_createDirectory made)
    next =>
      split at done <;> cases done
      exact earlier _ _ first
  next =>
    split at done <;> cases done
    exact fun _ _ => id

theorem within_of_createAlong {names : List String} (done : createAlong names d = .ok d') :
    d.Within d' := by
  induction names generalizing d d' with
  | nil =>
    cases done
    exact fun _ _ => id
  | cons name rest ih => exact within_of_createBehind (fun _ _ => ih) done

/-- Making directories leaves all that stands on the disk. -/
theorem within_of_createDirectories (done : d.createDirectories path = .ok d') : d.Within d' := by
  unfold createDirectories at done
  split at done
  next =>
    cases done
    exact fun _ _ => id
  next => exact within_of_createBehind (fun _ _ => within_of_createAlong) done

end KernelTree.Disk
