import KernelTree.Files.Path
/-! Names on paths. A plain name, joined to a directory, leads to an entry of that directory, and no
other name without a slash leads there. -/
namespace KernelTree.Path

variable {directory name entry path piece : String}

/-- A name that leads to an entry of a directory, and not elsewhere or to the directory itself. -/
structure IsPlain (name : String) : Prop where
  not_slash : '/' ∉ name.toList
  ne_empty : name ≠ ""
  ne_dot : name ≠ "."
  ne_dots : name ≠ ".."

theorem isPlain_iff : IsPlain name ↔ '/' ∉ name.toList ∧ name ∉ ["", ".", ".."] := by
  simp only [List.mem_cons, List.not_mem_nil, or_false, not_or]
  exact ⟨fun h => ⟨h.1, h.2, h.3, h.4⟩, fun h => ⟨h.1, h.2.1, h.2.2.1, h.2.2.2⟩⟩

instance : Decidable (IsPlain name) := decidable_of_iff _ isPlain_iff.symm

theorem pieces_of_not_mem (free : '/' ∉ name.toList) : pieces name = [name] := by
  rw [pieces, List.splitOn_eq_singleton free, List.map_singleton, String.ofList_toList]

theorem pieces_append (front back : String) :
    pieces (front ++ "/" ++ back) = pieces front ++ pieces back := by
  have cut : (front ++ "/" ++ back).toList = front.toList ++ '/' :: back.toList := by simp
  rw [pieces, cut, List.splitOn_append_cons_self, List.map_append, pieces, pieces]

theorem pieces_ne_nil (path : String) : pieces path ≠ [] := by
  rw [pieces, Ne, List.map_eq_nil_iff]
  exact List.splitOn_ne_nil '/' path.toList

/-- There is no slash between slashes. -/
theorem not_mem_of_mem_pieces (member : piece ∈ pieces path) : '/' ∉ piece.toList := by
  obtain ⟨chars, between, rfl⟩ := List.mem_map.mp member
  rw [String.toList_ofList]
  clear member
  generalize path.toList = text at between
  induction text generalizing chars with
  | nil =>
    rw [List.splitOn_nil, List.mem_singleton] at between
    simp [between]
  | cons c rest ih =>
    rw [List.splitOn_cons_eq_if_modifyHead] at between
    obtain ⟨first, others, cut⟩ := List.exists_cons_of_ne_nil (List.splitOn_ne_nil '/' rest)
    rw [cut] at between ih
    split at between
    next =>
      rcases List.mem_cons.mp between with rfl | later
      · exact List.not_mem_nil
      · exact ih chars later
    next differs =>
      rcases List.mem_cons.mp between with rfl | later
      · have free := ih first List.mem_cons_self
        rw [List.mem_cons, not_or]
        exact ⟨fun same => differs (by simp [← same]), free⟩
      · exact ih chars (.tail _ later)

theorem isAbsolute_of_not_mem (free : '/' ∉ name.toList) : isAbsolute name = false := by
  rw [isAbsolute, beq_eq_false_iff_ne]
  exact fun first => free (List.mem_of_head? first)

theorem isAbsolute_join (free : '/' ∉ name.toList) :
    isAbsolute (join directory name) = isAbsolute directory := by
  have relative := isAbsolute_of_not_mem free
  rw [join, if_neg (by simp [relative])]
  by_cases empty : directory = ""
  · subst empty
    simp only [true_or, if_true, String.empty_append, relative]
    rfl
  · obtain ⟨c, rest, whole⟩ := List.exists_cons_of_ne_nil (mt String.toList_eq_nil_iff.mp empty)
    split <;> simp [isAbsolute, whole]

/-- A name without slashes stands behind what the directory consists of. An empty last piece of the
directory, as behind a slash, makes room for it. -/
theorem exists_pieces_join (directory : String) (free : '/' ∉ name.toList) :
    ∃ front, (pieces directory = front ++ [""] ∨ pieces directory = front) ∧
      (front = [] → directory = "") ∧ pieces (join directory name) = front ++ [name] := by
  rw [join, if_neg (by simp [isAbsolute_of_not_mem free])]
  by_cases empty : directory = ""
  · subst empty
    exact ⟨[], .inl rfl, fun _ => rfl, by simp [pieces_of_not_mem free]⟩
  by_cases ended : directory.toList.getLast? = some '/'
  · obtain ⟨front, whole⟩ := List.getLast?_eq_some_iff.mp ended
    have cut : directory = String.ofList front ++ "/" ++ "" := by
      rw [← String.toList_inj]
      simp [whole]
    refine ⟨pieces (String.ofList front), .inl ?_, fun none => absurd none (pieces_ne_nil _), ?_⟩
    · rw [cut, pieces_append]
      rfl
    · rw [if_pos (.inr ended), ← pieces_of_not_mem free, ← pieces_append]
      congr 2
      simpa using cut
  · refine ⟨pieces directory, .inr rfl, fun none => absurd none (pieces_ne_nil _), ?_⟩
    rw [if_neg (by simp [empty, ended]), pieces_append, pieces_of_not_mem free]

/-- The names on a path, without a mark in front. -/
def found (path : String) : List String :=
  (pieces path).filter fun piece => piece ≠ "" ∧ piece ≠ "."

/-- The mark in front of the names on a path. -/
def mark (path : String) : List String :=
  if isAbsolute path then ["/"] else if (pieces path).head? = some "." then ["."] else []

theorem names_eq (path : String) : names path = mark path ++ found path := by
  unfold names mark found
  split
  · rfl
  · split <;> rfl

theorem found_join (free : '/' ∉ name.toList) :
    found (join directory name) = found directory ++ found name := by
  obtain ⟨front, around, -, whole⟩ := exists_pieces_join directory free
  have same : found directory = front.filter fun piece => piece ≠ "" ∧ piece ≠ "." := by
    rcases around with ended | plain
    · simp [found, ended]
    · rw [found, plain]
  rw [same, found, found, whole, pieces_of_not_mem free, List.filter_append]

theorem mark_join (free : '/' ∉ name.toList) (anchored : directory = "" → name ≠ ".") :
    mark (join directory name) = mark directory := by
  obtain ⟨front, around, empty, whole⟩ := exists_pieces_join directory free
  have head : (pieces (join directory name)).head? = some "." ↔
      (pieces directory).head? = some "." := by
    rcases front with _ | ⟨first, rest⟩
    · have other := anchored (empty rfl)
      rcases around with ended | none
      · simp [ended, whole, other]
      · exact absurd none (pieces_ne_nil directory)
    · rcases around with ended | plain <;> simp [*]
  rw [mark, mark, isAbsolute_join free]
  simp only [head]

/-- Behind the names of the directory stands the name of its entry. -/
theorem IsPlain.names_join (plain : IsPlain name) :
    names (join directory name) = names directory ++ [name] := by
  have alone : found name = [name] := by
    simp [found, pieces_of_not_mem plain.not_slash, plain.ne_empty, plain.ne_dot]
  rw [names_eq, names_eq, mark_join plain.not_slash fun _ => plain.ne_dot,
    found_join plain.not_slash, alone, List.append_assoc]

/-- No other name without a slash leads to an entry. -/
theorem eq_of_names_join (free : '/' ∉ name.toList)
    (same : names (join directory name) = names directory ++ [entry]) : name = entry := by
  by_cases here : directory = "" ∧ name = "."
  · obtain ⟨rfl, rfl⟩ := here
    have alone : names (join "" ".") = ["."] := rfl
    have none : names "" = [] := rfl
    rw [alone, none] at same
    simpa using same
  · have anchored := not_and.mp here
    rw [names_eq, names_eq, mark_join free anchored, found_join free, List.append_assoc,
      List.append_cancel_left_eq, List.append_cancel_left_eq] at same
    have alone : entry ∈ found name := same ▸ List.mem_cons_self
    have piece := (List.mem_filter.mp alone).1
    rw [pieces_of_not_mem free] at piece
    exact (List.mem_singleton.mp piece).symm

/-- A stem consists of the name or of its beginning. -/
theorem not_mem_stem (free : '/' ∉ name.toList) : '/' ∉ (stem name).toList := by
  unfold stem
  split
  next => exact free
  next before _ =>
    rw [String.toList_ofList, List.mem_reverse]
    intro slash
    have later := List.mem_of_mem_tail slash
    exact free (List.mem_reverse.mp ((List.dropWhile_sublist _).subset later))

theorem not_mem_of_fileStem? (stemmed : fileStem? path = some name) : '/' ∉ name.toList := by
  obtain ⟨last, ends, rfl⟩ := Option.map_eq_some_iff.mp stemmed
  obtain ⟨ends, own⟩ := Option.filter_eq_some_iff.mp ends
  have member := List.mem_of_getLast? ends
  rw [names_eq, List.mem_append] at member
  apply not_mem_stem
  rcases member with marked | piece
  · unfold mark at marked
    grind
  · exact not_mem_of_mem_pieces (List.mem_filter.mp piece).1

end KernelTree.Path
