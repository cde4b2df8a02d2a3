import KernelTree.Proofs.Tree.Unlinking
/-! What a change makes of each statement, with its owner and its place. Statements that take no
part in a change stay as they are. -/
namespace KernelTree.Tree

variable {t : Tree} {id x owner child : StmtId} {s rest : Stmt} {span : Span}
  {ids gone : List StmtId}

theorem get?_give {f : Stmt → Stmt} (apart : child ≠ owner) : (t.give owner child f).get? x =
    if child = x then (t.get? x).map fun node => { node with parent := some owner }
    else if owner = x then (t.get? x).map fun node => { node with stmt := f node.stmt }
    else t.get? x := by
  rw [give, setParent, get?_update, updateStmt, get?_update]
  by_cases here : child = x
  · rw [if_pos here, if_pos here, if_neg (here ▸ Ne.symm apart)]
  · rw [if_neg here, if_neg here]

theorem get?_adopted : (t.adopted owner ids).get? x =
    if x ∈ ids then (t.get? x).map fun node => { node with parent := some owner }
    else t.get? x := by
  induction ids generalizing t with
  | nil => rfl
  | cons id rest ih =>
    apply (ih (t := t.setParent id (some owner))).trans
    rw [setParent, get?_update]
    by_cases same : id = x
    · cases t.get? x <;> simp [same]
    · simp [same, Ne.symm same]

theorem get?_extended : (t.extended s span).get? x =
    if x = t.nextId then some { span, stmt := s }
    else if x ∈ s.owned then (t.get? x).map fun node => { node with parent := some t.nextId }
    else t.get? x := by
  rw [extended, get?_grow, nextId_adopted, get?_adopted]

@[simp] theorem slots_size_extended : (t.extended s span).slots.size = t.slots.size + 1 := by
  have same : (t.adopted t.nextId s.owned).slots.size = t.slots.size :=
    congrArg StmtId.index nextId_adopted
  simp [extended, grow, same]

@[simp] theorem slots_size_give {f : Stmt → Stmt} :
    (t.give owner child f).slots.size = t.slots.size := by
  simp [give, setParent, updateStmt]

theorem get?_purged (outside : x ∉ ids) : (t.purged gone ids).get? x = t.get? x := by
  induction ids generalizing t with
  | nil => rfl
  | cons c rest ih =>
    obtain ⟨differs, outside⟩ := not_or.mp (mt List.mem_cons.mpr outside)
    apply (ih (t := t.updateStmt c _) outside).trans
    rw [updateStmt, get?_update, if_neg (Ne.symm differs)]

theorem get?_purged_of_mem (nodup : ids.Nodup) (inside : x ∈ ids) :
    (t.purged gone ids).get? x = (t.get? x).map fun node =>
      { node with stmt := node.stmt.mapScope (·.filter (!gone.contains ·)) } := by
  induction ids generalizing t with
  | nil => cases inside
  | cons c rest ih =>
    obtain ⟨fresh, nodup⟩ := List.nodup_cons.mp nodup
    by_cases same : x = c
    · subst same
      apply (get?_purged (t := t.updateStmt x _) fresh).trans
      rw [updateStmt, get?_update, if_pos rfl]
    · have later := (List.mem_cons.mp inside).resolve_left same
      apply (ih (t := t.updateStmt c _) nodup later).trans
      rw [updateStmt, get?_update, if_neg (Ne.symm same)]

/-- Only the statement taken away, its owner and what is around them change. -/
theorem get?_withdrawn (up : t.Climbs owner path) (apart : x ≠ id) (outside : x ∉ path) :
    (t.withdrawn id owner rest).get? x = t.get? x := by
  have up' : (t.updateStmt owner fun _ => rest).Climbs owner path := up.updateStmt
  have differs : owner ≠ x := by
    rintro rfl
    exact outside (up.mem_iff.mpr (.refl ..))
  rw [withdrawn, up'.ancestors_eq, setParent, get?_update, if_neg (Ne.symm apart),
    get?_purged outside, updateStmt, get?_update, if_neg differs]

end KernelTree.Tree
