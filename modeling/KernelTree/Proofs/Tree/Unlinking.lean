import KernelTree.Proofs.Tree.Relinking
/-! Declaring a name, taking a statement away from its owner and destroying a subtree keep a tree
linked. -/
namespace KernelTree.Tree

variable {t t' : Tree} {id x owner child : StmtId} {s rest : Stmt}

/-! Dropping and binding names. -/

theorem skeletons_mapScope {f : Scope → Scope} :
    ((t.updateStmt id (.mapScope f)).stmt? x).map (·.skeleton) = (t.stmt? x).map (·.skeleton) := by
  rw [stmt?_updateStmt]
  split <;> simp [Function.comp_def]

theorem skeletons_purged {gone containers : List StmtId} :
    ((t.purged gone containers).stmt? x).map (·.skeleton) = (t.stmt? x).map (·.skeleton) := by
  induction containers generalizing t with
  | nil => rfl
  | cons c rest ih => exact ih.trans skeletons_mapScope

theorem Linked.mapScope (h : t.Linked) {f : Scope → Scope} :
    (t.updateStmt id (.mapScope f)).Linked :=
  h.congr (fun _ => parent?_updateStmt) (fun _ => skeletons_mapScope) rfl
    (by simp [updateStmt])

/-! Taking a statement away from its owner. -/

theorem Linked.of_released (h : t.Linked) (owned : t.parent? id = some owner)
    (found : t.stmt? owner = some s) (released : s.Released id rest)
    (changed : t.Changed t' owner rest)
    (parents : ∀ x, t'.parent? x = if id = x then none else t.parent? x)
    (live : t'.live = t.live) (population : t'.population = t.population) : t'.Linked := by
  have kinds x := changed.kinds x found released.kind
  have ownedNow := owned_of_stmt? found
  have elifsNow := elifs_of_stmt? found
  have lastNow := last?_of_stmt? found
  have nodup : s.owned.Nodup := ownedNow ▸ h.nodup_owned owner
  constructor
  case mem_owned_iff =>
    intro p c
    rw [changed.owned, parents]
    by_cases atOwner : owner = p
    · subst atOwner
      rw [if_pos rfl, released.owned, nodup.mem_erase_iff, ← ownedNow, h.mem_owned_iff]
      by_cases same : id = c <;> simp [same, eq_comm]
    · rw [if_neg atOwner, h.mem_owned_iff]
      by_cases same : id = c
      · subst same
        simp [owned, atOwner]
      · simp [same]
  case nodup_owned =>
    intro p
    rw [changed.owned]
    split
    · rw [released.owned]
      exact nodup.erase id
    · exact h.nodup_owned p
  case grounded =>
    intro c inside
    obtain ⟨path, up⟩ := h.grounded (contains_of_kinds kinds ▸ inside)
    clear inside
    induction up with
    | top liveC free =>
      refine ⟨_, .top ((contains_of_kinds kinds).trans liveC) ?_⟩
      rw [parents, free]
      exact ite_self _
    | @up c p path owned' rest ih =>
      by_cases same : id = c
      · refine ⟨[c], .top ((contains_of_kinds kinds).trans (contains_of_parent? owned')) ?_⟩
        rw [parents, if_pos same]
      · obtain ⟨path, up⟩ := ih
        exact ⟨_, .up (by rw [parents, if_neg same, owned']) up⟩
  case elif_iff =>
    intro c p owned'
    rw [parents] at owned'
    split at owned'
    next => cases owned'
    next differs =>
      rw [kinds, changed.elifs, h.elif_iff owned']
      split
      next atOwner =>
        rw [released.elifs, List.mem_erase_of_ne (Ne.symm differs), ← elifsNow, atOwner]
      next => rfl
  case otherwise_iff =>
    intro c p owned'
    rw [parents] at owned'
    split at owned'
    next => cases owned'
    next differs =>
      rw [kinds, changed.last?, h.otherwise_iff owned']
      split
      next atOwner =>
        rw [released.last?, ← lastNow, atOwner, Option.filter_eq_some_iff]
        simp [Ne.symm differs]
      next => rfl
  case live_eq => rw [live, population, h.live_eq]

theorem parent?_withdrawn (live : t.contains id) :
    (t.withdrawn id owner rest).parent? x = if id = x then none else t.parent? x := by
  have there : (t.updateStmt owner fun _ => rest).contains id := contains_updateStmt.trans live
  rw [Tree.withdrawn, parent?_setParent (contains_purged.trans there), parent?_purged,
    parent?_updateStmt]

@[simp] theorem contains_withdrawn : (t.withdrawn id owner rest).contains x = t.contains x := by
  simp [Tree.withdrawn]

theorem skeletons_withdrawn : ((t.withdrawn id owner rest).stmt? x).map (·.skeleton) =
    ((t.updateStmt owner fun _ => rest).stmt? x).map (·.skeleton) := by
  rw [Tree.withdrawn, stmt?_setParent]
  exact skeletons_purged

theorem kind?_withdrawn (found : t.stmt? owner = some s) (kind : rest.kind = s.kind) :
    (t.withdrawn id owner rest).kind? x = t.kind? x := by
  rw [kind?_of_skeleton skeletons_withdrawn, kind?_eq, kind?_eq, stmt?_updateStmt]
  split
  next same => simp [← same, found, kind]
  next => rfl

/-- The names are dropped after the owner has let go, but the owner is not in the subtree, and what
is around it is the same as before. -/
theorem Linked.withdrawn_eq (h : t.Linked) (owned : t.parent? id = some owner) :
    t.withdrawn id owner rest =
      ((t.updateStmt owner fun _ => rest).purged (t.preorder id) (t.ancestors owner)).setParent id
        none := by
  have live := contains_of_parent? owned
  obtain ⟨path, up⟩ := h.grounded (h.contains_owner owned)
  have up' : (t.updateStmt owner fun _ => rest).Climbs owner path := up.updateStmt
  have walk := h.walk_preorder live
  have apart : ∀ x ∈ t.preorder id, owner ≠ x := by
    rintro x member rfl
    exact h.not_within_owned owned ((h.mem_preorder_iff live).mp member)
  have same : (t.updateStmt owner fun _ => rest).preorder id = t.preorder id := by
    refine preorder_of_walk (walk.congr fun x member => ⟨?_, ?_⟩) (h.nodup_preorder live)
    · simpa using walk.contains_of_mem member
    · rw [owned_eq, stmt?_updateStmt, if_neg (apart x member), ← owned_eq]
  rw [Tree.withdrawn, same, up'.ancestors_eq, up.ancestors_eq]

/-- What taking a statement away makes of the others: its owner is left without it, and the
containers around forget the names that its subtree declared. -/
theorem Linked.stmt?_withdrawn (h : t.Linked) (owned : t.parent? id = some owner)
    (found : t.stmt? owner = some s) :
    (t.withdrawn id owner rest).stmt? x =
      if x ∈ t.ancestors owner then
        (if owner = x then some rest else t.stmt? x).map
          (.mapScope (·.filter (!(t.preorder id).contains ·)))
      else t.stmt? x := by
  obtain ⟨path, up⟩ := h.grounded (contains_of_stmt? found)
  have nodup : (t.ancestors owner).Nodup := up.ancestors_eq ▸ up.nodup
  have changed : t.Changed (t.updateStmt owner fun _ => rest) owner rest := changed_updateStmt found
  rw [h.withdrawn_eq owned, stmt?_setParent, stmt?_purged nodup, changed x]
  split
  next => rfl
  next outside =>
    rw [if_neg]
    rintro rfl
    exact outside (up.ancestors_eq ▸ up.mem_iff.mpr (.refl ..))

theorem Linked.withdrawn (h : t.Linked) (owned : t.parent? id = some owner)
    (found : t.stmt? owner = some s) (taken : s.unlink id = (rest, true)) :
    (t.withdrawn id owner rest).Linked := by
  have nodup : s.owned.Nodup := owned_of_stmt? found ▸ h.nodup_owned owner
  have live : t.contains id := contains_of_parent? owned
  have parents x : ((t.updateStmt owner fun _ => rest).setParent id none).parent? x =
      if id = x then none else t.parent? x := by
    rw [parent?_setParent (contains_updateStmt.trans live), parent?_updateStmt]
  have parted : ((t.updateStmt owner fun _ => rest).setParent id none).Linked := by
    have released := Stmt.released_of_unlink nodup taken
    have changed : t.Changed ((t.updateStmt owner fun _ => rest).setParent id none) owner rest :=
      fun x => stmt?_setParent.trans (changed_updateStmt found x)
    exact h.of_released owned found released changed parents rfl (by simp [setParent, updateStmt])
  apply parted.congr
  · intro x
    rw [parent?_withdrawn live, parents]
  · intro x
    rw [skeletons_withdrawn, stmt?_setParent]
  · exact live_purged
  · simp [Tree.withdrawn, setParent, updateStmt]

/-! Destroying a subtree without an owner. -/

theorem Cleared.stmt? (h : t.Cleared gone t') :
    t'.stmt? x = if x ∈ gone then none else t.stmt? x := by
  rw [Tree.stmt?, h.get?]
  split <;> rfl

theorem Cleared.parent? (h : t.Cleared gone t') :
    t'.parent? x = if x ∈ gone then none else t.parent? x := by
  rw [Tree.parent?, h.get?]
  split <;> rfl

theorem Linked.cleared (h : t.Linked) (live : t.contains id) (free : t.parent? id = none)
    (cleared : t.Cleared (t.preorder id) t') (count : t'.live = t.live - (t.preorder id).length) :
    t'.Linked := by
  have inside {x} : x ∈ t.preorder id ↔ t.Within x id := h.mem_preorder_iff live
  have kept {x} (outside : x ∉ t.preorder id) : t'.stmt? x = t.stmt? x := by
    rw [cleared.stmt?, if_neg outside]
  -- A statement is destroyed exactly if its owner is.
  have together {c p} (owned : t.parent? c = some p) : c ∈ t.preorder id ↔ p ∈ t.preorder id := by
    rw [inside, inside]
    constructor
    · intro within
      rcases within.cases with rfl | ⟨p', owned', within⟩
      · simp [free] at owned
      · cases Option.some.inj (owned.symm.trans owned')
        exact within
    · exact .step owned
  have parents {c p} : t'.parent? c = some p ↔ t.parent? c = some p ∧ p ∉ t.preorder id := by
    rw [cleared.parent?]
    split
    next gone => simpa using fun owned => (together owned).mp gone
    next kept => exact ⟨fun owned => ⟨owned, mt (together owned).mpr kept⟩, And.left⟩
  constructor
  case mem_owned_iff =>
    intro p c
    rw [parents, ← h.mem_owned_iff, owned_eq, owned_eq, cleared.stmt?]
    split
    next gone => simp [gone]
    next kept => rw [and_iff_left kept]
  case nodup_owned =>
    intro p
    have := h.nodup_owned p
    rw [owned_eq] at this ⊢
    rw [cleared.stmt?]
    split
    · exact .nil
    · exact this
  case grounded =>
    intro c alive
    have outside : c ∉ t.preorder id := fun gone => by
      simp [contains_eq, cleared.stmt?, gone] at alive
    have alive : t.contains c := by rwa [contains_eq, kept outside, ← contains_eq] at alive
    obtain ⟨path, up⟩ := h.grounded alive
    refine ⟨path, up.congr ?_⟩
    intro x member
    have around : x ∉ t.preorder id := fun gone =>
      outside (inside.mpr ((up.mem_iff.mp member).trans (inside.mp gone)))
    exact ⟨by rw [contains_eq, kept around, ← contains_eq]; exact up.contains_of_mem member,
      by rw [cleared.parent?, if_neg around]⟩
  case elif_iff =>
    intro c p owned
    obtain ⟨owned, outside⟩ := parents.mp owned
    rw [kind?_eq, kept (mt (together owned).mp outside), ← kind?_eq, h.elif_iff owned, Tree.elifs,
      Tree.elifs, kept outside]
  case otherwise_iff =>
    intro c p owned
    obtain ⟨owned, outside⟩ := parents.mp owned
    rw [kind?_eq, kept (mt (together owned).mp outside), ← kind?_eq, h.otherwise_iff owned,
      Tree.last?, Tree.last?, kept outside]
  case live_eq =>
    have := cleared.population
    have := h.live_eq
    omega

/-- All that removing can do in a linked tree. -/
theorem Linked.remove_cases (h : t.Linked) (id : StmtId) :
    (∃ e, remove id t = .error e t) ∨
    ∃ t₁ t₂, Tree.detach id t = .ok () t₁ ∧ id ≠ root ∧ t₁.Linked ∧ t₁.contains id ∧
      t₁.parent? id = none ∧ t₁.Cleared (t₁.preorder id) t₂ ∧
      t₂.live = t₁.live - (t₁.preorder id).length ∧
      remove id t = .ok (t₁.preorder id).length t₂ := by
  have destroyed {t₁ : Tree} (run : Tree.detach id t = .ok () t₁) (linked : t₁.Linked)
      (live : t₁.contains id) :
      ∃ t₂, t₁.Cleared (t₁.preorder id) t₂ ∧ t₂.live = t₁.live - (t₁.preorder id).length ∧
        remove id t = .ok (t₁.preorder id).length t₂ := by
    have nodup := linked.nodup_preorder live
    have walk := linked.walk_preorder live
    obtain ⟨t₂, emptied, cleared, count⟩ := destroy_of_walk walk nodup
      (length_le_size nodup fun _ => walk.contains_of_mem)
    -- The count of live statements is taken down at the end, for all of the subtree at once.
    refine ⟨{ t₂ with live := t₂.live - (t₁.preorder id).length },
      ⟨cleared.get?, cleared.population, cleared.size⟩, by rw [← count], ?_⟩
    apply (TreeM.bind_ok run).trans
    exact congrArg (fun p : Nat × Tree => EStateM.Result.ok p.1 { p.2 with live := p.2.live - p.1 })
      emptied
  obtain ⟨e, run⟩ | ⟨notRoot, live, free, run⟩ |
      ⟨owner, s, rest, notRoot, owned, found, taken, run⟩ := h.detach_cases id
  · exact .inl ⟨e, TreeM.bind_error run⟩
  · obtain ⟨t₂, cleared, count, done⟩ := destroyed run h live
    exact .inr ⟨t, t₂, run, notRoot, h, live, free, cleared, count, done⟩
  · have linked := h.withdrawn owned found taken
    have live := contains_of_parent? owned
    have live' : (t.withdrawn id owner rest).contains id := contains_withdrawn.trans live
    obtain ⟨t₂, cleared, count, done⟩ := destroyed run linked live'
    have free : (t.withdrawn id owner rest).parent? id = none := by simp [parent?_withdrawn live]
    exact .inr ⟨_, t₂, run, notRoot, linked, live', free, cleared, count, done⟩

end KernelTree.Tree
