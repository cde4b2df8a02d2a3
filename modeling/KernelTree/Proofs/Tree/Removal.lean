import KernelTree.Proofs.Tree.Linked
import KernelTree.Proofs.Tree.Operations
/-! What declaring, detaching and removing do. In a linked tree everything around a statement is
live, so the names of a detached subtree are dropped without fail. -/
namespace KernelTree.Tree

variable {t : Tree} {id x owner child container decl : StmtId}

theorem checkDeclare_ok_iff : t.checkDeclare container name decl = .ok () ↔
    t.contains decl ∧ (∃ k, t.kind? container = some k ∧ k.isContainer) ∧
      t.isWithin decl container ∧ (t.scope? container).bind (·.get? name) = none := by
  rw [checkDeclare, except_seq_ok, except_discard_ok, except_seq_ok, checkContainer_ok_iff]
  simp only [require_ok_iff, contains, Option.isSome_iff_exists]
  refine and_congr Iff.rfl (and_congr Iff.rfl ?_)
  by_cases inside : t.isWithin decl container
  · simp only [inside, if_true, true_and]
    cases (t.scope? container).bind (·.get? name) <;> simp [except_pure_ok]
  · simp only [inside, Bool.false_eq_true, if_false, false_and, iff_false, except_throw_bind]
    rintro ⟨⟩

theorem declare_run : declare container name decl t =
    match t.checkDeclare container name decl with
    | .ok _ => .ok () (t.updateStmt container (.mapScope (·.insertIfNew name decl)))
    | .error e => .error e t := by
  cases checked : t.checkDeclare container name decl with
  | error e => exact TreeM.bind_error (TreeM.check_error checked)
  | ok =>
    obtain ⟨-, ⟨k, kind, -⟩, -⟩ := checkDeclare_ok_iff.mp checked
    rw [declare, TreeM.bind_ok (TreeM.check_ok checked)]
    exact TreeM.updateStmt_ok (contains_of_kind? kind)

/-- The tree in which the listed containers have forgotten the names declared by `gone`. -/
def purged (t : Tree) (gone containers : List StmtId) : Tree :=
  containers.foldl (fun t c => t.updateStmt c (.mapScope (·.filter (!gone.contains ·)))) t

theorem purge_run {gone containers : List StmtId} (live : ∀ c ∈ containers, t.contains c) :
    purge gone containers t = .ok () (t.purged gone containers) := by
  induction containers generalizing t with
  | nil => rfl
  | cons c rest ih =>
    have later : ∀ x ∈ rest,
        (t.updateStmt c (.mapScope (·.filter (!gone.contains ·)))).contains x := by
      intro x member
      simpa using live x (.tail _ member)
    simp only [purge, List.forM_eq_forM, List.forM_cons] at ih ⊢
    rw [TreeM.bind_ok (TreeM.updateStmt_ok (live c List.mem_cons_self))]
    exact ih later

theorem parent?_purged {gone containers : List StmtId} :
    (t.purged gone containers).parent? x = t.parent? x := by
  induction containers generalizing t with
  | nil => rfl
  | cons c rest ih => exact ih.trans parent?_updateStmt

@[simp] theorem contains_purged {gone containers : List StmtId} :
    (t.purged gone containers).contains x = t.contains x := by
  induction containers generalizing t with
  | nil => rfl
  | cons c rest ih => exact ih.trans contains_updateStmt

theorem stmt?_purged {gone containers : List StmtId} (nodup : containers.Nodup) :
    (t.purged gone containers).stmt? x =
      if x ∈ containers then (t.stmt? x).map (.mapScope (·.filter (!gone.contains ·)))
      else t.stmt? x := by
  induction containers generalizing t with
  | nil => rfl
  | cons c rest ih =>
    obtain ⟨fresh, nodup⟩ := List.nodup_cons.mp nodup
    apply (ih nodup).trans
    simp only [stmt?_updateStmt, List.mem_cons]
    by_cases same : x = c
    · subst same
      simp [fresh]
    · simp [same, Ne.symm same]

@[simp] theorem population_purged {gone containers : List StmtId} :
    (t.purged gone containers).population = t.population := by
  induction containers generalizing t with
  | nil => rfl
  | cons c rest ih => exact ih.trans (population_update ..)

@[simp] theorem live_purged {gone containers : List StmtId} :
    (t.purged gone containers).live = t.live := by
  induction containers generalizing t with
  | nil => rfl
  | cons c rest ih => exact ih

@[simp] theorem slots_size_purged {gone containers : List StmtId} :
    (t.purged gone containers).slots.size = t.slots.size := by
  induction containers generalizing t with
  | nil => rfl
  | cons c rest ih => exact ih.trans (slots_size_update ..)

/-- The tree in which a statement was taken away from its owner, of whose statement `rest` is
left. -/
def withdrawn (t : Tree) (id owner : StmtId) (rest : Stmt) : Tree :=
  let left := t.updateStmt owner fun _ => rest
  (left.purged (left.preorder id) (left.ancestors owner)).setParent id none

theorem detach_of_free {node : Node} (notRoot : id ≠ root) (found : t.get? id = some node)
    (free : node.parent = none) : detach id t = .ok () t := by
  rw [detach, if_neg notRoot]
  apply (TreeM.bind_ok (TreeM.check_ok (require_ok_iff.mpr found))).trans
  rw [free]
  rfl

/-- The owner lets go before it is known whether it could. Where it could not, it has not changed.
What is around the owner has to be live, since the names are dropped there one by one. -/
theorem detach_of_owned {node ownerNode : Node} (notRoot : id ≠ root)
    (found : t.get? id = some node) (owned : node.parent = some owner)
    (ownerFound : t.get? owner = some ownerNode) (up : t.Climbs owner path) :
    detach id t =
      match ownerNode.stmt.unlink id with
      | (rest, true) => .ok () (t.withdrawn id owner rest)
      | (_, false) => .error (.requiredSlot id owner) t := by
  rw [detach, if_neg notRoot]
  apply (TreeM.bind_ok (TreeM.check_ok (require_ok_iff.mpr found))).trans
  rw [owned]
  apply (TreeM.bind_ok (TreeM.check_ok (require_ok_iff.mpr ownerFound))).trans
  rcases taken : ownerNode.stmt.unlink id with ⟨rest, _ | _⟩
  · have unchanged := Stmt.unlink_eq_self (congrArg Prod.snd taken)
    rw [taken] at unchanged
    apply (TreeM.bind_ok (TreeM.updateStmt_ok up.contains)).trans
    rw [updateStmt_eq_self ownerFound unchanged]
    rfl
  · have up' : (t.updateStmt owner fun _ => rest).Climbs owner path := up.updateStmt
    have live : (t.updateStmt owner fun _ => rest).contains id := by
      rw [contains_updateStmt, contains, found]
      rfl
    have around : ∀ c ∈ (t.updateStmt owner fun _ => rest).ancestors owner,
        (t.updateStmt owner fun _ => rest).contains c := by
      intro c member
      exact up'.contains_of_mem (up'.ancestors_eq ▸ member)
    apply (TreeM.bind_ok (TreeM.updateStmt_ok up.contains)).trans
    apply (TreeM.bind_ok (purge_run around)).trans
    exact TreeM.setParent_ok (contains_purged.trans live)

/-- All that detaching can do in a linked tree. -/
theorem Linked.detach_cases (h : t.Linked) (id : StmtId) :
    (∃ e, detach id t = .error e t) ∨
    (id ≠ root ∧ t.contains id ∧ t.parent? id = none ∧ detach id t = .ok () t) ∨
    ∃ owner s rest, id ≠ root ∧ t.parent? id = some owner ∧ t.stmt? owner = some s ∧
      s.unlink id = (rest, true) ∧ detach id t = .ok () (t.withdrawn id owner rest) := by
  by_cases isRoot : id = root
  · exact .inl ⟨.root id, by rw [detach, if_pos isRoot]; rfl⟩
  cases found : t.get? id with
  | none =>
    have refused : t.require id = .error (.unknownStatement id) := by simp [require, found]
    refine .inl ⟨.unknownStatement id, ?_⟩
    rw [detach, if_neg isRoot]
    exact TreeM.bind_error (TreeM.check_error refused)
  | some node =>
    have parent := parent?_of_get? found
    cases owned : node.parent with
    | none =>
      exact .inr (.inl ⟨isRoot, by simp [contains, found], parent.trans owned,
        detach_of_free isRoot found owned⟩)
    | some owner =>
      have ownerLive := h.contains_owner (parent.trans owned)
      obtain ⟨ownerNode, ownerFound⟩ := Option.isSome_iff_exists.mp ownerLive
      obtain ⟨path, up⟩ := h.grounded ownerLive
      have done := detach_of_owned isRoot found owned ownerFound up
      rcases taken : ownerNode.stmt.unlink id with ⟨rest, _ | _⟩
      · exact .inl ⟨_, by rw [done, taken]⟩
      · exact .inr (.inr ⟨owner, _, rest, isRoot, parent.trans owned, stmt?_of_get? ownerFound,
          taken, by rw [done, taken]⟩)

/-! Destroying. -/

/-- The tree in which a slot was emptied. -/
def vacate (t : Tree) (id : StmtId) : Tree :=
  { t with slots := t.slots.setIfInBounds id.index none }

theorem get?_vacate : (t.vacate id).get? x = if x = id then none else t.get? x := by
  simp only [get?, vacate, Array.getElem?_setIfInBounds, StmtId.ext_iff]
  by_cases same : id.index = x.index
  · rw [if_pos same, if_pos same.symm]
    split <;> rfl
  · rw [if_neg same, if_neg (Ne.symm same)]

@[simp] theorem slots_size_vacate : (t.vacate id).slots.size = t.slots.size := by
  simp [vacate]

theorem population_vacate (live : t.contains id) :
    (t.vacate id).population + 1 = t.population := by
  have bound := index_lt live
  have filled : (t.slots[id.index]).isSome := by
    simpa [contains, get?, Array.getElem?_eq_getElem bound] using live
  have counted := Array.boole_getElem_le_countP (p := Option.isSome) (h := bound)
  rw [if_pos filled] at counted
  have emptied : (t.vacate id).population = t.population - 1 := by
    simp [population, vacate, Array.setIfInBounds, bound, Array.countP_set, filled]
  rw [emptied]
  exact Nat.sub_add_cancel counted

/-- What is left of a tree in which exactly the listed statements were destroyed. -/
structure Cleared (t : Tree) (gone : List StmtId) (t' : Tree) : Prop where
  get? : ∀ x, t'.get? x = if x ∈ gone then none else t.get? x
  population : t'.population + gone.length = t.population
  size : t'.slots.size = t.slots.size

/-- Destroying along a walk empties exactly the slots of the statements on it. -/
theorem destroy_of_walk (walk : t.Walk pending order) (nodup : order.Nodup)
    (enough : order.length ≤ steps) :
    ∃ t', destroy steps pending t = (order.length, t') ∧ t.Cleared order t' ∧
      t'.live = t.live := by
  induction order generalizing t pending steps with
  | nil =>
    cases walk
    refine ⟨t, ?_, ⟨by simp, by simp, rfl⟩, rfl⟩
    cases steps <;> rfl
  | cons id order ih =>
    cases walk with
    | @visit _ pending _ live rest =>
      obtain ⟨steps, rfl⟩ := Nat.exists_eq_add_of_le' enough
      obtain ⟨fresh, nodup⟩ := List.nodup_cons.mp nodup
      obtain ⟨node, found⟩ := Option.isSome_iff_exists.mp live
      have owned : node.stmt.owned = t.owned id := (owned_of_stmt? (stmt?_of_get? found)).symm
      have kept : (t.vacate id).Walk (t.owned id ++ pending) order := by
        apply rest.congr
        intro x member
        have same : (t.vacate id).get? x = t.get? x := by
          rw [get?_vacate, if_neg (ne_of_mem_of_not_mem member fresh)]
        have live := rest.contains_of_mem member
        exact ⟨by simpa [contains, same] using live, by simp [Tree.owned, same]⟩
      obtain ⟨t', run, cleared, same⟩ := ih kept nodup (Nat.le_add_left _ steps)
      refine ⟨t', ?_, ⟨?_, ?_, cleared.size.trans slots_size_vacate⟩, same⟩
      · simp only [List.length_cons, ← Nat.add_assoc, destroy, found, owned]
        rw [← vacate, run]
      · intro x
        rw [cleared.get?, get?_vacate]
        by_cases same : x = id <;> simp [same]
      · have := cleared.population
        have := population_vacate live
        simp only [List.length_cons]
        omega

end KernelTree.Tree
