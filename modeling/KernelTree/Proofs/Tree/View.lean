import KernelTree.Proofs.Statement.Ownership
/-! A tree as its readers see it: which statement stands under a number and who owns it. Each
elementary change is described by these two views. -/
namespace KernelTree
namespace Tree

variable {t t' : Tree} {id x : StmtId}

/-- The live statement of that number, without its owner and place. -/
def stmt? (t : Tree) (id : StmtId) : Option Stmt := (t.get? id).map (·.stmt)

/-- The further conditions of a conditional. -/
def elifs (t : Tree) (id : StmtId) : List StmtId := ((t.stmt? id).map (·.elifs)).getD []

/-- The last entry of a conditional. -/
def last? (t : Tree) (id : StmtId) : Option StmtId := (t.stmt? id).bind (·.last?)

/-- The number of filled slots. -/
def population (t : Tree) : Nat := t.slots.countP (·.isSome)

theorem contains_eq : t.contains id = (t.stmt? id).isSome := by
  simp [contains, stmt?]

theorem kind?_eq : t.kind? id = (t.stmt? id).map (·.kind) := by
  simp [kind?, stmt?, Function.comp_def]

theorem owned_eq : t.owned id = ((t.stmt? id).map (·.owned)).getD [] := by
  simp [owned, stmt?, Function.comp_def]

theorem scope?_eq : t.scope? id = (t.stmt? id).bind (·.scope?) := by
  simp only [scope?, stmt?]
  cases t.get? id <;> rfl

theorem stmt?_of_get? (h : t.get? id = some node) : t.stmt? id = some node.stmt := by
  simp [stmt?, h]

theorem parent?_of_get? (h : t.get? id = some node) : t.parent? id = node.parent := by
  simp [parent?, h]

theorem exists_stmt (h : t.contains id) : ∃ s, t.stmt? id = some s :=
  Option.isSome_iff_exists.mp (contains_eq ▸ h)

theorem contains_of_stmt? (h : t.stmt? id = some s) : t.contains id := by
  simp [contains_eq, h]

theorem contains_of_parent? (h : t.parent? id = some owner) : t.contains id := by
  unfold parent? at h
  obtain ⟨node, found, -⟩ := Option.bind_eq_some_iff.mp h
  simp [contains, found]

theorem contains_of_kind? (h : t.kind? id = some k) : t.contains id := by
  rw [kind?_eq] at h
  obtain ⟨s, found, -⟩ := Option.map_eq_some_iff.mp h
  exact contains_of_stmt? found

theorem kind?_eq_none_iff : t.kind? id = none ↔ t.contains id = false := by
  simp [kind?, contains]

theorem contains_of_mem_owned (h : x ∈ t.owned id) : t.contains id := by
  rw [owned_eq] at h
  cases found : t.stmt? id with
  | none => simp [found] at h
  | some s => exact contains_of_stmt? found

theorem owned_of_stmt? (h : t.stmt? id = some s) : t.owned id = s.owned := by
  simp [owned_eq, h]

theorem kind?_of_stmt? (h : t.stmt? id = some s) : t.kind? id = some s.kind := by
  simp [kind?_eq, h]

theorem kind_of_stmt? (h : t.stmt? id = some s) (kind : t.kind? id = some k) : s.kind = k :=
  Option.some.inj ((kind?_of_stmt? h).symm.trans kind)

theorem children_of_stmt? (h : t.stmt? id = some s) : t.children id = s.children := by
  obtain ⟨node, there, same⟩ := Option.map_eq_some_iff.mp h
  rw [children, there, Option.map_some, Option.getD_some, same]

theorem elifs_of_stmt? (h : t.stmt? id = some s) : t.elifs id = s.elifs := by
  simp [elifs, h]

theorem last?_of_stmt? (h : t.stmt? id = some s) : t.last? id = s.last? := by
  simp [last?, h]

theorem mem_owned_of_child (h : t.stmt? id = some s) (child : x ∈ s.children) : x ∈ t.owned id :=
  owned_of_stmt? h ▸ s.children_sublist.subset child

theorem children_subset_owned : t.children id ⊆ t.owned id := by
  intro x member
  cases found : t.stmt? id with
  | none => simp [children, stmt?] at found member; simp [found] at member
  | some s => exact mem_owned_of_child found (children_of_stmt? found ▸ member)

theorem elifs_subset_owned : t.elifs id ⊆ t.owned id := by
  unfold elifs
  rw [owned_eq]
  cases t.stmt? id with
  | none => simp
  | some s => exact s.elifs_subset

theorem mem_owned_of_last? (h : t.last? id = some x) : x ∈ t.owned id := by
  obtain ⟨s, found, last⟩ := Option.bind_eq_some_iff.mp h
  rw [owned_of_stmt? found]
  exact Stmt.mem_owned_of_last? last

theorem index_lt (h : t.contains id) : id.index < t.slots.size := by
  unfold contains get? at h
  by_contra outside
  simp [Array.getElem?_eq_none (Nat.not_lt.mp outside)] at h

theorem not_contains_nextId (t : Tree) : t.contains t.nextId = false :=
  Bool.eq_false_iff.mpr fun h => absurd (index_lt h) (Nat.lt_irrefl _)

/-- A tree is known by the nodes in its slots. -/
theorem eq_of_get? (size : t.slots.size = t'.slots.size) (live : t.live = t'.live)
    (same : ∀ i < t.slots.size, t.get? ⟨i⟩ = t'.get? ⟨i⟩) : t = t' := by
  obtain ⟨slots, count⟩ := t
  obtain ⟨slots', count'⟩ := t'
  have slots_eq : slots = slots' := by
    apply Array.ext size
    intro i bound bound'
    simpa [get?, bound, bound'] using same i bound
  cases slots_eq
  cases live
  rfl

/-! Elementary changes. -/

section update
variable {f : Stmt → Stmt} {owner : Option StmtId}

@[simp] theorem slots_size_update (t : Tree) (id : StmtId) (f : Node → Node) :
    (t.update id f).slots.size = t.slots.size := by
  simp [update]

@[simp] theorem population_update (t : Tree) (id : StmtId) (f : Node → Node) :
    (t.update id f).population = t.population := by
  have filled : (t.update id f).slots.map (·.isSome) = t.slots.map (·.isSome) := by
    apply Array.ext
    · simp
    · intro i _ _
      simp only [update, Array.getElem_map, Array.getElem_modify]
      split <;> simp
  have counted (slots : Array (Option Node)) :
      slots.countP (·.isSome) = (slots.map (·.isSome)).countP (·) := by
    simp [Array.countP_map, Function.comp_def]
  rw [population, population, counted, filled, ← counted]

/-- Writing back what a statement says already changes nothing. -/
theorem updateStmt_eq_self {node : Node} (found : t.get? id = some node)
    (same : f node.stmt = node.stmt) : t.updateStmt id f = t := by
  suffices t.slots.modify id.index
      (Option.map fun node => { node with stmt := f node.stmt }) = t.slots by
    rw [updateStmt, update, this]
  apply Array.ext (by simp)
  intro place _ bound
  rw [Array.getElem_modify]
  split
  next here =>
    have slot : t.slots[place] = some node := by
      have filled : t.slots[place]?.join = some node := here ▸ found
      simpa [Array.getElem?_eq_getElem bound] using filled
    rw [slot, Option.map_some, same]
  next => rfl

@[simp] theorem stmt?_setParent : (t.setParent id owner).stmt? x = t.stmt? x := by
  unfold stmt? setParent
  rw [get?_update]
  split <;> simp [Function.comp_def]

theorem parent?_setParent (live : t.contains id) : (t.setParent id owner).parent? x =
    if id = x then owner else t.parent? x := by
  unfold parent? setParent
  rw [get?_update]
  split
  next same =>
    obtain ⟨node, found⟩ := Option.isSome_iff_exists.mp live
    rw [← same, found]
    rfl
  next => rfl

theorem stmt?_updateStmt : (t.updateStmt id f).stmt? x =
    if id = x then (t.stmt? x).map f else t.stmt? x := by
  unfold stmt? updateStmt
  rw [get?_update]
  split <;> simp [Function.comp_def]

@[simp] theorem parent?_updateStmt : (t.updateStmt id f).parent? x = t.parent? x := by
  unfold parent? updateStmt
  rw [get?_update]
  split <;> cases t.get? x <;> simp

@[simp] theorem contains_setParent : (t.setParent id owner).contains x = t.contains x := by
  simp [contains_eq]

@[simp] theorem contains_updateStmt : (t.updateStmt id f).contains x = t.contains x := by
  simp only [contains_eq, stmt?_updateStmt]
  split <;> simp

end update

section grow
variable {node : Node}

theorem get?_grow : (t.grow node).get? x = if x = t.nextId then some node else t.get? x := by
  unfold get? grow nextId
  simp only [Array.getElem?_push, StmtId.ext_iff]
  split <;> simp

@[simp] theorem population_grow : (t.grow node).population = t.population + 1 := by
  simp [population, grow]

end grow

end Tree
end KernelTree
