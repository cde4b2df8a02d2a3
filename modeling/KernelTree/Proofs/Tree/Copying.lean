import KernelTree.Proofs.Statement.Renumbering
import KernelTree.Proofs.Tree.Unlinking
/-! What copying does. The numbers of a copy are an image of the preorder of its source, and every
statement of the copy is the image of one of the source. -/
namespace KernelTree

/-- The copy of a node. The copy of `r` itself has no owner. -/
def Node.image (ρ : StmtId → StmtId) (r id : StmtId) (node : Node) : Node where
  parent := if id = r then none else node.parent.map ρ
  span := node.span
  stmt := node.stmt.map ρ

namespace Tree

variable {t source dest dest' : Tree} {r x y id : StmtId} {base : Nat}

/-- The number in the copy of a statement of the subtree at `r`. Copies count from `base`, in
preorder. -/
def image (t : Tree) (r : StmtId) (base : Nat) (id : StmtId) : StmtId :=
  ⟨base + (t.preorder r).idxOf id⟩

theorem idxOf?_of_mem {order : List StmtId} (member : id ∈ order) :
    order.idxOf? id = some (order.idxOf id) := by
  obtain ⟨place, found⟩ := Option.isSome_iff_exists.mp (List.isSome_idxOf?.mpr member)
  rw [List.idxOf_eq_getD_idxOf?, found]
  rfl

theorem newNumber_of_mem {order : List StmtId} (member : id ∈ order) :
    newNumber order base id = some ⟨base + order.idxOf id⟩ := by
  rw [newNumber, idxOf?_of_mem member]
  rfl

theorem isSome_newNumber {order : List StmtId} :
    (newNumber order base id).isSome ↔ id ∈ order := by
  simp [newNumber]

theorem image_injOn (member : x ∈ t.preorder r) (same : t.image r base x = t.image r base y) :
    x = y := by
  apply (List.idxOf_inj member).mp
  have := congrArg StmtId.index same
  simpa [image] using this

theorem base_le_image : base ≤ (t.image r base x).index := Nat.le_add_right ..

theorem Linked.image_getElem (h : t.Linked) (live : t.contains r) {i : Nat}
    (bound : i < (t.preorder r).length) : t.image r base (t.preorder r)[i] = ⟨base + i⟩ := by
  rw [image, (h.nodup_preorder live).idxOf_getElem]

/-- The copy begins at its base. -/
theorem Linked.image_self (h : t.Linked) (live : t.contains r) : t.image r base r = ⟨base⟩ := by
  rw [image, h.preorder_eq live, List.idxOf_cons_self, Nat.add_zero]

/-- The destination holds a copy of the subtree at `r`, numbered by `ρ`, and is otherwise the
same. -/
structure Copied (source : Tree) (r : StmtId) (ρ : StmtId → StmtId) (dest dest' : Tree) : Prop where
  injective : ∀ {x y}, x ∈ source.preorder r → ρ x = ρ y → x = y
  fresh : ∀ x ∈ source.preorder r, dest.contains (ρ x) = false
  old : ∀ x, (∀ y ∈ source.preorder r, x ≠ ρ y) → dest'.get? x = dest.get? x
  new : ∀ y ∈ source.preorder r, dest'.get? (ρ y) = (source.get? y).map (Node.image ρ r y)
  size : dest'.slots.size = dest.slots.size + (source.preorder r).length
  live : dest'.live = dest.live + (source.preorder r).length
  population : dest'.population = dest.population + (source.preorder r).length

theorem gather_of_walk (h : t.Linked) {pending seen order : List StmtId}
    (walk : t.Walk pending order) (nodup : order.Nodup) (fresh : ∀ x ∈ order, x ∉ seen)
    (enough : order.length ≤ steps) :
    t.gather r steps pending seen = .ok (seen.reverse ++ order) := by
  induction walk generalizing seen steps with
  | done => cases steps <;> simp [gather]
  | @visit id pending order live rest ih =>
    obtain ⟨steps, rfl⟩ := Nat.exists_eq_add_of_le' enough
    obtain ⟨node, found⟩ := Option.isSome_iff_exists.mp live
    obtain ⟨alone, nodup⟩ := List.nodup_cons.mp nodup
    have owned : node.stmt.owned = t.owned id := (owned_of_stmt? (stmt?_of_get? found)).symm
    have named : (t.owned id).reverse.find? (t.parent? · ≠ some id) = none := by
      simpa using fun x member => h.mem_owned_iff.mp member
    have unseen := fresh id List.mem_cons_self
    simp only [List.length_cons, ← Nat.add_assoc, gather, found, owned, named, if_neg unseen]
    have unseen' : ∀ x ∈ order, x ∉ id :: seen := by
      intro x member
      apply List.not_mem_cons_of_ne_of_not_mem (ne_of_mem_of_not_mem member alone)
      exact fresh x (.tail _ member)
    rw [ih nodup unseen' (by omega)]
    simp

theorem Linked.gather_eq (h : t.Linked) (live : t.contains r) :
    t.gather r (t.slots.size + 1) [r] [] = .ok (t.preorder r) := by
  have walk := h.walk_preorder live
  have nodup := h.nodup_preorder live
  have room := length_le_size nodup fun _ => walk.contains_of_mem
  exact gather_of_walk h walk nodup (by simp) (Nat.le_succ_of_le room)

/-- Every name declared in a subtree is bound to a statement of it. -/
def Closed (t : Tree) (r : StmtId) : Prop :=
  ∀ x ∈ t.preorder r, ∀ s, t.stmt? x = some s → s.targets ⊆ t.preorder r

theorem copyNode_ok_iff {order : List StmtId} {node' : Node} :
    t.copyNode r order base id = .ok node' ↔
      ∃ node, t.get? id = some node ∧ (∀ x ∈ node.stmt.owned ++ node.stmt.targets, x ∈ order) ∧
        node' = {
          parent := if id = r then none else node.parent.bind (newNumber order base)
          span := node.span
          stmt := node.stmt.map fun x => (newNumber order base x).getD x } := by
  unfold copyNode
  cases t.get? id with
  | none => simp
  | some node =>
    simp only [Option.some.injEq, exists_eq_left']
    cases renumbered : node.stmt.renumber (newNumber order base) with
    | error place =>
      simp only [except_throw, reduceCtorEq, false_iff]
      rintro ⟨known, -⟩
      have numbered : ∀ x ∈ node.stmt.owned ++ node.stmt.targets, (newNumber order base x).isSome :=
        fun x member => isSome_newNumber.mpr (known x member)
      simp [Stmt.renumber_ok_iff.mpr ⟨numbered, rfl⟩] at renumbered
    | ok stmt =>
      obtain ⟨known, rfl⟩ := Stmt.renumber_ok_iff.mp renumbered
      simp only [isSome_newNumber] at known
      rw [except_pure_ok, and_iff_right known, eq_comm]

theorem Linked.copyNode_ok_iff (h : t.Linked) (live : t.contains r) (member : id ∈ t.preorder r) :
    t.copyNode r (t.preorder r) base id = .ok node' ↔
      (∀ s, t.stmt? id = some s → s.targets ⊆ t.preorder r) ∧
        ∃ node, t.get? id = some node ∧ node' = node.image (t.image r base) r id := by
  have walk := h.walk_preorder live
  obtain ⟨node, found⟩ := Option.isSome_iff_exists.mp (walk.contains_of_mem member)
  have owned : node.stmt.owned ⊆ t.preorder r :=
    owned_of_stmt? (stmt?_of_get? found) ▸ walk.owned_subset member
  -- Only `r` itself may have an owner outside the subtree, and its copy has none.
  have around : id ≠ r → node.parent.bind (newNumber (t.preorder r) base) =
      node.parent.map (t.image r base) := by
    intro differs
    cases owner : node.parent with
    | none => rfl
    | some p =>
      have parent := (parent?_of_get? found).trans owner
      rcases ((h.mem_preorder_iff live).mp member).cases with same | ⟨p', owned', within⟩
      · exact absurd same differs
      · cases Option.some.inj (parent.symm.trans owned')
        exact newNumber_of_mem ((h.mem_preorder_iff live).mpr within)
  have renamed (targets : node.stmt.targets ⊆ t.preorder r) :
      (node.stmt.map fun x => (newNumber (t.preorder r) base x).getD x) =
        node.stmt.map (t.image r base) := by
    apply Stmt.map_congr
    intro x mentioned
    rw [newNumber_of_mem ((List.mem_append.mp mentioned).elim (owned ·) (targets ·))]
    rfl
  have image (targets : node.stmt.targets ⊆ t.preorder r) :
      node.image (t.image r base) r id = {
          parent := if id = r then none else node.parent.bind (newNumber (t.preorder r) base)
          span := node.span
          stmt := node.stmt.map fun x => (newNumber (t.preorder r) base x).getD x } := by
    rw [renamed targets, Node.image]
    by_cases same : id = r
    · rw [if_pos same, if_pos same]
    · rw [if_neg same, if_neg same, around same]
  simp only [Tree.copyNode_ok_iff, stmt?_of_get? found, found, Option.some.injEq, exists_eq_left',
    forall_eq', List.forall_mem_append]
  constructor
  · rintro ⟨⟨-, targets⟩, rfl⟩
    exact ⟨targets, (image targets).symm⟩
  · rintro ⟨targets, rfl⟩
    exact ⟨⟨owned, targets⟩, image targets⟩

/-- The nodes of a copy in order, worked out from those of the source. -/
def Planned (t : Tree) (r : StmtId) (base : Nat) (planned : List Node) : Prop :=
  List.Forall₂ (fun x node' => ∃ node, t.get? x = some node ∧
    node' = node.image (t.image r base) r x) (t.preorder r) planned

theorem Linked.planCopy_ok_iff (h : t.Linked) (live : t.contains r) :
    t.planCopy r base = .ok planned ↔ t.Closed r ∧ t.Planned r base planned := by
  rw [planCopy, h.gather_eq live]
  apply except_mapM_ok.trans
  rw [Closed, Planned, ← List.forall₂_and_left, List.forall₂_iff_get, List.forall₂_iff_get]
  apply and_congr_right
  intro _
  apply forall_congr'
  intro place
  exact forall₂_congr fun _ _ => h.copyNode_ok_iff live (List.get_mem _ _)

/-- A subtree in which every name is bound inside can be copied. -/
theorem Linked.exists_planned (h : t.Linked) (live : t.contains r) (closed : t.Closed r)
    (base : Nat) : ∃ planned, t.planCopy r base = .ok planned := by
  have walk := h.walk_preorder live
  have each : ∀ l ⊆ t.preorder r, ∃ planned, List.Forall₂ (fun x node' => ∃ node,
      t.get? x = some node ∧ node' = node.image (t.image r base) r x) l planned := by
    intro l inside
    induction l with
    | nil => exact ⟨[], .nil⟩
    | cons x rest ih =>
      have live := walk.contains_of_mem (inside List.mem_cons_self)
      obtain ⟨node, found⟩ := Option.isSome_iff_exists.mp live
      obtain ⟨planned, others⟩ := ih fun y member => inside (.tail _ member)
      exact ⟨_, .cons ⟨node, found, rfl⟩ others⟩
  obtain ⟨planned, fits⟩ := each _ fun _ => id
  exact ⟨planned, (h.planCopy_ok_iff live).mpr ⟨closed, fits⟩⟩

/-- The tree with further statements in its next slots. -/
def installed (t : Tree) (planned : List Node) : Tree where
  slots := t.slots ++ (planned.map some).toArray
  live := t.live + planned.length

theorem install_run {planned : List Node} :
    install planned t = .ok t.nextId (t.installed planned) := rfl

theorem get?_installed {planned : List Node} : (t.installed planned).get? x =
    if x.index < t.slots.size then t.get? x else planned[x.index - t.slots.size]? := by
  simp only [get?, installed, Array.getElem?_append, List.getElem?_toArray, List.getElem?_map]
  split
  · rfl
  · cases planned[x.index - t.slots.size]? <;> rfl

theorem Linked.copied (h : source.Linked) (live : source.contains r)
    (fits : source.Planned r dest.slots.size planned) :
    Copied source r (source.image r dest.slots.size) dest (dest.installed planned) := by
  have length := fits.length_eq
  constructor
  case injective => exact image_injOn
  case fresh =>
    intro x member
    apply Bool.eq_false_iff.mpr
    intro inside
    exact Nat.not_le.mpr (index_lt inside) base_le_image
  case old =>
    intro x apart
    rw [get?_installed]
    split
    next => rfl
    next outside =>
      have room : dest.slots.size ≤ x.index := by omega
      rw [get?, Array.getElem?_eq_none room, Option.join_none, List.getElem?_eq_none_iff]
      by_contra inside
      have bound : x.index - dest.slots.size < planned.length := by omega
      refine apart _ (List.getElem_mem (length ▸ bound)) (StmtId.ext ?_)
      rw [h.image_getElem live]
      simp only
      omega
  case new =>
    intro y member
    rw [get?_installed, if_neg (Nat.not_lt.mpr base_le_image)]
    have bound := List.idxOf_lt_length_of_mem member
    obtain ⟨node, found, image⟩ := fits.get bound (length ▸ bound)
    simp only [List.get_eq_getElem, List.getElem_idxOf] at found image
    rw [found, Option.map_some, ← image, Tree.image, Nat.add_sub_cancel_left,
      List.getElem?_eq_getElem (length ▸ bound)]
  case size => simp [installed, length]
  case live => simp [installed, length]
  case population =>
    have all : (planned.map some).countP Option.isSome = planned.length := by
      simp [List.countP_map, Function.comp_def]
    simp [Tree.population, installed, Array.countP_append, all, length]

end Tree
end KernelTree
