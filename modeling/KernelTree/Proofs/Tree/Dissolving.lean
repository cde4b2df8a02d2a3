import KernelTree.Proofs.Tree.Traversal
import Mathlib.Data.List.Flatten
/-! Trees in which children of some sort make way for their own children. All others keep their
numbers, and each comes to be owned by the nearest statement around it that is left. -/
namespace KernelTree

namespace Stmt

variable {s : Stmt} {f : Block → Block} {x : StmtId}

theorem mem_owned_iff_slots : x ∈ s.owned ↔ x ∈ s.slots ∨ x ∈ s.children :=
  s.owned_perm.mem_iff.trans List.mem_append

theorem chain_subset_slots (s : Stmt) : s.chain ⊆ s.slots := by
  cases s <;> simp [chain, elifs, last?, slots]

@[simp] theorem elifs_mapBody : (s.mapBody f).elifs = s.elifs := by cases s <;> rfl

@[simp] theorem last?_mapBody : (s.mapBody f).last? = s.last? := by cases s <;> rfl

@[simp] theorem chain_mapBody : (s.mapBody f).chain = s.chain := by cases s <;> rfl

/-- New children in place of those that a container has. -/
theorem children_mapBody {g : List StmtId → List StmtId} (none : g [] = [])
    (children : ∀ b, (f b).children = g b.children) : (s.mapBody f).children = g s.children := by
  cases s <;> simp [mapBody, Stmt.children, body?, children, none]

end Stmt

namespace Tree

variable {t : Tree} {skip : Stmt → Bool} {s : Stmt} {id x y p q z : StmtId} {path : List StmtId}

theorem mem_owned_iff_of_stmt? (found : t.stmt? p = some s) :
    x ∈ t.owned p ↔ x ∈ s.slots ∨ x ∈ s.children := by
  rw [owned_of_stmt? found, Stmt.mem_owned_iff_slots]

/-- A child of a sort that makes way for its own children. -/
def dissolves (t : Tree) (skip : Stmt → Bool) (x : StmtId) : Bool :=
  (t.stmt? x).any skip && (t.parent? x).any fun p => (t.children p).contains x

/-- The nearest statement that is left, from a statement on upwards. -/
def anchor (t : Tree) (skip : Stmt → Bool) (x : StmtId) : Option StmtId :=
  (t.ancestors x).find? (!t.dissolves skip ·)

/-- What comes to stand in the place of a child: itself, or what comes to stand in the places of its
own children. -/
def inPlace {t : Tree} (h : t.Linked) (skip : Stmt → Bool) (x : StmtId) : List StmtId :=
  match _ : t.stmt? x with
  | none => [x]
  | some s => if skip s then s.children.attach.flatMap fun c => inPlace h skip c.1 else [x]
termination_by (t.preorder x).length
decreasing_by
  apply h.length_preorder_lt
  exact mem_owned_of_child ‹t.stmt? x = some s› c.2

/-- A body with each child replaced by what comes to stand in its place. Names for statements that
are gone are forgotten. -/
def dissolvedBody {t : Tree} (h : t.Linked) (skip : Stmt → Bool) (b : Block) : Block where
  children := b.children.flatMap (inPlace h skip)
  scope := b.scope.filter (!t.dissolves skip ·)

/-- The tree without the children of a sort, whose own children stand in their places. -/
def dissolved {t : Tree} (h : t.Linked) (skip : Stmt → Bool) : Tree :=
  let slots := t.slots.mapIdx fun i slot =>
    if t.dissolves skip ⟨i⟩ then none
    else slot.map fun node =>
      { node with
        parent := node.parent.bind (t.anchor skip)
        stmt := node.stmt.mapBody (dissolvedBody h skip) }
  { slots, live := slots.countP (·.isSome) }

theorem inPlace_of_stmt? {h : t.Linked} (found : t.stmt? x = some s) : inPlace h skip x =
    if skip s then s.children.flatMap (inPlace h skip) else [x] := by
  rw [inPlace]
  split
  next absent => simp [found] at absent
  next s' found' =>
    cases found.symm.trans found'
    simp

theorem not_dissolves_of_not_child (owned : t.parent? x = some p) (other : x ∉ t.children p) :
    t.dissolves skip x = false := by
  simp [dissolves, owned, other]

theorem not_dissolves_of_free (free : t.parent? x = none) : t.dissolves skip x = false := by
  simp [dissolves, free]

theorem not_dissolves_of_skip (found : t.stmt? x = some s) (kept : skip s = false) :
    t.dissolves skip x = false := by
  simp [dissolves, found, kept]

/-- A statement that makes way is a child of the sort that does. -/
theorem exists_of_dissolves (gone : t.dissolves skip x) :
    ∃ p s, t.parent? x = some p ∧ x ∈ t.children p ∧ t.stmt? x = some s ∧ skip s := by
  obtain ⟨sort, child⟩ := (Bool.and_eq_true _ _).mp gone
  obtain ⟨s, found, skipped⟩ := Option.any_eq_true _ _ |>.mp sort
  obtain ⟨p, owned, member⟩ := Option.any_eq_true _ _ |>.mp child
  exact ⟨p, s, owned, List.contains_iff_mem.mp member, found, skipped⟩

theorem inPlace_eq (h : t.Linked) (skip : Stmt → Bool) (x : StmtId) : inPlace h skip x =
    if (t.stmt? x).any skip then (t.children x).flatMap (inPlace h skip) else [x] := by
  cases found : t.stmt? x with
  | none =>
    rw [inPlace]
    split
    next => rfl
    next there => simp [found] at there
  | some s => rw [inPlace_of_stmt? found, children_of_stmt? found, Option.any_some]

namespace Linked
variable (h : t.Linked)
include h

theorem parent?_of_mem_children (child : x ∈ t.children p) : t.parent? x = some p :=
  h.mem_owned_iff.mp (children_subset_owned child)

theorem dissolves_of_mem_children (child : x ∈ t.children p) :
    t.dissolves skip x = (t.stmt? x).any skip := by
  simp [dissolves, h.parent?_of_mem_children child, child]

theorem anchor_eq (live : t.contains x) : t.anchor skip x =
    if t.dissolves skip x then (t.parent? x).bind (t.anchor skip) else some x := by
  obtain ⟨path, up⟩ := h.grounded live
  rw [anchor, up.ancestors_eq]
  cases up with
  | top _ free => cases gone : t.dissolves skip x <;> simp [gone, free]
  | up owned rest =>
    rw [List.find?_cons]
    cases t.dissolves skip x <;> simp [owned, anchor, rest.ancestors_eq]

/-- What comes to stand in the place of a child is left, was a child, and has the same statement
above it. -/
theorem of_mem_inPlace (live : t.contains y) (child : y ∈ t.children p)
    (member : x ∈ inPlace h skip y) : t.dissolves skip x = false ∧
      ∃ q, t.parent? x = some q ∧ x ∈ t.children q ∧ t.anchor skip q = t.anchor skip p := by
  revert p
  refine h.descending_stmt (motive := fun y => x ∈ inPlace h skip y → ∀ {p}, y ∈ t.children p →
    t.dissolves skip x = false ∧ ∃ q, t.parent? x = some q ∧ x ∈ t.children q ∧
      t.anchor skip q = t.anchor skip p) ?_ live member
  intro y s found each _ member p child
  have gone : t.dissolves skip y = (t.stmt? y).any skip := h.dissolves_of_mem_children child
  have owned := h.parent?_of_mem_children child
  rw [found, Option.any_some] at gone
  rw [inPlace_of_stmt? found] at member
  split at member
  next skipped =>
    obtain ⟨c, inner, deeper⟩ := List.mem_flatMap.mp member
    obtain ⟨left, q, owned', child', same⟩ := each c inner deeper (children_of_stmt? found ▸ inner)
    refine ⟨left, q, owned', child', same.trans ?_⟩
    rw [h.anchor_eq (contains_of_stmt? found), gone, skipped, if_pos rfl, owned, Option.bind_some]
  next kept =>
    cases List.mem_singleton.mp member
    exact ⟨gone.trans (Bool.eq_false_iff.mpr kept), p, owned, child, rfl⟩

/-- What comes to stand in the place of a child is found from the statement above. -/
theorem mem_flatMap_inPlace (up : t.Climbs q path) (above : t.anchor skip q = some p)
    (child : y ∈ t.children q) (member : x ∈ inPlace h skip y) :
    x ∈ (t.children p).flatMap (inPlace h skip) := by
  induction up generalizing y with
  | @top q live free =>
    rw [h.anchor_eq live, not_dissolves_of_free free] at above
    cases Option.some.inj above
    exact List.mem_flatMap.mpr ⟨y, child, member⟩
  | @up q owner path owned rest ih =>
    rw [h.anchor_eq (contains_of_parent? owned)] at above
    by_cases gone : t.dissolves skip q
    · obtain ⟨owner', s, owned', child', found, skipped⟩ := exists_of_dissolves gone
      cases Option.some.inj (owned.symm.trans owned')
      rw [if_pos gone, owned, Option.bind_some] at above
      refine ih above child' ?_
      rw [inPlace_of_stmt? found, if_pos skipped]
      exact List.mem_flatMap.mpr ⟨y, children_of_stmt? found ▸ child, member⟩
    · rw [if_neg gone] at above
      cases Option.some.inj above
      exact List.mem_flatMap.mpr ⟨y, child, member⟩

theorem inPlace_sublist (live : t.contains x) : (inPlace h skip x).Sublist (t.preorder x) := by
  refine h.descending_stmt (motive := fun x => (inPlace h skip x).Sublist (t.preorder x)) ?_ live
  intro x s found each _
  have live := contains_of_stmt? found
  rw [inPlace_of_stmt? found, h.preorder_eq live]
  split
  next =>
    have below : (s.children.flatMap (inPlace h skip)).Sublist (s.children.flatMap t.preorder) :=
      List.Sublist.flatMap_right _ each
    have part := s.children_sublist.flatMap t.preorder
    exact (below.trans (owned_of_stmt? found ▸ part)).cons x
  next => exact (List.nil_sublist _).cons_cons x

/-- None of the sort comes to stand in a body. -/
theorem not_skip_of_mem_flatMap (member : x ∈ (t.children p).flatMap (inPlace h skip))
    (found : t.stmt? x = some s) : skip s = false := by
  obtain ⟨c, child, member⟩ := List.mem_flatMap.mp member
  have inner := h.contains_owned (children_subset_owned child)
  obtain ⟨left, q, -, child', -⟩ := h.of_mem_inPlace inner child member
  rwa [h.dissolves_of_mem_children child', found, Option.any_some] at left

end Linked

/-! The tree that is left. -/

section dissolved
variable {h : t.Linked}

theorem get?_dissolved : (dissolved h skip).get? x =
    if t.dissolves skip x then none
    else (t.get? x).map fun node =>
      { node with
        parent := node.parent.bind (t.anchor skip)
        stmt := node.stmt.mapBody (dissolvedBody h skip) } := by
  simp only [get?, dissolved, Array.getElem?_mapIdx]
  cases t.slots[x.index]? with
  | none => simp
  | some slot => simp only [Option.map_some, Option.join_some]

theorem stmt?_dissolved : (dissolved h skip).stmt? x =
    if t.dissolves skip x then none
    else (t.stmt? x).map (·.mapBody (dissolvedBody h skip)) := by
  rw [stmt?, get?_dissolved, stmt?]
  split
  next => rfl
  next => cases t.get? x <;> rfl

theorem stmt?_dissolved_of_left (left : t.dissolves skip x = false) (found : t.stmt? x = some s) :
    (dissolved h skip).stmt? x = some (s.mapBody (dissolvedBody h skip)) := by
  rw [stmt?_dissolved, left, found]
  rfl

theorem exists_of_stmt?_dissolved (found' : (dissolved h skip).stmt? x = some s) :
    t.dissolves skip x = false ∧
      ∃ before, t.stmt? x = some before ∧ before.mapBody (dissolvedBody h skip) = s := by
  rw [stmt?_dissolved] at found'
  split at found'
  next => cases found'
  next left =>
    obtain ⟨before, found, same⟩ := Option.map_eq_some_iff.mp found'
    exact ⟨Bool.eq_false_iff.mpr left, before, found, same⟩

theorem parent?_dissolved : (dissolved h skip).parent? x =
    if t.dissolves skip x then none else (t.parent? x).bind (t.anchor skip) := by
  rw [parent?, get?_dissolved, parent?]
  split
  next => rfl
  next => cases t.get? x <;> rfl

theorem contains_dissolved :
    (dissolved h skip).contains x = (t.contains x && !t.dissolves skip x) := by
  rw [contains_eq, contains_eq, stmt?_dissolved]
  cases t.dissolves skip x <;> simp

theorem kind?_dissolved (left : t.dissolves skip x = false) :
    (dissolved h skip).kind? x = t.kind? x := by
  simp [kind?_eq, stmt?_dissolved, left, Function.comp_def]

theorem elifs_dissolved (left : t.dissolves skip x = false) :
    (dissolved h skip).elifs x = t.elifs x := by
  simp [elifs, stmt?_dissolved, left, Function.comp_def]

theorem last?_dissolved (left : t.dissolves skip x = false) :
    (dissolved h skip).last? x = t.last? x := by
  rw [last?, stmt?_dissolved, left, if_neg Bool.false_ne_true, last?]
  cases t.stmt? x with
  | none => rfl
  | some s => exact Stmt.last?_mapBody

theorem children_mapBody_dissolvedBody (s : Stmt) :
    (s.mapBody (dissolvedBody h skip)).children = s.children.flatMap (inPlace h skip) :=
  Stmt.children_mapBody (g := (·.flatMap (inPlace h skip))) rfl fun _ => rfl

theorem children_dissolved (left : t.dissolves skip x = false) :
    (dissolved h skip).children x = (t.children x).flatMap (inPlace h skip) := by
  cases found : t.stmt? x with
  | none =>
    have absent : (dissolved h skip).stmt? x = none := by
      rw [stmt?_dissolved, left, found]
      rfl
    simp only [stmt?, Option.map_eq_none_iff] at found absent
    simp [children, found, absent]
  | some s =>
    rw [children_of_stmt? found, children_of_stmt? (stmt?_dissolved_of_left left found),
      children_mapBody_dissolvedBody]

variable (plain : ∀ s, skip s → s.slots = [])
include plain

/-- What is owned otherwise than as a child is left, and so is its owner. -/
theorem not_dissolves_of_mem_slots (h : t.Linked) (found : t.stmt? p = some s)
    (slot : x ∈ s.slots) : t.dissolves skip x = false ∧ t.dissolves skip p = false := by
  have nodup := s.owned_perm.nodup_iff.mp (owned_of_stmt? found ▸ h.nodup_owned p)
  have owned : x ∈ t.owned p := (mem_owned_iff_of_stmt? found).mpr (.inl slot)
  have other : x ∉ t.children p := by
    rw [children_of_stmt? found]
    exact List.disjoint_of_nodup_append nodup slot
  refine ⟨not_dissolves_of_not_child (h.mem_owned_iff.mp owned) other, ?_⟩
  apply not_dissolves_of_skip found
  apply Bool.eq_false_iff.mpr
  intro skipped
  simp [plain s skipped] at slot

/-- A statement that is left was a child of whatever it has moved away from. -/
theorem parent?_dissolved_cases (h : t.Linked) (owned' : (dissolved h skip).parent? x = some p) :
    t.dissolves skip x = false ∧ t.dissolves skip p = false ∧
      ∃ q s, t.parent? x = some q ∧ t.anchor skip q = some p ∧ t.stmt? q = some s ∧
        (x ∈ t.children q ∨ q = p ∧ x ∈ s.slots) := by
  rw [parent?_dissolved] at owned'
  split at owned'
  next => cases owned'
  next left =>
    obtain ⟨q, owned, above⟩ := Option.bind_eq_some_iff.mp owned'
    have live := h.contains_owner owned
    obtain ⟨s, found⟩ := exists_stmt live
    have leftP : t.dissolves skip p = false := by simpa using List.find?_some above
    refine ⟨Bool.eq_false_iff.mpr left, leftP, q, s, owned, above, found, ?_⟩
    have member := h.mem_owned_iff.mpr owned
    rw [mem_owned_iff_of_stmt? found, ← children_of_stmt? found] at member
    rcases member with slot | child
    · rw [h.anchor_eq live, (not_dissolves_of_mem_slots plain h found slot).2] at above
      exact .inr ⟨Option.some.inj above, slot⟩
    · exact .inl child

theorem mem_owned_dissolved (h : t.Linked) :
    x ∈ (dissolved h skip).owned p ↔ (dissolved h skip).parent? x = some p := by
  constructor
  · intro member
    obtain ⟨s', found'⟩ := exists_stmt (contains_of_mem_owned member)
    obtain ⟨left, s, found, rfl⟩ := exists_of_stmt?_dissolved found'
    have itself : t.anchor skip p = some p := by
      rw [h.anchor_eq (contains_of_stmt? found), left]
      rfl
    rw [mem_owned_iff_of_stmt? found', Stmt.slots_mapBody, children_mapBody_dissolvedBody] at member
    rcases member with slot | member
    · have owned : x ∈ t.owned p := (mem_owned_iff_of_stmt? found).mpr (.inl slot)
      rw [parent?_dissolved, (not_dissolves_of_mem_slots plain h found slot).1,
        h.mem_owned_iff.mp owned]
      exact itself
    · obtain ⟨c, child, member⟩ := List.mem_flatMap.mp member
      rw [← children_of_stmt? found] at child
      have inner := h.contains_owned (children_subset_owned child)
      obtain ⟨left', q, owned, -, same⟩ := h.of_mem_inPlace inner child member
      rw [parent?_dissolved, left', owned]
      exact same.trans itself
  · intro owned'
    obtain ⟨left, leftP, q, s, owned, above, found, child | ⟨rfl, slot⟩⟩ :=
      parent?_dissolved_cases plain h owned'
    · obtain ⟨path, up⟩ := h.grounded (h.contains_owner owned)
      obtain ⟨s', there⟩ := exists_stmt (contains_of_parent? owned)
      have kept : skip s' = false := by
        rwa [h.dissolves_of_mem_children child, there, Option.any_some] at left
      have itself : x ∈ inPlace h skip x := by
        rw [inPlace_of_stmt? there, kept]
        exact List.mem_singleton_self x
      apply children_subset_owned
      rw [children_dissolved leftP]
      exact h.mem_flatMap_inPlace up above child itself
    · rw [mem_owned_iff_of_stmt? (stmt?_dissolved_of_left leftP found), Stmt.slots_mapBody]
      exact .inl slot

omit plain in
theorem nodup_owned_dissolved (h : t.Linked) (p : StmtId) :
    ((dissolved h skip).owned p).Nodup := by
  cases found' : (dissolved h skip).stmt? p with
  | none => rw [owned_eq, found']; exact List.nodup_nil
  | some s' => ?_
  obtain ⟨left, s, found, rfl⟩ := exists_of_stmt?_dissolved found'
  have live := contains_of_stmt? found
  have owned {c : StmtId} (part : c ∈ s.slots ∨ c ∈ s.children) : c ∈ t.owned p :=
    (mem_owned_iff_of_stmt? found).mpr part
  have nodup := s.owned_perm.nodup_iff.mp (owned_of_stmt? found ▸ h.nodup_owned p)
  have spliced : (s.children.flatMap (inPlace h skip)).Nodup := by
    have below : (s.children.flatMap (inPlace h skip)).Sublist (s.children.flatMap t.preorder) :=
      List.Sublist.flatMap_right _ fun c child =>
        h.inPlace_sublist (h.contains_owned (owned (.inr child)))
    have whole := h.nodup_preorder live
    rw [h.preorder_eq live, owned_of_stmt? found] at whole
    exact (List.nodup_cons.mp whole).2.sublist (below.trans (s.children_sublist.flatMap _))
  rw [owned_of_stmt? found', (Stmt.owned_perm _).nodup_iff, Stmt.slots_mapBody,
    children_mapBody_dissolvedBody]
  refine (List.nodup_append.mp nodup).1.append spliced ?_
  -- What moves in was a child, so it is in no other place of this statement.
  intro x slot member
  obtain ⟨c, child, member⟩ := List.mem_flatMap.mp member
  have inner := h.contains_owned (owned (.inr child))
  rw [← children_of_stmt? found] at child
  obtain ⟨-, q, parent, child', -⟩ := h.of_mem_inPlace inner child member
  cases Option.some.inj (parent.symm.trans (h.mem_owned_iff.mp (owned (.inl slot))))
  rw [children_of_stmt? found] at child'
  exact List.disjoint_of_nodup_append nodup slot child'

omit plain in
theorem climbs_dissolved (h : t.Linked) (up : t.Climbs x path) (above : t.anchor skip x = some z) :
    ∃ path', (dissolved h skip).Climbs z path' := by
  induction up generalizing z with
  | @top x live free =>
    have left : t.dissolves skip x = false := not_dissolves_of_free free
    rw [h.anchor_eq live, left] at above
    cases Option.some.inj above
    refine ⟨_, .top ?_ ?_⟩
    · rw [contains_dissolved, live, left]
      rfl
    · rw [parent?_dissolved, left, free]
      rfl
  | @up x owner path owned rest ih =>
    have live := contains_of_parent? owned
    rw [h.anchor_eq live, owned, Option.bind_some] at above
    by_cases gone : t.dissolves skip x
    · rw [if_pos gone] at above
      exact ih above
    · rw [if_neg gone] at above
      cases Option.some.inj above
      have parent : (dissolved h skip).parent? x = t.anchor skip owner := by
        rw [parent?_dissolved, if_neg gone, owned, Option.bind_some]
      cases higher : t.anchor skip owner with
      | none =>
        refine ⟨_, .top ?_ (parent.trans higher)⟩
        rw [contains_dissolved, live, Bool.eq_false_iff.mpr gone]
        rfl
      | some y =>
        obtain ⟨path', up'⟩ := ih higher
        exact ⟨_, .up (parent.trans higher) up'⟩

theorem linked_dissolved (h : t.Linked) : (dissolved h skip).Linked := by
  constructor
  case mem_owned_iff => exact mem_owned_dissolved plain h
  case nodup_owned => exact nodup_owned_dissolved h
  case grounded =>
    intro x live
    rw [contains_dissolved, Bool.and_eq_true, Bool.not_eq_true'] at live
    obtain ⟨path, up⟩ := h.grounded live.1
    exact climbs_dissolved h up (by rw [h.anchor_eq live.1, live.2]; rfl)
  case elif_iff =>
    intro x p owned'
    obtain ⟨left, leftP, q, s, owned, -, found, child | ⟨rfl, slot⟩⟩ :=
      parent?_dissolved_cases plain h owned'
    · rw [kind?_dissolved left, elifs_dissolved leftP]
      have other := (h.kind?_of_mem_children found (children_of_stmt? found ▸ child)).1
      have apart (entry : x ∈ t.elifs p) : t.kind? x = some .elif :=
        (h.elif_iff (h.mem_owned_iff.mp (elifs_subset_owned entry))).mpr entry
      exact ⟨fun kind => absurd kind other, apart⟩
    · rw [kind?_dissolved left, elifs_dissolved leftP]
      exact h.elif_iff owned
  case otherwise_iff =>
    intro x p owned'
    obtain ⟨left, leftP, q, s, owned, -, found, child | ⟨rfl, slot⟩⟩ :=
      parent?_dissolved_cases plain h owned'
    · rw [kind?_dissolved left, last?_dissolved leftP]
      have other := (h.kind?_of_mem_children found (children_of_stmt? found ▸ child)).2
      have apart (entry : t.last? p = some x) : t.kind? x = some .otherwise :=
        (h.otherwise_iff (h.mem_owned_iff.mp (mem_owned_of_last? entry))).mpr entry
      exact ⟨fun kind => absurd kind other, apart⟩
    · rw [kind?_dissolved left, last?_dissolved leftP]
      exact h.otherwise_iff owned
  case live_eq => rfl

theorem rooted_dissolved (h : t.Rooted) : (dissolved h.toLinked skip).Rooted := by
  have left : t.dissolves skip root = false := not_dissolves_of_free h.root_free
  refine { linked_dissolved plain h.toLinked with root_kind := ?_, root_free := ?_ }
  · rw [kind?_dissolved left]
    exact h.root_kind
  · rw [parent?_dissolved, left, h.root_free]
    rfl

end dissolved

end Tree
end KernelTree
