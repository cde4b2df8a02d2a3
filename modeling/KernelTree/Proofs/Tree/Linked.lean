import KernelTree.Proofs.Tree.Ascent
/-! Trees whose links agree: owners and owned statements name each other, every chain of owners
ends, and the entries of an if-chain stand in their own places. In such a tree the walk down from a
statement lists what lies within it, each statement once and before those it owns. -/
namespace KernelTree.Tree

variable {t t' : Tree} {id x y r owner child : StmtId} {s : Stmt}

structure Linked (t : Tree) : Prop where
  mem_owned_iff : ∀ {owner child}, child ∈ t.owned owner ↔ t.parent? child = some owner
  nodup_owned : ∀ owner, (t.owned owner).Nodup
  grounded : ∀ {id}, t.contains id → ∃ path, t.Climbs id path
  elif_iff : ∀ {child owner}, t.parent? child = some owner →
    (t.kind? child = some .elif ↔ child ∈ t.elifs owner)
  otherwise_iff : ∀ {child owner}, t.parent? child = some owner →
    (t.kind? child = some .otherwise ↔ t.last? owner = some child)
  live_eq : t.live = t.population

namespace Linked

theorem contains_owner (h : t.Linked) (owned : t.parent? child = some owner) :
    t.contains owner :=
  contains_of_mem_owned (h.mem_owned_iff.mpr owned)

theorem parent?_of_mem (h : t.Linked) (found : t.stmt? owner = some s) (member : child ∈ s.owned) :
    t.parent? child = some owner :=
  h.mem_owned_iff.mp (owned_of_stmt? found ▸ member)

theorem contains_owned (h : t.Linked) (member : child ∈ t.owned owner) : t.contains child :=
  contains_of_parent? (h.mem_owned_iff.mp member)

theorem contains_around (h : t.Linked) (live : t.contains id) (within : t.Within id x) :
    t.contains x := by
  induction within with
  | refl => exact live
  | tail _ owned _ => exact h.contains_owner owned

theorem mem_ancestors_iff (h : t.Linked) (live : t.contains id) :
    x ∈ t.ancestors id ↔ t.Within id x := by
  obtain ⟨path, up⟩ := h.grounded live
  rw [up.ancestors_eq, up.mem_iff]

theorem isWithin_iff (h : t.Linked) (live : t.contains id) : t.isWithin id x ↔ t.Within id x := by
  rw [isWithin, List.contains_iff_mem, h.mem_ancestors_iff live]

theorem within_antisymm (h : t.Linked) (live : t.contains x) (within : t.Within x y)
    (around : t.Within y x) : x = y := by
  obtain ⟨path, up⟩ := h.grounded live
  obtain ⟨path', up'⟩ := h.grounded (h.contains_around live within)
  by_contra differs
  have longer := up.length_lt up' within differs
  have shorter := up'.length_lt up around (Ne.symm differs)
  omega

theorem not_within_owned (h : t.Linked) (owned : t.parent? child = some owner) :
    ¬ t.Within owner child := by
  intro within
  have same : child = owner :=
    h.within_antisymm (contains_of_parent? owned) (.step owned (.refl ..)) within
  subst same
  obtain ⟨path, up⟩ := h.grounded (contains_of_parent? owned)
  cases up with
  | top _ free => simp [free] at owned
  | up owned' rest =>
    cases Option.some.inj (owned.symm.trans owned')
    have := congrArg List.length (rest.unique (.up owned rest))
    simp at this

/-- Two statements of one owner have nothing in common. -/
theorem eq_of_common (h : t.Linked) (owned : t.parent? x = some owner)
    (owned' : t.parent? y = some owner) (left : t.Within id x) (right : t.Within id y) : x = y := by
  have separate {x y} (owned : t.parent? x = some owner) (owned' : t.parent? y = some owner)
      (within : t.Within x y) : x = y := by
    rcases within.cases with same | ⟨owner', owned'', within⟩
    · exact same
    · cases Option.some.inj (owned.symm.trans owned'')
      exact absurd within (h.not_within_owned owned')
  rcases left.total right with within | within
  · exact separate owned owned' within
  · exact (separate owned' owned within).symm

/-- No child is an entry of an if-chain. -/
theorem kind?_of_mem_children (h : t.Linked) (found : t.stmt? id = some s)
    (member : child ∈ s.children) :
    t.kind? child ≠ some .elif ∧ t.kind? child ≠ some .otherwise := by
  have nodup := h.nodup_owned id
  rw [owned_of_stmt? found] at nodup
  have owned := h.mem_owned_iff.mp (mem_owned_of_child found member)
  have apart : child ∉ s.chain := fun entry =>
    List.disjoint_of_nodup_append (nodup.sublist s.children_chain_sublist) member entry
  rw [Ne, h.elif_iff owned, Ne, h.otherwise_iff owned, elifs_of_stmt? found, last?_of_stmt? found]
  simpa [Stmt.chain] using apart

theorem kind?_of_mem_chain (h : t.Linked) (found : t.stmt? id = some s)
    (member : child ∈ s.chain) :
    t.kind? child = some .elif ∨ t.kind? child = some .otherwise := by
  have inside := s.children_chain_sublist.subset (List.mem_append_right _ member)
  have owned := h.parent?_of_mem found inside
  rw [h.elif_iff owned, h.otherwise_iff owned, elifs_of_stmt? found, last?_of_stmt? found]
  simpa [Stmt.chain] using member

/-- Induction from what a statement owns to the statement itself. -/
theorem descending (h : t.Linked) {motive : StmtId → Prop}
    (step : ∀ id, t.contains id → (∀ child ∈ t.owned id, motive child) → motive id)
    (live : t.contains id) : motive id := by
  obtain ⟨path, up⟩ := h.grounded live
  -- The way up of an owned statement is longer, and no way up is longer than the tree is large.
  induction room : t.slots.size - path.length using Nat.strongRecOn generalizing id path with
  | ind room ih =>
    apply step id live
    intro child member
    have owned := h.mem_owned_iff.mp member
    have further := Climbs.up owned up
    have bound := further.length_le
    exact ih _ (by simp at bound ⊢; omega) (contains_of_parent? owned) _ further rfl

/-- Induction from the children and the chain of a statement to the statement itself. -/
theorem descending_stmt (h : t.Linked) {motive : StmtId → Prop}
    (step : ∀ id s, t.stmt? id = some s → (∀ c ∈ s.children, motive c) →
      (∀ c ∈ s.chain, motive c) → motive id)
    (live : t.contains id) : motive id := by
  refine h.descending (fun id live ih => ?_) live
  obtain ⟨s, found⟩ := exists_stmt live
  have owned {c : StmtId} (part : c ∈ s.children ++ s.chain) : c ∈ t.owned id :=
    owned_of_stmt? found ▸ s.children_chain_sublist.subset part
  apply step id s found
  · exact fun c child => ih c (owned (List.mem_append_left _ child))
  · exact fun c entry => ih c (owned (List.mem_append_right _ entry))

end Linked

/-- The walk from pending statements, to which every statement met adds those it owns. -/
inductive Walk (t : Tree) : List StmtId → List StmtId → Prop
  | done : Walk t [] []
  | visit {id : StmtId} {pending order : List StmtId} (live : t.contains id)
    (rest : Walk t (t.owned id ++ pending) order) : Walk t (id :: pending) (id :: order)

namespace Walk

theorem append (h : t.Walk ids order) (g : t.Walk ids' order') :
    t.Walk (ids ++ ids') (order ++ order') := by
  induction h with
  | done => exact g
  | visit live _ ih => exact .visit live (by simpa using ih)

theorem unique (h : t.Walk ids order) (g : t.Walk ids order') : order = order' := by
  induction h generalizing order' with
  | done =>
    cases g
    rfl
  | visit _ _ ih =>
    cases g with
    | visit _ rest => rw [ih rest]

theorem contains_of_mem (h : t.Walk ids order) (member : x ∈ order) : t.contains x := by
  induction h with
  | done => simp at member
  | visit live _ ih =>
    rcases List.mem_cons.mp member with rfl | member
    · exact live
    · exact ih member

theorem congr (h : t.Walk ids order)
    (same : ∀ x ∈ order, t'.contains x ∧ t'.owned x = t.owned x) : t'.Walk ids order := by
  induction h with
  | done => exact .done
  | visit _ _ ih =>
    obtain ⟨live, owned⟩ := same _ List.mem_cons_self
    exact .visit live (owned ▸ ih fun x member => same x (List.mem_cons_of_mem _ member))

theorem descend_eq (h : t.Walk ids order) (enough : order.length ≤ steps) :
    t.descend steps ids = order := by
  induction h generalizing steps with
  | done => cases steps <;> rfl
  | visit live _ ih =>
    obtain ⟨steps, rfl⟩ := Nat.exists_eq_add_of_le' enough
    obtain ⟨node, found⟩ := Option.isSome_iff_exists.mp live
    have owned := owned_of_stmt? (stmt?_of_get? found)
    simp only [List.length_cons, ← Nat.add_assoc, descend, found, ← owned]
    rw [ih (by simp)]

theorem within_of_mem (h : t.Linked) (walk : t.Walk ids order) (member : x ∈ order) :
    ∃ id ∈ ids, t.Within x id := by
  induction walk with
  | done => simp at member
  | @visit id pending order live rest ih =>
    rcases List.mem_cons.mp member with rfl | member
    · exact ⟨x, List.mem_cons_self, .refl ..⟩
    · obtain ⟨child, inside, within⟩ := ih member
      rcases List.mem_append.mp inside with owned | inside
      · exact ⟨id, List.mem_cons_self,
          within.trans (.step (h.mem_owned_iff.mp owned) (.refl ..))⟩
      · exact ⟨child, List.mem_cons_of_mem _ inside, within⟩

theorem subset (walk : t.Walk ids order) : ids ⊆ order := by
  induction walk with
  | done => simp
  | visit _ _ ih =>
    exact List.cons_subset_cons _ fun x member => ih (List.mem_append_right _ member)

/-- A walk leaves out nothing that a statement on it owns. -/
theorem owned_subset (walk : t.Walk ids order) (member : x ∈ order) : t.owned x ⊆ order := by
  induction walk with
  | done => simp at member
  | visit _ rest ih =>
    rcases List.mem_cons.mp member with rfl | member
    · exact fun y owned => List.mem_cons_of_mem _ (rest.subset (List.mem_append_left _ owned))
    · exact fun y owned => List.mem_cons_of_mem _ (ih member owned)

/-- Walks from statements that have nothing in common join into one walk. -/
theorem join (h : t.Linked) (nodup : ids.Nodup)
    (apart : ∀ x ∈ ids, ∀ y ∈ ids, ∀ z, t.Within z x → t.Within z y → x = y)
    (walks : ∀ x ∈ ids, ∃ order, t.Walk [x] order ∧ order.Nodup) :
    ∃ order, t.Walk ids order ∧ order.Nodup := by
  induction ids with
  | nil => exact ⟨[], .done, .nil⟩
  | cons first rest ih =>
    obtain ⟨order, walk, nodup'⟩ := walks first List.mem_cons_self
    obtain ⟨fresh, distinct⟩ := List.nodup_cons.mp nodup
    obtain ⟨others, walk', nodup''⟩ := ih distinct
      (fun x inside y inside' => apart x (.tail _ inside) y (.tail _ inside'))
      (fun x inside => walks x (.tail _ inside))
    refine ⟨order ++ others, walk.append walk', nodup'.append nodup'' ?_⟩
    intro z member member'
    obtain ⟨x, inside, within⟩ := walk.within_of_mem h member
    obtain ⟨y, inside', within'⟩ := walk'.within_of_mem h member'
    rw [List.mem_singleton.mp inside] at within
    exact fresh (apart first List.mem_cons_self y (.tail _ inside') z within within' ▸ inside')

end Walk

namespace Linked

theorem exists_walk (h : t.Linked) (live : t.contains id) :
    ∃ order, t.Walk [id] order ∧ order.Nodup := by
  refine h.descending (motive := fun id => ∃ order, t.Walk [id] order ∧ order.Nodup) ?_ live
  intro id live walks
  obtain ⟨order, walk, nodup⟩ := Walk.join h (h.nodup_owned id)
    (fun x inside y inside' z => h.eq_of_common (h.mem_owned_iff.mp inside)
      (h.mem_owned_iff.mp inside')) walks
  refine ⟨id :: order, .visit live (by simpa using walk), List.nodup_cons.mpr ⟨?_, nodup⟩⟩
  intro member
  obtain ⟨child, owned, within⟩ := walk.within_of_mem h member
  exact h.not_within_owned (h.mem_owned_iff.mp owned) within

theorem preorder_of_walk (walk : t.Walk [id] order) (nodup : order.Nodup) :
    t.preorder id = order :=
  walk.descend_eq (length_le_size nodup fun _ => walk.contains_of_mem)

theorem walk_preorder (h : t.Linked) (live : t.contains id) : t.Walk [id] (t.preorder id) := by
  obtain ⟨order, walk, nodup⟩ := h.exists_walk live
  exact preorder_of_walk walk nodup ▸ walk

theorem nodup_preorder (h : t.Linked) (live : t.contains id) : (t.preorder id).Nodup := by
  obtain ⟨order, walk, nodup⟩ := h.exists_walk live
  exact preorder_of_walk walk nodup ▸ nodup

theorem mem_preorder_iff (h : t.Linked) (live : t.contains r) :
    x ∈ t.preorder r ↔ t.Within x r := by
  have walk := h.walk_preorder live
  constructor
  · intro member
    obtain ⟨id, inside, within⟩ := walk.within_of_mem h member
    exact List.mem_singleton.mp inside ▸ within
  · intro within
    induction within using Relation.ReflTransGen.head_induction_on with
    | refl => exact walk.subset List.mem_cons_self
    | head owned _ ih => exact walk.owned_subset ih (h.mem_owned_iff.mpr owned)

theorem mem_preorder_self (h : t.Linked) (live : t.contains r) : r ∈ t.preorder r :=
  (h.mem_preorder_iff live).mpr (.refl ..)

/-- The walk down goes through the statement and then through each of those it owns. -/
theorem preorder_eq (h : t.Linked) (live : t.contains id) :
    t.preorder id = id :: (t.owned id).flatMap t.preorder := by
  have joined : ∀ ids, (∀ x ∈ ids, t.contains x) → t.Walk ids (ids.flatMap t.preorder) := by
    intro ids
    induction ids with
    | nil => exact fun _ => .done
    | cons first rest ih =>
      intro live
      exact (h.walk_preorder (live first List.mem_cons_self)).append
        (ih fun x inside => live x (.tail _ inside))
  have children := joined (t.owned id) fun x => h.contains_owned
  exact (h.walk_preorder live).unique (.visit live (by simpa using children))

/-- What a statement owns has a smaller subtree. -/
theorem length_preorder_lt (h : t.Linked) (member : child ∈ t.owned id) :
    (t.preorder child).length < (t.preorder id).length := by
  rw [h.preorder_eq (contains_of_mem_owned member), List.length_cons, List.flatMap]
  have part := List.sublist_flatten_of_mem (List.mem_map_of_mem (f := t.preorder) member)
  exact Nat.lt_succ_of_le part.length_le

end Linked

end KernelTree.Tree
