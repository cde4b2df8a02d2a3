import KernelTree.Proofs.Loop
import KernelTree.Proofs.Tree.Copying
import KernelTree.Proofs.Tree.Traversal
/-! The walks of the tree as loops without a bound. They end because no statement is owned twice or
lies beneath itself; the bounds with which the walks are defined are never reached. -/
namespace KernelTree.Tree

variable {t t' : Tree} {id x y r owner : StmtId} {next : StmtId → List StmtId}
  {pending order seen path : List StmtId}

/-! Turns. -/

/-- Going up takes a statement and goes on from its owner. -/
def upTurn (t : Tree) (from? : Option StmtId) : Option (StmtId × Option StmtId) :=
  from?.map fun id => (id, t.parent? id)

/-- Going down takes a pending statement, lists it if it is live, and goes on with those it owns. -/
def downTurn (t : Tree) :
    List StmtId × List StmtId → Option (StmtId × (List StmtId × List StmtId))
  | ([], _) => none
  | (id :: pending, listed) =>
    some (id, match t.get? id with
      | none => (pending, listed)
      | some node => (node.stmt.owned ++ pending, listed ++ [id]))

/-- Planning a copy goes down in the same way, with a check at every statement. A failed check ends
the loop. -/
def copyTurn (t : Tree) (r : StmtId) : Except TreeError (List StmtId × List StmtId) →
    Option (StmtId × Except TreeError (List StmtId × List StmtId))
  | .error _ => none
  | .ok ([], _) => none
  | .ok (id :: pending, seen) =>
    some (id, do
      let some node := t.get? id | throw (.unsupportedClone r id .dangling)
      if id ∈ seen then throw (.unsupportedClone r id .ownedTwice)
      if let some stray := node.stmt.owned.reverse.find? (t.parent? · ≠ some id) then
        throw (.unsupportedClone r stray .strayParent)
      return (node.stmt.owned ++ pending, id :: seen))

/-- Destroying empties the slot of a pending statement, counts it and goes on with those it owned,
in whatever order they are put on the stack. -/
def destroyTurn (arrange : List StmtId → List StmtId) :
    List StmtId × Tree × Nat → Option (StmtId × (List StmtId × Tree × Nat))
  | ([], _, _) => none
  | (id :: pending, t, count) =>
    some (id, match t.get? id with
      | none => (pending, t, count)
      | some node => (arrange node.stmt.owned ++ pending, t.vacate id, count + 1))

/-! Loops over what a statement owns. -/

theorem Climbs.loop (up : t.Climbs id path) : Loop t.upTurn (some id) path none := by
  induction up with
  | top live free =>
    refine .turn rfl ?_
    rw [free]
    exact .done rfl
  | up owned rest ih =>
    refine .turn rfl ?_
    rw [owned]
    exact ih

theorem Walk.loop (walk : t.Walk pending order) (listed : List StmtId) :
    Loop t.downTurn (pending, listed) order ([], listed ++ order) := by
  induction walk generalizing listed with
  | done =>
    rw [List.append_nil]
    exact .done rfl
  | @visit id pending order live rest ih =>
    obtain ⟨node, found⟩ := Option.isSome_iff_exists.mp live
    have later := ih (listed ++ [id])
    rw [List.append_assoc, List.singleton_append, owned_of_stmt? (stmt?_of_get? found)] at later
    have taken : t.downTurn (id :: pending, listed) =
        some (id, node.stmt.owned ++ pending, listed ++ [id]) := by
      simp only [downTurn, found]
    exact .turn taken later

theorem Walk.copyLoop (h : t.Linked) (walk : t.Walk pending order) (nodup : order.Nodup)
    (fresh : ∀ x ∈ order, x ∉ seen) :
    Loop (t.copyTurn r) (.ok (pending, seen)) order (.ok ([], order.reverse ++ seen)) := by
  induction walk generalizing seen with
  | done => exact .done rfl
  | @visit id pending order live rest ih =>
    obtain ⟨node, found⟩ := Option.isSome_iff_exists.mp live
    obtain ⟨alone, nodup⟩ := List.nodup_cons.mp nodup
    have owned : t.owned id = node.stmt.owned := owned_of_stmt? (stmt?_of_get? found)
    have named : node.stmt.owned.reverse.find? (t.parent? · ≠ some id) = none := by
      simpa [← owned] using fun x member => h.mem_owned_iff.mp member
    have unseen := fresh id List.mem_cons_self
    have unseen' : ∀ x ∈ order, x ∉ id :: seen := by
      intro x member
      apply List.not_mem_cons_of_ne_of_not_mem (ne_of_mem_of_not_mem member alone)
      exact fresh x (.tail _ member)
    have later := ih nodup unseen'
    have taken : t.copyTurn r (.ok (id :: pending, seen)) =
        some (id, .ok (node.stmt.owned ++ pending, id :: seen)) := by
      simp only [copyTurn, found, if_neg unseen, named]
      rfl
    rw [owned] at later
    exact .turn taken (by simpa using later)

/-! Loops over a part of what a statement owns, in any order. -/

/-- A statement is met on the way down. -/
def Reaches (next : StmtId → List StmtId) : StmtId → StmtId → Prop :=
  Relation.ReflTransGen fun p c => c ∈ next p

namespace Linked
variable (h : t.Linked) (part : ∀ x, next x ⊆ t.owned x)
include h part

theorem within_of_reaches (met : Reaches next id x) : t.Within x id := by
  induction met with
  | refl => exact .refl ..
  | tail _ below within => exact .step (h.mem_owned_iff.mp (part _ below)) within

/-- Loops from statements of one owner join into one loop. -/
theorem join_orders {ids : List StmtId} (nodup : ids.Nodup)
    (owned : ∀ c ∈ ids, t.parent? c = some owner)
    (each : ∀ c ∈ ids, ∃ order, Loop (popTurn next) [c] order [] ∧ order.Nodup ∧
      ∀ x, x ∈ order ↔ Reaches next c x) :
    ∃ order, Loop (popTurn next) ids order [] ∧ order.Nodup ∧
      ∀ x, x ∈ order ↔ ∃ c ∈ ids, Reaches next c x := by
  induction ids with
  | nil => exact ⟨[], .done rfl, .nil, by simp⟩
  | cons first rest ih =>
    obtain ⟨fresh, distinct⟩ := List.nodup_cons.mp nodup
    obtain ⟨order, loop, once, met⟩ := each first List.mem_cons_self
    obtain ⟨others, loop', once', met'⟩ := ih distinct
      (fun c member => owned c (.tail _ member)) fun c member => each c (.tail _ member)
    refine ⟨order ++ others, loop.pop_append loop', once.append once' ?_, fun x => ?_⟩
    · intro x here there
      obtain ⟨c, member, below⟩ := (met' x).mp there
      have within := h.within_of_reaches part ((met x).mp here)
      have same := h.eq_of_common (owned first List.mem_cons_self) (owned c (.tail _ member))
        within (h.within_of_reaches part below)
      exact fresh (same ▸ member)
    · simp [met, met']

/-- A loop that goes on from each statement with some of those it owns ends, and has then met each
statement on its way once. -/
theorem exists_order (nodup : ∀ x, (next x).Nodup) (live : t.contains id) :
    ∃ order, Loop (popTurn next) [id] order [] ∧ order.Nodup ∧
      ∀ x, x ∈ order ↔ Reaches next id x := by
  refine h.descending (motive := fun id => ∃ order, Loop (popTurn next) [id] order [] ∧
    order.Nodup ∧ ∀ x, x ∈ order ↔ Reaches next id x) (fun id live each => ?_) live
  have owned c (member : c ∈ next id) := h.mem_owned_iff.mp (part id member)
  obtain ⟨order, loop, once, met⟩ := h.join_orders part (nodup id) owned fun c member =>
    each c (part id member)
  refine ⟨id :: order, .turn rfl (by simpa using loop), List.nodup_cons.mpr ⟨?_, once⟩, ?_⟩
  · intro again
    obtain ⟨c, member, below⟩ := (met id).mp again
    exact h.not_within_owned (owned c member) (h.within_of_reaches part below)
  · intro x
    rw [List.mem_cons, met]
    constructor
    · rintro (rfl | ⟨c, member, below⟩)
      · exact .refl
      · exact .head member below
    · intro below
      rcases below.cases_head with same | ⟨c, member, below⟩
      · exact .inl same.symm
      · exact .inr ⟨c, member, below⟩

end Linked

/-- Down from a live statement everything is met that lies within it. -/
theorem Linked.reaches_iff (h : t.Linked) (all : ∀ x y, y ∈ next x ↔ y ∈ t.owned x) :
    Reaches next id x ↔ t.Within x id := by
  constructor
  · exact h.within_of_reaches fun x y member => (all x y).mp member
  · intro within
    induction within using Relation.ReflTransGen.head_induction_on with
    | refl => exact .refl
    | head owned _ below => exact below.tail ((all _ _).mpr (h.mem_owned_iff.mpr owned))

/-- Destroying empties the slots of the statements on its way, in whatever order it meets them. -/
theorem exists_destroyed {arrange : List StmtId → List StmtId}
    (loop : Loop (popTurn fun x => arrange (t.owned x)) pending order []) (nodup : order.Nodup)
    (live : ∀ x ∈ order, t.contains x) (count : Nat) :
    ∃ t', Loop (destroyTurn arrange) (pending, t, count) order ([], t', count + order.length) ∧
      t.Cleared order t' ∧ t'.live = t.live := by
  induction order generalizing t pending count with
  | nil =>
    cases loop with
    | done ended => ?_
    exact ⟨t, .done rfl, ⟨by simp, by simp, rfl⟩, rfl⟩
  | cons id order ih =>
    cases loop with
    | turn taken later => ?_
    cases pending with
    | nil => cases taken
    | cons top pending => ?_
    cases taken
    obtain ⟨fresh, nodup⟩ := List.nodup_cons.mp nodup
    obtain ⟨node, found⟩ := Option.isSome_iff_exists.mp (live id List.mem_cons_self)
    have owned : t.owned id = node.stmt.owned := owned_of_stmt? (stmt?_of_get? found)
    have same x (member : x ∈ order) : (t.vacate id).get? x = t.get? x := by
      rw [get?_vacate, if_neg (ne_of_mem_of_not_mem member fresh)]
    have kept : Loop (popTurn fun x => arrange ((t.vacate id).owned x))
        (arrange (t.owned id) ++ pending) order [] :=
      later.pop_congr fun x member => by rw [Tree.owned, same x member, Tree.owned]
    have live' : ∀ x ∈ order, (t.vacate id).contains x := by
      intro x member
      rw [contains, same x member]
      exact live x (.tail _ member)
    obtain ⟨t', run, cleared, count'⟩ := ih kept nodup live' (count + 1)
    have taken : destroyTurn arrange (id :: pending, t, count) =
        some (id, arrange (t.owned id) ++ pending, t.vacate id, count + 1) := by
      simp only [destroyTurn, found, owned]
    rw [Nat.add_assoc, Nat.add_comm 1] at run
    refine ⟨t', .turn taken run, ⟨?_, ?_, cleared.size.trans slots_size_vacate⟩, count'⟩
    · intro x
      rw [cleared.get?, get?_vacate]
      by_cases same : x = id <;> simp [same]
    · have := cleared.population
      have := population_vacate (live id List.mem_cons_self)
      simp only [List.length_cons]
      omega

/-! All loops of a tree. -/

theorem length_le_population {ids : List StmtId} (nodup : ids.Nodup)
    (live : ∀ x ∈ ids, t.contains x) : ids.length ≤ t.population := by
  let filled := (t.slots.toList.zipIdx.filter (·.1.isSome)).map Prod.snd
  have count : filled.length = t.population := by
    rw [List.length_map, ← List.countP_eq_length_filter, population, ← Array.countP_toList]
    conv_rhs => rw [← List.zipIdx_map_fst 0 t.slots.toList, List.countP_map]
    rfl
  have distinct : (ids.map StmtId.index).Nodup := nodup.map fun _ _ => StmtId.ext
  have bounded : ids.map StmtId.index ⊆ filled := by
    intro i member
    obtain ⟨x, inside, rfl⟩ := List.mem_map.mp member
    obtain ⟨node, found⟩ := Option.isSome_iff_exists.mp (live x inside)
    have slot : t.slots[x.index]? = some (some node) := Option.join_eq_some_iff.mp found
    refine List.mem_map.mpr ⟨(some node, x.index), List.mem_filter.mpr ⟨?_, rfl⟩, rfl⟩
    rw [List.mem_zipIdx_iff_getElem?, Array.getElem?_toList, slot]
  rw [← count, ← List.length_map (f := StmtId.index)]
  exact (List.subperm_of_subset distinct bounded).length_le

theorem preorder_of_dead (dead : t.contains id = false) : t.preorder id = [] := by
  have absent : t.get? id = none := by simpa [contains] using dead
  rw [preorder]
  cases t.slots.size with
  | zero => rfl
  | succ steps => cases steps <;> simp [descend, absent]

/-- What the walks down take off their stack: the subtree, or a number that stands for nothing. -/
def taken (t : Tree) (id : StmtId) : List StmtId :=
  if t.contains id then t.preorder id else [id]

/-- The loops at a statement end, without any bound, and none takes a statement twice. -/
structure LoopsEnd (t : Tree) (id : StmtId) : Prop where
  up : Loop t.upTurn (if t.contains id then some id else none) (t.ancestors id) none
  chain : (t.ancestors id).Nodup ∧ (t.ancestors id).length ≤ t.live
  down : Loop t.downTurn ([id], []) (t.taken id) ([], t.preorder id)
  subtree : (t.preorder id).Nodup ∧ ∀ x, x ∈ t.preorder id ↔ t.isWithin x id
  copying : Loop (t.copyTurn id) (.ok ([id], [])) (t.taken id)
    (if t.contains id then .ok ([], (t.preorder id).reverse)
      else .error (.unsupportedClone id id .dangling))
  gathered : t.contains id → t.gather id (t.slots.size + 1) [id] [] = .ok (t.preorder id)
  /-- The walks that detaching makes when the owner has lost the statement and the statement still
  has its owner. -/
  detaching : ∀ owner s, t.parent? id = some owner → t.stmt? owner = some s →
    let left := t.updateStmt owner fun _ => (s.unlink id).1
    Loop left.downTurn ([id], []) (t.preorder id) ([], t.preorder id) ∧
      Loop left.upTurn (some owner) (t.ancestors owner) none
  removing : ∀ t₁, detach id t = .ok () t₁ → ∀ arrange, (∀ ids, (arrange ids).Perm ids) →
    ∃ order t₂, Loop (destroyTurn arrange) ([id], t₁, 0) order ([], t₂, order.length) ∧
      order.Perm (t.preorder id) ∧
      remove id t = .ok order.length { t₂ with live := t₂.live - order.length }

theorem ancestors_of_dead (dead : t.contains id = false) : t.ancestors id = [] :=
  List.eq_nil_iff_forall_not_mem.mpr fun _ around =>
    Bool.false_ne_true (dead.symm.trans (contains_of_mem_ancestors around))

namespace Linked
variable (h : t.Linked)
include h

theorem loop_up (id : StmtId) :
    Loop t.upTurn (if t.contains id then some id else none) (t.ancestors id) none := by
  cases live : t.contains id with
  | true =>
    obtain ⟨path, up⟩ := h.grounded live
    rw [up.ancestors_eq]
    exact up.loop
  | false =>
    rw [ancestors_of_dead live]
    exact .done rfl

theorem length_ancestors_le (id : StmtId) :
    (t.ancestors id).Nodup ∧ (t.ancestors id).length ≤ t.live := by
  cases live : t.contains id with
  | true =>
    obtain ⟨path, up⟩ := h.grounded live
    rw [up.ancestors_eq, h.live_eq]
    exact ⟨up.nodup, length_le_population up.nodup fun x => up.contains_of_mem⟩
  | false => simp [ancestors_of_dead live]

theorem loop_down (id : StmtId) :
    Loop t.downTurn ([id], []) (t.taken id) ([], t.preorder id) := by
  rw [taken]
  cases live : t.contains id with
  | true => exact (h.walk_preorder live).loop []
  | false =>
    have absent : t.get? id = none := by simpa [contains] using live
    have first : t.downTurn ([id], []) = some (id, [], []) := by simp only [downTurn, absent]
    rw [preorder_of_dead live]
    exact .turn first (.done rfl)

theorem mem_preorder_iff_isWithin (id : StmtId) :
    (t.preorder id).Nodup ∧ ∀ x, x ∈ t.preorder id ↔ t.isWithin x id := by
  cases live : t.contains id with
  | true =>
    have order := h.sourceOrder live
    exact ⟨order.nodup, order.mem_iff⟩
  | false =>
    rw [preorder_of_dead live]
    refine ⟨.nil, fun x => ⟨fun member => absurd member List.not_mem_nil, fun within => ?_⟩⟩
    have inner := contains_of_mem_ancestors (List.contains_iff_mem.mp within)
    have outer := h.contains_around inner ((h.isWithin_iff inner).mp within)
    exact absurd (live.symm.trans outer) Bool.false_ne_true

theorem loop_copy (id : StmtId) : Loop (t.copyTurn id) (.ok ([id], [])) (t.taken id)
    (if t.contains id then .ok ([], (t.preorder id).reverse)
      else .error (.unsupportedClone id id .dangling)) := by
  rw [taken]
  cases live : t.contains id with
  | true =>
    have loop : Loop (t.copyTurn id) (.ok ([id], [])) (t.preorder id) _ :=
      (h.walk_preorder live).copyLoop h (h.nodup_preorder live) (by simp)
    rwa [List.append_nil] at loop
  | false =>
    have absent : t.get? id = none := by simpa [contains] using live
    have first : t.copyTurn id (.ok ([id], [])) =
        some (id, .error (.unsupportedClone id id .dangling)) := by
      simp only [copyTurn, absent]
      rfl
    exact .turn first (.done rfl)

/-- The owner alone has changed when detaching walks down from the statement and up from the owner,
and it does not lie within the statement. -/
theorem loop_detach {s : Stmt} (owned : t.parent? id = some owner) :
    Loop (t.updateStmt owner fun _ => s).downTurn ([id], []) (t.preorder id)
        ([], t.preorder id) ∧
      Loop (t.updateStmt owner fun _ => s).upTurn (some owner) (t.ancestors owner) none := by
  have live := contains_of_parent? owned
  have walk := h.walk_preorder live
  obtain ⟨path, up⟩ := h.grounded (h.contains_owner owned)
  constructor
  · have walk' : (t.updateStmt owner fun _ => s).Walk [id] (t.preorder id) := by
      apply walk.congr
      intro x member
      have apart : owner ≠ x := by
        rintro rfl
        exact h.not_within_owned owned ((h.mem_preorder_iff live).mp member)
      refine ⟨contains_updateStmt.trans (walk.contains_of_mem member), ?_⟩
      rw [owned_eq, stmt?_updateStmt, if_neg apart, ← owned_eq]
    exact walk'.loop []
  · rw [up.ancestors_eq]
    exact up.updateStmt.loop

end Linked

theorem Rooted.loop_remove (h : t.Rooted) {t₁ : Tree} (run : detach id t = .ok () t₁)
    {arrange : List StmtId → List StmtId} (perm : ∀ ids, (arrange ids).Perm ids) :
    ∃ order t₂, Loop (destroyTurn arrange) ([id], t₁, 0) order ([], t₂, order.length) ∧
      order.Perm (t.preorder id) ∧
      remove id t = .ok order.length { t₂ with live := t₂.live - order.length } := by
  obtain ⟨e, failed⟩ | ⟨t₁', t₂', run', -, linked, live, -, cleared, count, removed⟩ :=
    h.toLinked.remove_cases id
  · cases (TreeM.bind_ok run).symm.trans failed
  cases run.symm.trans run'
  have same : t₁.preorder id = t.preorder id := by
    obtain ⟨e, held⟩ | ⟨-, -, done⟩ | ⟨owner, s, owned, found, free, done⟩ := h.detach_outcome id
    · cases run.symm.trans (h.detach_of_held held)
    · cases run.symm.trans done
      rfl
    · cases run.symm.trans done
      exact (h.detached owned found free).preorder_eq h.toLinked (contains_of_parent? owned)
  have each x y : y ∈ arrange (t₁.owned x) ↔ y ∈ t₁.owned x := (perm _).mem_iff
  obtain ⟨order, loop, nodup, met⟩ := linked.exists_order (fun x y => (each x y).mp)
    (fun x => (perm _).nodup_iff.mpr (linked.nodup_owned x)) live
  have listed x : x ∈ order ↔ x ∈ t₁.preorder id := by
    rw [met, linked.reaches_iff each, linked.mem_preorder_iff live]
  have rearranged : order.Perm (t₁.preorder id) :=
    (List.perm_ext_iff_of_nodup nodup (linked.nodup_preorder live)).mpr listed
  obtain ⟨t₂, destroyed, cleared', count'⟩ := exists_destroyed loop nodup
    (fun x member => (linked.walk_preorder live).contains_of_mem ((listed x).mp member)) 0
  rw [Nat.zero_add] at destroyed
  refine ⟨order, t₂, destroyed, same ▸ rearranged, removed.trans ?_⟩
  rw [rearranged.length_eq, count']
  congr 1
  apply eq_of_get?
  · exact cleared.size.trans cleared'.size.symm
  · exact count
  · intro i _
    have emptied : t₂.get? ⟨i⟩ = t₂'.get? ⟨i⟩ := by simp only [cleared'.get?, cleared.get?, listed]
    exact emptied.symm

theorem Rooted.loopsEnd (h : t.Rooted) (id : StmtId) : t.LoopsEnd id where
  up := h.loop_up id
  chain := h.length_ancestors_le id
  down := h.loop_down id
  subtree := h.mem_preorder_iff_isWithin id
  copying := h.loop_copy id
  gathered live := h.gather_eq live
  detaching _ _ owned _ := h.loop_detach owned
  removing _ run _ perm := h.loop_remove run perm

end KernelTree.Tree
