import KernelTree.Proofs.Statement.Places
import KernelTree.Proofs.Tree.Nodes
import KernelTree.Proofs.Tree.Scoping
/-! Taking a statement away from its owner, exactly: when that is refused, which place is vacated,
and which names are forgotten in which containers. -/
namespace KernelTree.Tree

variable {t t' : Tree} {id x owner start d : StmtId} {s : Stmt} {e : TreeError} {name : String}

/-- The condition of a live statement. -/
def condition? (t : Tree) (id : StmtId) : Option StmtId := (t.stmt? id).bind (·.condition?)

/-- What a live statement owns, each with its place. -/
def places (t : Tree) (id : StmtId) : List (Stmt.Role × StmtId) :=
  ((t.stmt? id).map (·.places)).getD []

theorem condition?_of_stmt? (h : t.stmt? id = some s) : t.condition? id = s.condition? := by
  simp [condition?, h]

/-- Why a statement cannot be taken away. -/
inductive Held (t : Tree) (id : StmtId) : TreeError → Prop
  | root (isRoot : id = root) : Held t id (.root id)
  | unknown (absent : t.contains id = false) : Held t id (.unknownStatement id)
  | condition {owner : StmtId} (owned : t.parent? id = some owner)
    (held : t.condition? owner = some id) : Held t id (.requiredSlot id owner)

theorem Rooted.detach_of_held (h : t.Rooted) (held : t.Held id e) :
    detach id t = .error e t := by
  cases held with
  | root isRoot => rw [detach, if_pos isRoot]; rfl
  | unknown absent =>
    have notRoot : id ≠ Tree.root := by
      rintro rfl
      simp [h.contains_root] at absent
    rw [detach, if_neg notRoot]
    exact TreeM.bind_error (TreeM.check_error (require_error_iff.mpr ⟨absent, rfl⟩))
  | @condition owner owned held =>
    have notRoot : id ≠ Tree.root := by
      rintro rfl
      simp [h.root_free] at owned
    obtain ⟨node, found, parent⟩ := Option.bind_eq_some_iff.mp owned
    obtain ⟨path, up⟩ := h.grounded (h.contains_owner owned)
    obtain ⟨ownerNode, ownerFound⟩ := Option.isSome_iff_exists.mp up.contains
    have ownerStmt := stmt?_of_get? ownerFound
    have nodup := owned_of_stmt? ownerStmt ▸ h.nodup_owned owner
    have held := (condition?_of_stmt? ownerStmt).symm.trans held
    rw [detach_of_owned notRoot found parent ownerFound up,
      Stmt.unlink_of_condition? nodup held]

/-- All that detaching can do, with the cause of every refusal. -/
theorem Rooted.detach_outcome (h : t.Rooted) (id : StmtId) :
    (∃ e, t.Held id e) ∨
    (t.contains id ∧ t.parent? id = none ∧ detach id t = .ok () t) ∨
    ∃ owner s, t.parent? id = some owner ∧ t.stmt? owner = some s ∧ s.condition? ≠ some id ∧
      detach id t = .ok () (t.withdrawn id owner (s.without id)) := by
  by_cases isRoot : id = root
  · exact .inl ⟨_, .root isRoot⟩
  cases found : t.get? id with
  | none => exact .inl ⟨_, .unknown (by simp [contains, found])⟩
  | some node =>
    have parent := parent?_of_get? found
    cases owned : node.parent with
    | none =>
      exact .inr (.inl ⟨by simp [contains, found], parent.trans owned,
        detach_of_free isRoot found owned⟩)
    | some owner =>
      obtain ⟨path, up⟩ := h.grounded (h.contains_owner (parent.trans owned))
      obtain ⟨ownerNode, ownerFound⟩ := Option.isSome_iff_exists.mp up.contains
      have ownerStmt := stmt?_of_get? ownerFound
      by_cases held : ownerNode.stmt.condition? = some id
      · have held := (condition?_of_stmt? ownerStmt).trans held
        exact .inl ⟨_, .condition (parent.trans owned) held⟩
      · have nodup := owned_of_stmt? ownerStmt ▸ h.nodup_owned owner
        have member := owned_of_stmt? ownerStmt ▸ h.mem_owned_iff.mpr (parent.trans owned)
        refine .inr (.inr ⟨owner, _, parent.trans owned, ownerStmt, held, ?_⟩)
        rw [detach_of_owned isRoot found owned ownerFound up, Stmt.unlink_of_mem nodup member held]

/-! What a statement that was taken away leaves behind. -/

/-- What is left of the statement of number `x` when `id` is taken from `owner`: the owner is
without it, and the containers around forget what its subtree declared. -/
def remainder (t : Tree) (id owner x : StmtId) (s : Stmt) : Stmt :=
  let left := if x = owner then s.without id else s
  if x ∈ t.ancestors owner then left.mapScope (·.filter (!(t.preorder id).contains ·)) else left

section remainder
variable (t : Tree) (id owner x : StmtId) (s : Stmt)

theorem places_remainder :
    (t.remainder id owner x s).places = (if x = owner then s.without id else s).places := by
  simp only [remainder]
  split
  · exact Stmt.places_mapScope ..
  · rfl

theorem owned_remainder :
    (t.remainder id owner x s).owned = (if x = owner then s.without id else s).owned := by
  rw [← Stmt.map_snd_places, ← Stmt.map_snd_places, places_remainder]

theorem scope?_remainder : (t.remainder id owner x s).scope? = s.scope?.map fun names =>
    if x ∈ t.ancestors owner then names.filter (!(t.preorder id).contains ·) else names := by
  have same : (if x = owner then s.without id else s).scope? = s.scope? := by
    split
    · exact Stmt.scope?_without ..
    · rfl
  simp only [remainder]
  split
  · rw [Stmt.scope?_mapScope, same]
  · rw [same, Option.map_id']

end remainder

/-- The effect of taking `id` from `owner`. -/
structure Detached (t : Tree) (id owner : StmtId) (t' : Tree) : Prop where
  size : t'.slots.size = t.slots.size
  live : t'.live = t.live
  node : ∀ x, t'.get? x = (t.get? x).map fun node =>
    { node with
      parent := if x = id then none else node.parent
      stmt := t.remainder id owner x node.stmt }
  /-- The owner has lost that statement only, and the others have kept their places. -/
  places : ∀ x, t'.places x = if x = owner then (t.places x).filter (·.2 ≠ id) else t.places x
  owned : ∀ x, t'.owned x = if x = owner then (t.owned x).erase id else t.owned x
  parent? : ∀ x, t'.parent? x = if x = id then none else t.parent? x
  /-- Only what was around forgets names, and only those that lead into the subtree. -/
  scope? : ∀ x, t'.scope? x = (t.scope? x).map fun names =>
    if x ∈ t.ancestors owner then names.filter (!(t.preorder id).contains ·) else names
  itself : t'.get? id = (t.get? id).map ({ · with parent := none })
  others : ∀ x, x ≠ id → x ∉ t.ancestors owner → t'.get? x = t.get? x
  subtree : ∀ x ∈ t.preorder id, x ∉ t.ancestors owner

theorem Linked.get?_withdrawn (h : t.Linked) (owned : t.parent? id = some owner)
    (found : t.stmt? owner = some s) (x : StmtId) :
    (t.withdrawn id owner (s.without id)).get? x = (t.get? x).map fun node =>
      { node with
        parent := if x = id then none else node.parent
        stmt := t.remainder id owner x node.stmt } := by
  obtain ⟨path, up⟩ := h.grounded (contains_of_stmt? found)
  have around : t.ancestors owner = path := up.ancestors_eq
  have nodup : (t.ancestors owner).Nodup := around ▸ up.nodup
  have ownerAround : owner ∈ t.ancestors owner := around ▸ up.mem_iff.mpr (.refl ..)
  obtain ⟨ownerNode, ownerFound, same⟩ := Option.map_eq_some_iff.mp found
  subst same
  have purged : ((t.updateStmt owner fun _ => ownerNode.stmt.without id).purged (t.preorder id)
      (t.ancestors owner)).get? x =
      (t.get? x).map fun node => { node with stmt := t.remainder id owner x node.stmt } := by
    by_cases inside : x ∈ t.ancestors owner
    · rw [get?_purged_of_mem nodup inside, updateStmt, get?_update]
      by_cases same : owner = x
      · subst same
        simp [ownerFound, remainder, inside]
      · simp only [remainder, inside, same, Ne.symm same, if_true, if_false]
    · have differs : owner ≠ x := by
        rintro rfl
        exact inside ownerAround
      rw [get?_purged inside, updateStmt, get?_update]
      simp [remainder, inside, differs, Ne.symm differs]
  rw [h.withdrawn_eq owned, setParent, get?_update, purged]
  by_cases same : id = x
  · simp [same, Function.comp_def]
  · simp [same, Ne.symm same]

/-- The subtree lies beneath the owner, so nothing of it is around the owner. -/
theorem Linked.not_mem_ancestors_of_mem_preorder (h : t.Linked) (owned : t.parent? id = some owner)
    (inside : x ∈ t.preorder id) : x ∉ t.ancestors owner := by
  intro around
  have below := (h.mem_preorder_iff (contains_of_parent? owned)).mp inside
  have above := (h.mem_ancestors_iff (h.contains_owner owned)).mp around
  exact h.not_within_owned owned (above.trans below)

theorem Linked.detached (h : t.Linked) (owned : t.parent? id = some owner)
    (found : t.stmt? owner = some s) (free : s.condition? ≠ some id) :
    t.Detached id owner (t.withdrawn id owner (s.without id)) := by
  have node := h.get?_withdrawn owned found
  have live := contains_of_parent? owned
  have nodup := owned_of_stmt? found ▸ h.nodup_owned owner
  have ownerAround : owner ∈ t.ancestors owner :=
    (h.mem_ancestors_iff (h.contains_owner owned)).mpr (.refl ..)
  have stmt (x : StmtId) : (t.withdrawn id owner (s.without id)).stmt? x =
      (t.stmt? x).map (t.remainder id owner x) := by
    simp [stmt?, node, Function.comp_def]
  constructor
  case size => simp [Tree.withdrawn, setParent, updateStmt]
  case live => exact live_purged
  case node => exact node
  case places =>
    intro x
    by_cases same : x = owner
    · subst same
      simp [Tree.places, stmt, found, places_remainder, Stmt.places_without nodup free]
    · simp [Tree.places, stmt, same, places_remainder, Function.comp_def]
  case owned =>
    intro x
    by_cases same : x = owner
    · subst same
      have member := owned_of_stmt? found ▸ h.mem_owned_iff.mpr owned
      have released := Stmt.released_of_unlink nodup (Stmt.unlink_of_mem nodup member free)
      simp [owned_eq, stmt, found, owned_remainder, released.owned]
    · simp [owned_eq, stmt, same, owned_remainder, Function.comp_def]
  case parent? =>
    intro x
    rw [parent?_withdrawn live]
    simp only [eq_comm]
  case scope? =>
    intro x
    rw [scope?_eq, scope?_eq, stmt]
    cases t.stmt? x with
    | none => rfl
    | some s => exact scope?_remainder ..
  case itself =>
    have outside := h.not_mem_ancestors_of_mem_preorder owned (h.mem_preorder_self live)
    have notOwner : id ≠ owner := by
      rintro rfl
      exact outside ownerAround
    simp [node, remainder, outside, notOwner]
  case others =>
    intro x differs outside
    have notOwner : x ≠ owner := by
      rintro rfl
      exact outside ownerAround
    simp [node, remainder, differs, outside, notOwner]
  case subtree => exact fun x => h.not_mem_ancestors_of_mem_preorder owned

/-- The subtree of a statement stays the same when it is taken away. -/
theorem Detached.preorder_eq (effect : t.Detached id owner t') (h : t.Linked)
    (live : t.contains id) : t'.preorder id = t.preorder id := by
  have walk := h.walk_preorder live
  refine Linked.preorder_of_walk (walk.congr fun x inside => ?_) (h.nodup_preorder live)
  have outside := effect.subtree x inside
  constructor
  · rw [contains, effect.node, Option.isSome_map]
    exact walk.contains_of_mem inside
  · rw [effect.owned, if_neg]
    rintro rfl
    exact outside ((h.mem_ancestors_iff (walk.contains_of_mem inside)).mpr (.refl ..))

/-! Names. -/

/-- A statement outside of a subtree that nobody owns sees no name from inside. -/
theorem Enclosed.not_mem_of_resolve (enclosed : t.Enclosed) (h : t.Linked) (live : t.contains id)
    (free : t.parent? id = none) (apart : start ∉ t.preorder id)
    (resolved : t.resolve start name = some d) : d ∉ t.preorder id := by
  intro inside
  have beneath := (h.mem_preorder_iff live).mp inside
  obtain ⟨c, around, bound⟩ := exists_of_resolve resolved
  have within := (h.mem_ancestors_iff (contains_of_mem_ancestors around)).mp around
  obtain ⟨names, there, entry⟩ := Option.bind_eq_some_iff.mp bound
  rw [scope?_eq] at there
  obtain ⟨s, found, scope⟩ := Option.bind_eq_some_iff.mp there
  have below : t.Within d c := by
    apply enclosed c s found d
    rw [Stmt.targets_eq, scope]
    exact List.mem_map_of_mem (Scope.mem_of_get? entry)
  have within : t.Within start id := by
    rcases below.total beneath with inner | outer
    · exact within.trans inner
    · exact outer.eq_of_free free ▸ within
  exact apart ((h.mem_preorder_iff live).mpr within)

/-- Taking a statement away is refused for the root, for a number that stands for no statement and
for a condition, and then changes nothing. Otherwise it changes what `Detached` says, and no name is
found from outside of the subtree that leads into it. -/
theorem Reachable.detach_effect (h : Reachable Stmt.Bare t) (id : StmtId) :
    (∀ e t', detach id t = .error e t' ↔ t' = t ∧ t.Held id e) ∧
    ((∃ t', detach id t = .ok () t') ↔ ∀ e, ¬ t.Held id e) ∧
    ∀ t', detach id t = .ok () t' →
      (t.parent? id = none → t' = t) ∧
      (∀ owner, t.parent? id = some owner → t.Detached id owner t') ∧
      ∀ start, start ∉ t.preorder id → ∀ name d, t'.resolve start name = some d →
        d ∉ t.preorder id := by
  have rooted := h.rooted
  have linked := rooted.toLinked
  refine ⟨?_, ?_, ?_⟩
  · intro e t'
    constructor
    · intro refused
      obtain ⟨e', held⟩ | ⟨-, -, run⟩ | ⟨owner, s, -, -, -, run⟩ := rooted.detach_outcome id
      · cases refused.symm.trans (rooted.detach_of_held held)
        exact ⟨rfl, held⟩
      · cases refused.symm.trans run
      · cases refused.symm.trans run
    · rintro ⟨rfl, held⟩
      exact rooted.detach_of_held held
  · constructor
    · rintro ⟨t', run⟩ e held
      cases run.symm.trans (rooted.detach_of_held held)
    · intro free
      obtain ⟨e, held⟩ | ⟨-, -, run⟩ | ⟨owner, s, -, -, -, run⟩ := rooted.detach_outcome id
      · exact absurd held (free e)
      · exact ⟨_, run⟩
      · exact ⟨_, run⟩
  · intro t' run
    obtain ⟨e, held⟩ | ⟨live, free, run'⟩ | ⟨owner, s, owned, found, free, run'⟩ :=
      rooted.detach_outcome id
    · cases run.symm.trans (rooted.detach_of_held held)
    · cases run.symm.trans run'
      refine ⟨fun _ => rfl, ?_, ?_⟩
      · rintro owner owned
        simp [free] at owned
      · intro start apart name d resolved
        exact h.enclosed.not_mem_of_resolve linked live free apart resolved
    · cases run.symm.trans run'
      have effect := linked.detached owned found free
      have live := contains_of_parent? owned
      refine ⟨?_, ?_, ?_⟩
      · intro unowned
        simp [owned] at unowned
      · intro owner' owned'
        cases owned.symm.trans owned'
        exact effect
      · intro start apart name d resolved
        have nodup := owned_of_stmt? found ▸ linked.nodup_owned owner
        have member := owned_of_stmt? found ▸ linked.mem_owned_iff.mpr owned
        have taken := Stmt.unlink_of_mem nodup member free
        have same := effect.preorder_eq linked live
        rw [← same] at apart ⊢
        refine (h.enclosed.withdrawn linked owned found taken).not_mem_of_resolve
          (linked.withdrawn owned found taken) (contains_withdrawn.trans live) ?_ apart resolved
        rw [effect.parent?, if_pos rfl]

/-- The start of a `for` that is declared in the loop and around it is taken away. Its test moves
nowhere, and another name stays declared. The condition of a `while` cannot be taken. -/
theorem detach_effect_of_start :
    let value := Expr.ident ⟨.identifier, "a", .none⟩
    let calls : List Change := [
      .add (.declaration []) .none, .addExpr value,
      .push root (.forLoop (some ⟨1⟩) (some ⟨2⟩) none .empty), .declare ⟨3⟩ "i" ⟨1⟩,
      .declare root "i" ⟨1⟩, .declare root "loop" ⟨3⟩, .addExpr value,
      .push root (.whileLoop ⟨4⟩ .empty false)]
    let t := initial.run calls
    Reachable Stmt.Bare t ∧ t.resolve ⟨2⟩ "i" = some ⟨1⟩ ∧
      detach ⟨4⟩ t = .error (.requiredSlot ⟨4⟩ ⟨5⟩) t ∧
      ∃ t', detach ⟨1⟩ t = .ok () t' ∧ t.Detached ⟨1⟩ ⟨3⟩ t' ∧
        t'.places ⟨3⟩ = [(.test, ⟨2⟩)] ∧ t'.resolve ⟨2⟩ "i" ≠ some ⟨1⟩ ∧
        t'.resolve ⟨2⟩ "loop" = some ⟨3⟩ := by
  intro value calls t
  have h : Reachable Stmt.Bare t := Reachable.initial.run (by decide)
  have start : t.parent? ⟨1⟩ = some ⟨3⟩ := by decide +kernel
  have plain : t.condition? ⟨3⟩ = none := by decide +kernel
  have owned : t.parent? ⟨4⟩ = some ⟨5⟩ := by decide +kernel
  have held : t.condition? ⟨5⟩ = some ⟨4⟩ := by decide +kernel
  have free : ∀ e, ¬ t.Held ⟨1⟩ e := by
    rintro _ (isRoot | absent | ⟨owned', held'⟩)
    · cases isRoot
    · simp [contains_of_parent? start] at absent
    · cases start.symm.trans owned'
      simp [plain] at held'
  have refused := ((h.detach_effect ⟨4⟩).1 _ _).mpr ⟨rfl, .condition owned held⟩
  obtain ⟨t', run⟩ := (h.detach_effect ⟨1⟩).2.1.mpr free
  obtain ⟨-, effect, names⟩ := (h.detach_effect ⟨1⟩).2.2 t' run
  have effect := effect ⟨3⟩ start
  have apart : ⟨2⟩ ∉ t.preorder ⟨1⟩ := by decide +kernel
  have places : t.places ⟨3⟩ = [(.init, ⟨1⟩), (.test, ⟨2⟩)] := by decide +kernel
  refine ⟨h, by decide +kernel, refused, t', run, effect, ?_, ?_, ?_⟩
  · rw [effect.places, if_pos rfl, places]
    rfl
  · intro still
    exact names ⟨2⟩ apart "i" ⟨1⟩ still (by decide +kernel)
  · rw [← TreeM.after_ok run]
    decide +kernel

end KernelTree.Tree
