import KernelTree.Proofs.Tree.Reachable
/-! Names. Where every statement is made with an empty block, a name declared in a container is
bound to a statement of its subtree, whatever else happens to the tree. -/
namespace KernelTree

/-- The block of a container is empty. -/
def Stmt.Bare (s : Stmt) : Prop := ∀ body ∈ s.body?, body.children = [] ∧ body.scope.entries = []

instance (s : Stmt) : Decidable s.Bare :=
  inferInstanceAs (Decidable (∀ body ∈ s.body?, body.children = [] ∧ body.scope.entries = []))

theorem Stmt.targets_of_bare {s : Stmt} (bare : s.Bare) : s.targets = [] := by
  unfold targets
  cases found : s.body? with
  | none => rfl
  | some body => simp [Scope.targets, (bare body found).2]

namespace Tree

variable {shared : Tree → Prop} {t t' source : Tree} {id x y r c d owner start : StmtId}
  {name : String}

/-- Every declared name is bound to a statement of the subtree of its container. -/
def Enclosed (t : Tree) : Prop :=
  ∀ c s, t.stmt? c = some s → ∀ d ∈ s.targets, t.Within d c

/-- A way up that does not pass from `id` to its owner is left when that link is cut. -/
theorem Within.cut (parents : ∀ x, t'.parent? x = if id = x then none else t.parent? x)
    (within : t.Within d c) (apart : ∀ owner, t.parent? id = some owner → t.Within d id →
      ¬ t.Within owner c) : t'.Within d c := by
  induction within using Relation.ReflTransGen.head_induction_on with
  | refl => exact .refl ..
  | @head d m owned within ih =>
    have differs : id ≠ d := by
      rintro rfl
      exact apart m owned (.refl ..) within
    apply Within.step (by rw [parents, if_neg differs, owned])
    apply ih
    intro owner parent below
    exact apart owner parent (.step owned below)

namespace Enclosed

theorem give (enclosed : t.Enclosed) {child : StmtId} {f : Stmt → Stmt}
    (fits : t.Attachable owner child) (found : t.stmt? owner = some s)
    (gains : t.Gains child s (f s)) :
    (t.give owner child f).Enclosed := by
  intro c s' stmt d bound
  have kept : t.Within d c := by
    rw [stmt?_give found] at stmt
    split at stmt
    next same =>
      cases stmt
      rw [Stmt.targets_eq, gains.scope?, ← Stmt.targets_eq] at bound
      exact same ▸ enclosed _ _ found d bound
    next => exact enclosed _ _ stmt d bound
  apply kept.mono
  intro x p owned
  rw [parent?_give fits.child_live, if_neg, owned]
  rintro rfl
  simp [fits.free] at owned

theorem extended (enclosed : t.Enclosed) {span : Span} (bare : s.Bare) (fits : t.Addable s) :
    (t.extended s span).Enclosed := by
  intro c s' stmt d bound
  rw [stmt?_extended] at stmt
  split at stmt
  next =>
    cases stmt
    simp [Stmt.targets_of_bare bare] at bound
  next =>
    apply (enclosed _ _ stmt d bound).mono
    intro x p owned
    rw [parent?_extended fits, if_neg, owned]
    intro member
    simp [fits.free x member] at owned

theorem declare (enclosed : t.Enclosed) (inside : t.Within d c) :
    (t.updateStmt c (.mapScope (·.insertIfNew name d))).Enclosed := by
  intro x s stmt y bound
  have kept : t.Within y x := by
    rw [stmt?_updateStmt] at stmt
    split at stmt
    next same =>
      obtain ⟨s, found, rfl⟩ := Option.map_eq_some_iff.mp stmt
      rw [Stmt.targets_eq, Stmt.scope?_mapScope] at bound
      cases scope : s.scope? with
      | none => simp [scope] at bound
      | some names =>
        simp only [scope, Option.map_some, Option.getD_some] at bound
        obtain ⟨e, entry, rfl⟩ := List.mem_map.mp bound
        rcases Scope.mem_place entry with rfl | old
        · exact same ▸ inside
        · apply enclosed _ _ found
          rw [Stmt.targets_eq, scope]
          exact List.mem_map_of_mem old
    next => exact enclosed _ _ stmt y bound
  exact kept.mono fun owned => parent?_updateStmt.trans owned

theorem withdrawn (h : t.Linked) (enclosed : t.Enclosed) (owned : t.parent? id = some owner)
    (found : t.stmt? owner = some s) (taken : s.unlink id = (rest, true)) :
    (t.withdrawn id owner rest).Enclosed := by
  intro c s' stmt d bound
  have live := contains_of_parent? owned
  have ownerLive := contains_of_stmt? found
  have nodup : s.owned.Nodup := owned_of_stmt? found ▸ h.nodup_owned owner
  have released := Stmt.released_of_unlink nodup taken
  -- What was bound before and, in a container around, was not inside the detached subtree.
  have kept : t.Within d c ∧ (t.Within owner c → ¬ t.Within d id) := by
    rw [h.stmt?_withdrawn owned found] at stmt
    split at stmt
    next around =>
      obtain ⟨s₁, before, rfl⟩ := Option.map_eq_some_iff.mp stmt
      rw [Stmt.targets_eq, Stmt.scope?_mapScope] at bound
      have was : d ∈ s₁.targets ∧ d ∉ t.preorder id := by
        rw [Stmt.targets_eq]
        cases scope : s₁.scope? with
        | none => simp [scope] at bound
        | some names =>
          simp only [scope, Option.map_some, Option.getD_some] at bound ⊢
          obtain ⟨e, entry, rfl⟩ := List.mem_map.mp bound
          obtain ⟨entry, away⟩ := List.mem_filter.mp entry
          exact ⟨List.mem_map_of_mem entry, by simpa using away⟩
      refine ⟨?_, fun _ below => was.2 ((h.mem_preorder_iff live).mpr below)⟩
      split at before
      next same =>
        cases before
        rw [Stmt.targets_eq, released.scope?, ← Stmt.targets_eq] at was
        exact same ▸ enclosed _ _ found d was.1
      next => exact enclosed _ _ before d was.1
    next outside =>
      exact ⟨enclosed _ _ stmt d bound,
        fun around => absurd ((h.mem_ancestors_iff ownerLive).mpr around) outside⟩
  apply kept.1.cut fun x => parent?_withdrawn live
  intro p parent below around
  cases Option.some.inj (owned.symm.trans parent)
  exact kept.2 around below

theorem cleared (h : t.Linked) (enclosed : t.Enclosed) (live : t.contains id)
    (free : t.parent? id = none) (cleared : t.Cleared (t.preorder id) t') : t'.Enclosed := by
  intro c s stmt d bound
  rw [cleared.stmt?] at stmt
  split at stmt
  next => cases stmt
  next outside =>
    have within := enclosed _ _ stmt d bound
    clear bound
    induction within using Relation.ReflTransGen.head_induction_on with
    | refl => exact .refl ..
    | @head d m owned within ih =>
      refine .step ?_ ih
      rw [cleared.parent?, if_neg, owned]
      intro gone
      have below := (h.mem_preorder_iff live).mp gone
      rcases below.total (.step owned within) with around | inside
      · exact outside ((h.mem_preorder_iff live).mpr (around.eq_of_free free ▸ .refl ..))
      · exact outside ((h.mem_preorder_iff live).mpr inside)

theorem copied (enclosed : t.Enclosed) (hs : source.Linked) (foreign : source.Enclosed)
    (live : source.contains r) (copied : Copied source r ρ t t') : t'.Enclosed := by
  intro c s stmt d bound
  rcases copied.origin (contains_of_stmt? stmt) with ⟨y, member, rfl⟩ | old
  · rw [copied.stmt?_image member] at stmt
    obtain ⟨s, found, rfl⟩ := Option.map_eq_some_iff.mp stmt
    rw [Stmt.targets_map] at bound
    obtain ⟨d, original, rfl⟩ := List.mem_map.mp bound
    exact copied.within_image hs live member (foreign _ _ found d original)
  · rw [copied.stmt?_kept old] at stmt
    exact (enclosed _ _ stmt d bound).mono fun owned =>
      (copied.parent?_kept (contains_of_parent? owned)).trans owned

end Enclosed

/-- In a linked tree with sound names every subtree can be copied. -/
theorem Enclosed.closed (h : t.Linked) (enclosed : t.Enclosed) (live : t.contains r) :
    t.Closed r := by
  intro x member s found d bound
  have within := (h.mem_preorder_iff live).mp member
  exact (h.mem_preorder_iff live).mpr ((enclosed _ _ found d bound).trans within)

/-- A whole tree can always be forked. -/
theorem Enclosed.exists_fork (enclosed : t.Enclosed) (h : t.Rooted) :
    ∃ t', t.fork = .ok t' ∧ Copied t root (t.image root 0) void t' := by
  have live := h.contains_root
  have closed := enclosed.closed h.toLinked live
  obtain ⟨planned, made⟩ := h.exists_planned live closed 0
  obtain ⟨-, fits⟩ := (h.planCopy_ok_iff live).mp made
  have forked := (fork_ok_iff h.toLinked live).mpr ⟨closed, planned, fits, rfl⟩
  exact ⟨_, forked, copied_of_fork h.toLinked live forked⟩

theorem Edit.enclosed (h : t.Linked) (enclosed : t.Enclosed)
    (sources : ∀ s, shared s → s.Linked ∧ s.Enclosed) (edit : Edit Stmt.Bare shared t t') :
    t'.Enclosed := by
  cases edit with
  | give fits found gains => exact enclosed.give fits found gains
  | make bare fits => exact enclosed.extended bare fits
  | declare live inside => exact enclosed.declare ((h.isWithin_iff live).mp inside)
  | withdraw owned found taken => exact enclosed.withdrawn h owned found taken
  | clear _ live free cleared _ => exact enclosed.cleared h live free cleared
  | copy origin live copied =>
    obtain ⟨hs, foreign⟩ := sources _ origin
    exact enclosed.copied hs foreign live copied

theorem Edits.enclosed (h : t.Linked) (enclosed : t.Enclosed)
    (sources : ∀ s, shared s → s.Linked ∧ s.Enclosed) (edits : Edits Stmt.Bare shared t t') :
    t'.Linked ∧ t'.Enclosed := by
  induction edits with
  | refl => exact ⟨h, enclosed⟩
  | tail _ edit ih =>
    exact ⟨edit.linked ih.1 fun s shares => (sources s shares).1, edit.enclosed ih.1 ih.2 sources⟩

theorem enclosed_initial : initial.Enclosed := by
  intro c s found d bound
  have bare : s.targets = [] := by
    obtain ⟨node, there, rfl⟩ := Option.map_eq_some_iff.mp found
    obtain ⟨index⟩ := c
    cases index with
    | zero =>
      cases there
      rfl
    | succ => simp [get?, initial] at there
  simp [bare] at bound

theorem enclosed_void : void.Enclosed := by
  intro c s found
  simpa [contains_void] using contains_of_stmt? found

theorem Reachable.enclosed (h : Reachable Stmt.Bare t) : t.Enclosed := by
  induction h with
  | initial => exact enclosed_initial
  | change h c payload ih =>
    have linked := h.rooted.toLinked
    have edits : Edits Stmt.Bare (fun s => s.Linked ∧ s.Enclosed) _ _ :=
      c.edits linked ⟨linked, ih⟩ payload
    exact (edits.enclosed linked ih fun _ sound => sound).2
  | @copyFrom _ t hs h r owner ihs ih =>
    have linked := h.rooted.toLinked
    have source := hs.rooted.toLinked
    have edits : Edits Stmt.Bare (fun s => s.Linked ∧ s.Enclosed) t _ :=
      .copyFrom source ⟨source, ihs⟩ r owner t
    exact (edits.enclosed linked ih fun _ sound => sound).2
  | fork h made ih =>
    have rooted := h.rooted
    exact enclosed_void.copied rooted.toLinked ih rooted.contains_root
      (copied_of_fork rooted.toLinked rooted.contains_root made)

theorem exists_of_resolve (found : t.resolve start name = some d) :
    ∃ c ∈ t.ancestors start, (t.scope? c).bind (·.get? name) = some d :=
  List.exists_of_findSome?_eq_some found

/-- A name bound in a container stands for a live statement of its subtree, and so a name that is
resolved stands for a live statement inside one of the containers around. -/
theorem Reachable.names_sound (h : Reachable Stmt.Bare t) :
    (∀ c scope, t.scope? c = some scope → ∀ name d, (name, d) ∈ scope.entries →
      t.contains d ∧ d ∈ t.preorder c) ∧
    ∀ start, t.contains start → ∀ name d, t.resolve start name = some d →
      t.contains d ∧ ∃ c ∈ t.ancestors start, d ∈ t.preorder c ∧
        (t.scope? c).bind (·.get? name) = some d := by
  have linked := h.rooted.toLinked
  have inside {c : StmtId} {scope : Scope} (there : t.scope? c = some scope) {name : String}
      {d : StmtId} (entry : (name, d) ∈ scope.entries) : t.contains d ∧ d ∈ t.preorder c := by
    rw [scope?_eq] at there
    obtain ⟨s, found, names⟩ := Option.bind_eq_some_iff.mp there
    have within : t.Within d c := by
      apply h.enclosed _ _ found d
      rw [Stmt.targets_eq, names]
      exact List.mem_map_of_mem entry
    have live := contains_of_stmt? found
    exact ⟨within.contains live, (linked.mem_preorder_iff live).mpr within⟩
  refine ⟨fun c scope there name d entry => inside there entry, ?_⟩
  intro start _ name d resolved
  obtain ⟨c, around, bound⟩ := exists_of_resolve resolved
  obtain ⟨scope, there, entry⟩ := Option.bind_eq_some_iff.mp bound
  obtain ⟨live, below⟩ := inside there (Scope.mem_of_get? entry)
  exact ⟨live, c, around, below, bound⟩

/-- A block is copied and then detached together with a declaration of its own. The copy keeps a
declaration of its own for the name, which the root has forgotten. -/
theorem names_sound_of_copied_block :
    let calls : List Change := [
      .push root (.block .empty), .push ⟨1⟩ (.declaration []), .declare root "x" ⟨2⟩,
      .declare ⟨1⟩ "x" ⟨2⟩, .clone ⟨1⟩ (some root), .detach ⟨1⟩]
    let t := initial.run calls
    Reachable Stmt.Bare t ∧ t.contains ⟨4⟩ ∧ t.resolve ⟨4⟩ "x" = some ⟨4⟩ ∧
      t.resolve ⟨1⟩ "x" = some ⟨2⟩ ∧ t.resolve root "x" = none ∧
      ∃ c ∈ t.ancestors ⟨4⟩, ⟨4⟩ ∈ t.preorder c ∧ (t.scope? c).bind (·.get? "x") = some ⟨4⟩ := by
  intro calls t
  have reachable : Reachable Stmt.Bare t := Reachable.initial.run (by decide)
  have live : t.contains ⟨4⟩ := by decide
  have resolved : t.resolve ⟨4⟩ "x" = some ⟨4⟩ := by decide
  exact ⟨reachable, live, resolved, by decide, by decide,
    (reachable.names_sound.2 ⟨4⟩ live "x" ⟨4⟩ resolved).2⟩

end Tree
end KernelTree
