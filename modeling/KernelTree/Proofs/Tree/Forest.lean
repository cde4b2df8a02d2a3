import KernelTree.Proofs.Tree.Reachable
/-! Ownership. Whatever operations have done to a tree, its statements form a forest under their
owners, in which the entries of if-chains stand in their own places. -/
namespace KernelTree.Tree

variable {admitted : Stmt → Prop} {t : Tree}

structure Forest (t : Tree) : Prop where
  /-- Owners and owned statements name each other. -/
  owned_iff : ∀ {p c}, t.contains p → t.contains c → (c ∈ t.owned p ↔ t.parent? c = some p)
  /-- No statement is owned twice, and what is owned is live. -/
  owned_once : ∀ {p c}, c ∈ t.owned p →
    (t.owned p).count c = 1 ∧ t.contains c ∧ ∀ {q}, c ∈ t.owned q → q = p
  /-- Every chain of owners is finite, stays among live statements and meets none twice. -/
  climbs : ∀ {id}, t.contains id → ∃ path, t.Climbs id path ∧ path.Nodup ∧ ∀ x ∈ path, t.contains x
  root_live : t.contains root
  root_kind : t.kind? root = some .block
  root_free : t.parent? root = none
  /-- An attached `elif` entry stands in the list for such entries, and nothing else does. -/
  elif_iff : ∀ {p c}, t.parent? c = some p → (t.kind? c = some .elif ↔ c ∈ t.elifs p)
  /-- An attached `else` entry stands in the place for it, and nothing else does. -/
  otherwise_iff : ∀ {p c}, t.parent? c = some p →
    (t.kind? c = some .otherwise ↔ t.last? p = some c)
  /-- Only conditionals have such places. -/
  entry_owner : ∀ {p c}, c ∈ t.elifs p ∨ t.last? p = some c →
    t.kind? p = some .conditional ∧ t.parent? c = some p
  live_eq : t.live = t.slots.countP (·.isSome)

theorem kind?_of_entry {p c : StmtId} (entry : c ∈ t.elifs p ∨ t.last? p = some c) :
    t.kind? p = some .conditional := by
  have owned : c ∈ t.owned p := entry.elim (elifs_subset_owned ·) mem_owned_of_last?
  have live := contains_of_mem_owned owned
  obtain ⟨s, found⟩ := exists_stmt live
  rw [elifs_of_stmt? found, last?_of_stmt? found] at entry
  rw [kind?_of_stmt? found]
  exact congrArg some (entry.elim Stmt.kind_of_mem_elifs Stmt.kind_of_last?)

theorem Reachable.forest (h : Reachable admitted t) : t.Forest := by
  have rooted := h.rooted
  have linked := rooted.toLinked
  constructor
  case owned_iff => exact fun _ _ => linked.mem_owned_iff
  case owned_once =>
    intro p c owned
    refine ⟨List.count_eq_one_of_mem (linked.nodup_owned p) owned, linked.contains_owned owned, ?_⟩
    intro q owned'
    have owner := linked.mem_owned_iff.mp owned
    exact Option.some.inj ((linked.mem_owned_iff.mp owned').symm.trans owner)
  case climbs =>
    intro id live
    obtain ⟨path, up⟩ := linked.grounded live
    exact ⟨path, up, up.nodup, fun x => up.contains_of_mem⟩
  case root_live => exact rooted.contains_root
  case root_kind => exact rooted.root_kind
  case root_free => exact rooted.root_free
  case elif_iff => exact linked.elif_iff
  case otherwise_iff => exact linked.otherwise_iff
  case entry_owner =>
    intro p c entry
    refine ⟨kind?_of_entry entry, ?_⟩
    apply linked.mem_owned_iff.mp
    exact entry.elim (elifs_subset_owned ·) mem_owned_of_last?
  case live_eq => exact linked.live_eq

/-- In a linked tree the links of every subtree pass the check. -/
theorem Linked.verifyLinks_ok (h : t.Linked) {id : StmtId} (live : t.contains id) :
    t.verifyLinks id = .ok () := by
  have walk := h.walk_preorder live
  apply except_forM_ok
  intro owner member
  obtain ⟨node, found⟩ := Option.isSome_iff_exists.mp (walk.contains_of_mem member)
  refine except_bind_ok.mpr ⟨node, require_ok_iff.mpr found, except_forM_ok fun child inside => ?_⟩
  have owned := h.mem_owned_iff.mp (owned_of_stmt? (stmt?_of_get? found) ▸ inside)
  obtain ⟨sub, there⟩ := Option.isSome_iff_exists.mp (contains_of_parent? owned)
  refine except_bind_ok.mpr ⟨sub, require_ok_iff.mpr there, ?_⟩
  rw [← parent?_of_get? there, if_neg (not_not.mpr owned)]
  rfl

/-- A conditional with an `elif` entry is copied into itself, after which its own entry is removed;
a refused attempt to append it to itself changes nothing. -/
theorem forest_of_self_copy :
    let calls : List Change := [
      .addExpr (.ident ⟨.identifier, "a", .none⟩), .push root (.conditional ⟨1⟩ .empty [] none),
      .addExpr (.ident ⟨.identifier, "b", .none⟩), .add (.elif ⟨3⟩ .empty) .none,
      .addElif ⟨2⟩ ⟨4⟩, .append ⟨2⟩ ⟨2⟩, .clone ⟨2⟩ (some ⟨2⟩), .remove ⟨4⟩]
    Reachable (fun _ => True) (initial.run calls) ∧ (initial.run calls).live = 7 ∧
      (initial.run calls).Forest := by
  have reachable {calls : List Change} : Reachable (fun _ => True) (initial.run calls) :=
    Reachable.initial.run fun _ _ _ _ => trivial
  exact ⟨reachable, by decide, reachable.forest⟩

end KernelTree.Tree
