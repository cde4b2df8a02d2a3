import KernelTree.Proofs.Description.Growth
/-! What names stand for. Lookup goes out from a statement through the containers around it up to
the first level that has the name. A declaration changes what is found behind no nearer level with
the same name, and nothing else. -/
namespace KernelTree.Tree

variable {admitted : Stmt → Prop} {t t' : Tree} {start c d x : StmtId} {name other : String}

/-- The level of a container is where lookup goes from a statement: the container is around the
statement, and no level nearer to the statement has the name. -/
def Seen (t : Tree) (start : StmtId) (name : String) (c : StmtId) : Prop :=
  ∃ nearer farther, t.ancestors start = nearer ++ c :: farther ∧
    ∀ x ∈ nearer, t.named? x name = none

theorem Seen.around (h : t.Seen start name c) : c ∈ t.ancestors start := by
  obtain ⟨nearer, farther, whole, -⟩ := h
  simp [whole]

theorem resolve_eq_some_iff :
    t.resolve start name = some d ↔ ∃ c, t.Seen start name c ∧ t.named? c name = some d := by
  change (t.ancestors start).findSome? (t.named? · name) = some d ↔ _
  rw [List.findSome?_eq_some_iff]
  constructor
  · rintro ⟨nearer, c, farther, whole, here, free⟩
    exact ⟨c, ⟨nearer, farther, whole, free⟩, here⟩
  · rintro ⟨c, ⟨nearer, farther, whole, free⟩, here⟩
    exact ⟨nearer, c, farther, whole, here, free⟩

/-- Lookup goes on from a statement whose own level lacks the name. -/
theorem Linked.seen_owner (h : t.Linked) (owned : t.parent? start = some c)
    (free : t.named? start name = none) : t.Seen start name c := by
  obtain ⟨path, up⟩ := h.grounded (h.contains_owner owned)
  obtain ⟨rest, whole⟩ : ∃ rest, path = c :: rest := by cases up <;> exact ⟨_, rfl⟩
  refine ⟨[start], rest, ?_, by simpa using free⟩
  rw [(Climbs.up owned up).ancestors_eq, whole]
  rfl

/-- One tree comes from the other by declaring a name at the level of a container. The levels have
the same names as before, the new one apart. -/
structure Declared (t : Tree) (c : StmtId) (name : String) (d : StmtId) (t' : Tree) : Prop where
  slots : t'.slots.size = t.slots.size
  live : t'.live = t.live
  /-- Other statements are what they were and stand where they stood. -/
  others : ∀ x, x ≠ c → t'.get? x = t.get? x
  /-- Of the container, nothing but its names has changed. -/
  container : ∃ node names, t.get? c = some node ∧
    t'.get? c = some { node with stmt := node.stmt.mapScope fun _ => names }
  names : ∀ x other, t'.named? x other = if c = x ∧ other = name then some d else t.named? x other

namespace Declared

theorem of_updateStmt {k : StmtKind} (kind : t.kind? c = some k) (container : k.isContainer)
    (fresh : t.named? c name = none) :
    t.Declared c name d (t.updateStmt c (.mapScope (·.insertIfNew name d))) where
  slots := slots_size_update ..
  live := live_update ..
  others x apart := by rw [updateStmt, get?_update, if_neg (Ne.symm apart)]
  container := by
    obtain ⟨node, found⟩ := Option.isSome_iff_exists.mp (contains_of_kind? kind)
    have body : node.stmt.body?.isSome := by
      rw [Stmt.isSome_body?]
      rwa [← kind_of_stmt? (stmt?_of_get? found) kind] at container
    obtain ⟨body, there⟩ := Option.isSome_iff_exists.mp body
    refine ⟨node, body.scope.insertIfNew name d, found, ?_⟩
    rw [updateStmt, get?_update, if_pos rfl, found, Option.map_some]
    have same : node.stmt.mapScope (·.insertIfNew name d) =
        node.stmt.mapScope fun _ => body.scope.insertIfNew name d := by
      cases stmt : node.stmt <;> rw [stmt] at there <;> cases there <;> rfl
    rw [same]
  names _ _ := named?_declared kind container fresh

variable (declared : t.Declared c name d t')
include declared

theorem parent?_eq : t'.parent? x = t.parent? x := by
  by_cases here : x = c
  · obtain ⟨node, names, before, after⟩ := declared.container
    rw [here, parent?_of_get? before, parent?_of_get? after]
  · rw [parent?, declared.others x here, parent?]

theorem contains_eq : t'.contains x = t.contains x := by
  by_cases here : x = c
  · obtain ⟨node, names, before, after⟩ := declared.container
    rw [here, contains, after, contains, before]
    rfl
  · rw [contains, declared.others x here, contains]

theorem ancestors_eq (h : t.Linked) (live : t.contains start) :
    t'.ancestors start = t.ancestors start := by
  obtain ⟨path, up⟩ := h.grounded live
  have up' : t'.Climbs start path := up.congr fun x member =>
    ⟨declared.contains_eq.trans (up.contains_of_mem member), declared.parent?_eq⟩
  rw [up.ancestors_eq, up'.ancestors_eq]

/-- The new declaration is found where lookup gets to its level. -/
theorem resolve_of_seen (h : t.Linked) (live : t.contains start) (seen : t.Seen start name c) :
    t'.resolve start name = some d := by
  obtain ⟨path, up⟩ := h.grounded live
  obtain ⟨nearer, farther, whole, free⟩ := seen
  have apart : c ∉ nearer := by
    have nodup := up.nodup
    rw [← up.ancestors_eq, whole] at nodup
    exact fun member => List.disjoint_of_nodup_append nodup member List.mem_cons_self
  refine resolve_eq_some_iff.mpr ⟨c, ⟨nearer, farther, ?_, ?_⟩, ?_⟩
  · rw [declared.ancestors_eq h live, whole]
  · intro x member
    rw [declared.names, if_neg, free x member]
    rintro ⟨rfl, -⟩
    exact apart member
  · rw [declared.names, if_pos ⟨rfl, rfl⟩]

theorem free_before (free : t'.named? x other = none) : t.named? x other = none := by
  rw [declared.names] at free
  split at free
  · cases free
  · exact free

/-- Everywhere else, and for every other name, lookup finds what it found before. -/
theorem resolve_of_not_seen (h : t.Linked) (live : t.contains start)
    (unseen : other = name → ¬ t.Seen start name c) :
    t'.resolve start other = t.resolve start other := by
  have chain := declared.ancestors_eq h live
  -- The level of the container has nothing to say, wherever lookup would get to it.
  have same {x : StmtId} (seen : t.Seen start other x) :
      t'.named? x other = t.named? x other := by
    rw [declared.names, if_neg]
    rintro ⟨rfl, rfl⟩
    exact unseen rfl seen
  apply Option.ext
  intro y
  rw [resolve_eq_some_iff, resolve_eq_some_iff]
  constructor
  · rintro ⟨x, ⟨nearer, farther, whole, free⟩, bound⟩
    have seen : t.Seen start other x :=
      ⟨nearer, farther, chain ▸ whole, fun z member => declared.free_before (free z member)⟩
    exact ⟨x, seen, same seen ▸ bound⟩
  · rintro ⟨x, seen, bound⟩
    refine ⟨x, ?_, (same seen).trans bound⟩
    obtain ⟨nearer, farther, whole, free⟩ := seen
    refine ⟨nearer, farther, chain.trans whole, fun z member => ?_⟩
    obtain ⟨front, back, rfl⟩ := List.append_of_mem member
    have nearest : t.Seen start other z := by
      refine ⟨front, back ++ x :: farther, by rw [whole, List.append_assoc, List.cons_append], ?_⟩
      exact fun u inside => free u (List.mem_append_left _ inside)
    rw [same nearest, free z member]

end Declared

/-- What a declaration does. It is accepted exactly where the container is free of the name and the
declaring statement is the container or lies inside it. Then lookup finds the statement under that
name from wherever it gets to the level of the container, and all else is found as before. -/
theorem Reachable.declare_effect (h : Reachable admitted t) (c : StmtId) (name : String)
    (d : StmtId) :
    ((∃ t', declare c name d t = .ok () t') ↔
      t.contains d ∧ (∃ k, t.kind? c = some k ∧ k.isContainer) ∧ t.named? c name = none ∧
        t.Within d c) ∧
    ∀ t', declare c name d t = .ok () t' → t.Declared c name d t' ∧
      ∀ start, t.contains start →
        (t.Seen start name c → t'.resolve start name = some d) ∧
        ∀ other, ¬ (other = name ∧ t.Seen start name c) →
          t'.resolve start other = t.resolve start other := by
  have linked := h.rooted.toLinked
  have accepted : t.checkDeclare c name d = .ok () ↔
      t.contains d ∧ (∃ k, t.kind? c = some k ∧ k.isContainer) ∧ t.named? c name = none ∧
        t.Within d c := by
    rw [checkDeclare_ok_iff]
    constructor
    · rintro ⟨live, container, inside, free⟩
      exact ⟨live, container, free, (linked.isWithin_iff live).mp inside⟩
    · rintro ⟨live, container, free, within⟩
      exact ⟨live, container, (linked.isWithin_iff live).mpr within, free⟩
  have run : declare c name d t = _ := declare_run
  cases checked : t.checkDeclare c name d with
  | error e =>
    rw [checked] at run
    refine ⟨⟨?_, fun fits => ?_⟩, ?_⟩
    · rintro ⟨t', done⟩
      cases run.symm.trans done
    · cases checked.symm.trans (accepted.mpr fits)
    · intro t' done
      cases run.symm.trans done
  | ok =>
    rw [checked] at run
    obtain ⟨live, ⟨k, kind, container⟩, free, within⟩ := accepted.mp checked
    refine ⟨⟨fun _ => accepted.mp checked, fun _ => ⟨_, run⟩⟩, ?_⟩
    intro t' done
    cases run.symm.trans done
    have declared := Declared.of_updateStmt (d := d) kind container free
    refine ⟨declared, fun start inside => ⟨declared.resolve_of_seen linked inside, ?_⟩⟩
    intro other elsewhere
    exact declared.resolve_of_not_seen linked inside fun own seen => elsewhere ⟨own, seen⟩

/-- A name is declared in a block of which an inner block has the name already. It is found from
beside the inner block and not from inside it, and other names are found as before. -/
theorem declare_effect_of_shadowed :
    let calls : List Change := [
      .push root (.block .empty), .push ⟨1⟩ (.block .empty), .push ⟨2⟩ (.declaration []),
      .declare ⟨2⟩ "x" ⟨3⟩, .push ⟨1⟩ (.declaration []), .declare root "y" ⟨4⟩]
    let t := initial.run calls
    Reachable Stmt.Bare t ∧ ∃ t', declare ⟨1⟩ "x" ⟨4⟩ t = .ok () t' ∧
      t.resolve ⟨4⟩ "x" = none ∧ t'.resolve ⟨4⟩ "x" = some ⟨4⟩ ∧
      t'.resolve ⟨3⟩ "x" = some ⟨3⟩ ∧ t'.resolve ⟨3⟩ "y" = some ⟨4⟩ := by
  intro calls t
  have reachable : Reachable Stmt.Bare t := Reachable.initial.run (by decide)
  obtain ⟨accepted, effect⟩ := reachable.declare_effect ⟨1⟩ "x" ⟨4⟩
  have within : t.Within ⟨4⟩ ⟨1⟩ := .step (by decide) (.refl ..)
  obtain ⟨t', done⟩ := accepted.mpr ⟨by decide, ⟨.block, by decide, rfl⟩, by decide, within⟩
  obtain ⟨-, lookup⟩ := effect t' done
  obtain ⟨seen, -⟩ := lookup ⟨4⟩ (by decide)
  obtain ⟨-, unseen⟩ := lookup ⟨3⟩ (by decide)
  have beside : t.Seen ⟨4⟩ "x" ⟨1⟩ := ⟨[⟨4⟩], [root], by decide, by decide⟩
  have inside : ¬ t.Seen ⟨3⟩ "x" ⟨1⟩ := by
    rintro ⟨nearer, farther, whole, free⟩
    have chain : t.ancestors ⟨3⟩ = [⟨3⟩, ⟨2⟩, ⟨1⟩, root] := by decide
    rw [chain] at whole
    have hidden : (⟨2⟩ : StmtId) ∈ nearer := by
      rcases nearer with _ | ⟨_, _ | ⟨_, rest⟩⟩ <;> simp_all
    have bound : t.named? ⟨2⟩ "x" = some ⟨3⟩ := by decide
    cases bound.symm.trans (free _ hidden)
  refine ⟨reachable, t', done, by decide, seen beside, ?_, ?_⟩
  · rw [unseen "x" fun both => inside both.2]
    decide
  · rw [unseen "y" fun both => absurd both.1 (by decide)]
    decide

end KernelTree.Tree
