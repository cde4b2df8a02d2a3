import KernelTree.Proofs.Observation
import KernelTree.Proofs.Tree.Apart
/-! Subtrees in one tree that have nothing to do with each other. What happens elsewhere leaves a
subtree without an owner as it is, and with it all that can be read from it. So a copy and what it
was made of go their own ways. -/
namespace KernelTree.Tree

variable {t t' : Tree} {u x r copy : StmtId} {calls : List Call}

/-- The subtree is the same in both trees, and so is all that can be read from it. -/
structure Unchanged (t : Tree) (u : StmtId) (t' : Tree) : Prop where
  nodes : ∀ x ∈ t.preorder u, t'.get? x = t.get? x
  preorder : t'.preorder u = t.preorder u
  resolve : ∀ x ∈ t.preorder u, ∀ name, t'.resolve x name = t.resolve x name
  fingerprint : t'.fingerprint u = t.fingerprint u
  text : ∀ d, Emission.emit t' u d = Emission.emit t u d

namespace Intact

theorem mirrors (intact : t.Intact u t') : Mirrors t u (fun x => x) t' := by
  refine ⟨fun _ same => same, fun y member => ?_⟩
  rw [stmt?, intact y member, ← stmt?]
  cases t.stmt? y <;> simp

variable (intact : t.Intact u t') (h : t.Linked) (live : t.contains u)
include intact h live

/-- All that is around a statement of the subtree belongs to it as well, if nobody owns it. -/
theorem resolve_eq (free : t.parent? u = none) (member : x ∈ t.preorder u) (name : String) :
    t'.resolve x name = t.resolve x name := by
  have inside := fun {y} => h.mem_preorder_iff (x := y) live
  have within := inside.mp member
  obtain ⟨path, up⟩ := h.grounded (within.contains live)
  have same (y : StmtId) (around : y ∈ path) : t'.get? y = t.get? y := by
    apply intact y
    rcases (up.mem_iff.mp around).total within with below | above
    · exact inside.mpr below
    · exact inside.mpr (above.eq_of_free free ▸ .refl ..)
  have up' : t'.Climbs x path := by
    apply up.congr
    intro y around
    rw [Tree.contains, parent?, same y around]
    exact ⟨up.contains_of_mem around, rfl⟩
  rw [resolve, up'.ancestors_eq, resolve, up.ancestors_eq]
  rw [← List.head?_filterMap, ← List.head?_filterMap]
  apply congrArg
  apply List.filterMap_congr
  intro y around
  rw [scope?, same y around, scope?]

theorem unchanged (h' : t'.Linked) (free : t.parent? u = none) : t.Unchanged u t' := by
  have alike := intact.mirrors.alike h h' live fun _ _ => Iff.rfl
  exact {
    nodes := intact
    preorder := intact.preorder_eq h live
    resolve := fun x member name => intact.resolve_eq h live free member name
    fingerprint := alike.fingerprint
    text := alike.text }

end Intact

/-- A copy that nobody owns, in the tree where it was made. -/
structure Loose (t : Tree) (r copy : StmtId) (t' : Tree) : Prop where
  live : t'.contains copy
  free : t'.parent? copy = none
  above : ∀ x ∈ t'.preorder copy, t.slots.size ≤ x.index
  kept : ∀ x, t.contains x → t'.get? x = t.get? x
  size : t.slots.size ≤ t'.slots.size

theorem loose_of_clone (h : Reachable Stmt.Bare t) (made : clone r none t = .ok copy t') :
    Reachable Stmt.Bare t' ∧ Loose t r copy t' := by
  have linked := h.rooted.toLinked
  have reachable : Reachable Stmt.Bare t' :=
    TreeM.after_ok made ▸ h.change (.clone r none) nofun
  have run : copyFrom t r none t = .ok copy t' := made
  obtain ⟨k, fits⟩ := copyable_of_copyFrom linked run
  have there := contains_of_kind? fits.kind
  have member := linked.mem_preorder_self there
  obtain ⟨rfl, whole⟩ := isomorphic_of_copyFrom linked h.rooted run
  obtain ⟨node, -, top⟩ := whole.copies 0 (List.length_pos_of_mem member)
  have first : t.image r t.slots.size r = ⟨t.slots.size⟩ := linked.image_self there
  have listed := whole.mirrors.preorder_image linked there reachable.rooted.toLinked member
  refine ⟨reachable, ?_, parent?_of_get? top, ?_, ?_, by rw [whole.size]; omega⟩
  · exact contains_of_stmt? (stmt?_of_get? top)
  · rw [← first, listed]
    intro x inside
    obtain ⟨y, -, rfl⟩ := List.mem_map.mp inside
    exact base_le_image
  · exact fun x live => whole.others x (index_lt live) nofun

/-- A subtree without an owner stays as it is while no call names a statement of it. So a copy that
nobody owns is not touched by calls that name nothing of it. Calls that name nothing but the copy
and what is made later touch none of the subtrees that were there before, that of `r` among
them. -/
theorem Reachable.independent (h : Reachable Stmt.Bare t) :
    (∀ u calls, t.contains u → t.parent? u = none → (∀ c ∈ calls, c.Admitted) → Spares u t calls →
      Unchanged t u (t.followed calls)) ∧
    ∀ r copy t' calls, clone r none t = .ok copy t' → (∀ c ∈ calls, c.Admitted) →
      ((∀ c ∈ calls, ∀ x ∈ c.numbers, x ∉ t'.preorder copy) →
        Unchanged t' copy (t'.followed calls)) ∧
      ((∀ c ∈ calls, ∀ x ∈ c.numbers, x ∈ t'.preorder copy ∨ t'.slots.size ≤ x.index) →
        ∀ u, t.contains u → t.parent? u = none → Unchanged t u (t'.followed calls)) := by
  have linked := h.rooted.toLinked
  refine ⟨?_, ?_⟩
  · intro u calls live free admitted spares
    have intact := spares.intact h live free admitted
    exact intact.unchanged linked live (h.followed admitted).rooted.toLinked free
  · intro r copy t' calls made admitted
    obtain ⟨h', loose⟩ := loose_of_clone h made
    have linked' := h'.rooted.toLinked
    have after := (h'.followed admitted).rooted.toLinked
    refine ⟨?_, ?_⟩
    · intro apart
      have spares := spares_of_apart h' loose.live loose.free admitted apart
      have intact := spares.intact h' loose.live loose.free admitted
      exact intact.unchanged linked' loose.live after loose.free
    · intro apart u live free
      have inside (x : StmtId) (member : x ∈ t.preorder u) : t.contains x :=
        (linked.walk_preorder live).contains_of_mem member
      have copied : t.Intact u t' := fun x member => loose.kept x (inside x member)
      have live' := copied.contains linked live
      have free' := (copied.parent?_eq linked live).trans free
      -- What the calls name was not there before the copy was made.
      have outside : ∀ c ∈ calls, ∀ x ∈ c.numbers, x ∉ t'.preorder u := by
        intro c called x named member
        have old := index_lt (inside x (copied.preorder_eq linked live ▸ member))
        have size := loose.size
        rcases apart c called x named with inside | new
        · have := loose.above x inside
          omega
        · omega
      have spares := spares_of_apart h' live' free' admitted outside
      have intact := copied.trans linked live (spares.intact h' live' free' admitted)
      exact intact.unchanged linked live after free

/-- A block is copied. Then it is removed from the tree, which leaves the copy alone, or the copy is
added to and taken apart, which leaves the tree alone. -/
theorem independent_of_clone :
    let t := initial.run [
      .push root (.block .empty), .push ⟨1⟩ (.declaration []), .declare ⟨1⟩ "x" ⟨2⟩]
    let t' := (clone ⟨1⟩ none).after t
    let elsewhere : List Call := [.change (.remove ⟨1⟩), .change (.push root .breakJump)]
    let inside : List Call := [.change (.push ⟨3⟩ .breakJump), .change (.remove ⟨4⟩),
      .copyFrom t ⟨1⟩ (some ⟨3⟩)]
    Reachable Stmt.Bare t ∧ clone ⟨1⟩ none t = .ok ⟨3⟩ t' ∧
      (t'.followed elsewhere).preorder root = [root, ⟨5⟩] ∧
      Unchanged t' ⟨3⟩ (t'.followed elsewhere) ∧ Unchanged t' root (t'.followed inside) ∧
      (t'.followed inside).preorder ⟨3⟩ = [⟨3⟩, ⟨5⟩, ⟨6⟩, ⟨7⟩] ∧
      Unchanged t root (t'.followed inside) := by
  intro t t' elsewhere inside
  have h : Reachable Stmt.Bare t := Reachable.initial.run (by decide)
  have made : clone ⟨1⟩ none t = .ok ⟨3⟩ t' := by rfl
  have h' : Reachable Stmt.Bare t' := (loose_of_clone h made).1
  have nothing : ∀ s ∈ (none : Option Stmt), s.Bare := by decide
  have jump : ∀ s ∈ some Stmt.breakJump, s.Bare := by decide
  have admitted : ∀ c ∈ elsewhere, c.Admitted := by
    simp only [elsewhere, List.forall_mem_cons]
    exact ⟨nothing, jump, List.forall_mem_nil _⟩
  have admitted' : ∀ c ∈ inside, c.Admitted := by
    simp only [inside, List.forall_mem_cons]
    exact ⟨jump, nothing, h, List.forall_mem_nil _⟩
  have copied := h.independent.2 ⟨1⟩ ⟨3⟩ t'
  refine ⟨h, made, by decide, ?_, ?_, by decide, ?_⟩
  · exact (copied elsewhere made admitted).1 (by decide)
  · exact h'.independent.1 root inside (by decide) (by decide) admitted' (by decide)
  · exact (copied inside made admitted').2 (by decide) root (by decide) (by decide)

end KernelTree.Tree
