import KernelTree.Proofs.Tree.View
import Mathlib.Data.List.Perm.Subperm
import Mathlib.Logic.Relation
/-! The way up from a statement. A chain of owners that ends meets no statement twice, so the
bounded walk along it is the whole chain. -/
namespace KernelTree.Tree

variable {t t' : Tree} {id x y owner : StmtId} {path path' : List StmtId}

/-- The chain of owners from a statement up to one that has none. -/
inductive Climbs (t : Tree) : StmtId → List StmtId → Prop
  | top {id : StmtId} (live : t.contains id) (free : t.parent? id = none) : Climbs t id [id]
  | up {id owner : StmtId} {path : List StmtId} (owned : t.parent? id = some owner)
    (rest : Climbs t owner path) : Climbs t id (id :: path)

/-- A statement is the other one or lies beneath it. -/
def Within (t : Tree) : StmtId → StmtId → Prop :=
  Relation.ReflTransGen fun child owner => t.parent? child = some owner

namespace Within

theorem refl (t : Tree) (id : StmtId) : t.Within id id := Relation.ReflTransGen.refl

theorem step (owned : t.parent? id = some owner) (h : t.Within owner x) : t.Within id x :=
  Relation.ReflTransGen.head owned h

theorem trans (h : t.Within id x) (g : t.Within x y) : t.Within id y :=
  Relation.ReflTransGen.trans h g

theorem cases (h : t.Within id x) :
    id = x ∨ ∃ owner, t.parent? id = some owner ∧ t.Within owner x :=
  Relation.ReflTransGen.cases_head h

/-- Of two statements around a third one, one lies within the other. -/
theorem total (h : t.Within id x) (g : t.Within id y) : t.Within x y ∨ t.Within y x :=
  Relation.ReflTransGen.total_of_right_unique
    (fun _ _ _ h g => Option.some.inj (h.symm.trans g)) h g

theorem mono (grown : ∀ {child owner}, t.parent? child = some owner →
    t'.parent? child = some owner) (h : t.Within id x) : t'.Within id x :=
  Relation.ReflTransGen.mono (fun _ _ => grown) _ _ h

theorem eq_of_free (free : t.parent? id = none) (h : t.Within id x) : id = x := by
  rcases h.cases with same | ⟨owner, owned, -⟩
  · exact same
  · simp [free] at owned

theorem contains (live : t.contains x) (h : t.Within id x) : t.contains id := by
  rcases h.cases with rfl | ⟨owner, owned, -⟩
  · exact live
  · exact contains_of_parent? owned

end Within

theorem length_le_size {l : List StmtId} (nodup : l.Nodup) (live : ∀ x ∈ l, t.contains x) :
    l.length ≤ t.slots.size := by
  have distinct : (l.map StmtId.index).Nodup := nodup.map fun _ _ => StmtId.ext
  have bounded : l.map StmtId.index ⊆ List.range t.slots.size := by
    intro i member
    obtain ⟨x, inside, rfl⟩ := List.mem_map.mp member
    exact List.mem_range.mpr (index_lt (live x inside))
  simpa using (List.subperm_of_subset distinct bounded).length_le

/-- As many statements as there are slots are all that are live. -/
theorem mem_of_length_eq_size {l : List StmtId} (nodup : l.Nodup) (live : ∀ x ∈ l, t.contains x)
    (all : l.length = t.slots.size) (inside : t.contains x) : x ∈ l := by
  by_contra missing
  have more := length_le_size (List.nodup_cons.mpr ⟨missing, nodup⟩)
    (List.forall_mem_cons.mpr ⟨inside, live⟩)
  rw [List.length_cons] at more
  omega

namespace Climbs

theorem contains (h : t.Climbs id path) : t.contains id := by
  cases h with
  | top live _ => exact live
  | up owned _ => exact contains_of_parent? owned

theorem contains_of_mem (h : t.Climbs id path) (member : x ∈ path) : t.contains x := by
  induction h with
  | top live _ => exact List.mem_singleton.mp member ▸ live
  | up owned _ ih =>
    rcases List.mem_cons.mp member with rfl | member
    · exact contains_of_parent? owned
    · exact ih member

theorem unique (h : t.Climbs id path) (g : t.Climbs id path') : path = path' := by
  induction h generalizing path' with
  | top _ free =>
    cases g with
    | top => rfl
    | up owned _ => simp [free] at owned
  | up owned _ ih =>
    cases g with
    | top _ free => simp [free] at owned
    | up owned' rest =>
      cases Option.some.inj (owned.symm.trans owned')
      rw [ih rest]

/-- A chain passes on as the chain of each of its members. -/
theorem split (h : t.Climbs id path) (member : x ∈ path) :
    ∃ before after, path = before ++ after ∧ t.Climbs x after := by
  induction h with
  | top live free =>
    cases List.mem_singleton.mp member
    exact ⟨[], _, rfl, .top live free⟩
  | @up id owner path owned rest ih =>
    rcases List.mem_cons.mp member with rfl | member
    · exact ⟨[], _, rfl, .up owned rest⟩
    · obtain ⟨before, after, rfl, tail⟩ := ih member
      exact ⟨id :: before, after, rfl, tail⟩

theorem nodup (h : t.Climbs id path) : path.Nodup := by
  induction h with
  | top => simp
  | @up id owner path owned rest ih =>
    apply List.nodup_cons.mpr
    refine ⟨?_, ih⟩
    intro member
    obtain ⟨before, after, whole, again⟩ := rest.split member
    have same := congrArg List.length ((Climbs.up owned rest).unique again)
    simp only [whole, List.length_cons, List.length_append] at same
    omega

theorem length_le (h : t.Climbs id path) : path.length ≤ t.slots.size :=
  length_le_size h.nodup fun _ => h.contains_of_mem

theorem mem_iff (h : t.Climbs id path) : x ∈ path ↔ t.Within id x := by
  constructor
  · intro member
    induction h with
    | top => exact List.mem_singleton.mp member ▸ .refl ..
    | up owned _ ih =>
      rcases List.mem_cons.mp member with rfl | member
      · exact .refl ..
      · exact .step owned (ih member)
  · intro within
    induction h with
    | top _ free => exact List.mem_singleton.mpr (within.eq_of_free free).symm
    | up owned _ ih =>
      rcases within.cases with rfl | ⟨owner, owned', within⟩
      · exact List.mem_cons_self
      · cases Option.some.inj (owned.symm.trans owned')
        exact List.mem_cons_of_mem _ (ih within)

theorem congr (h : t.Climbs id path)
    (same : ∀ x ∈ path, t'.contains x ∧ t'.parent? x = t.parent? x) : t'.Climbs id path := by
  induction h with
  | top live free =>
    obtain ⟨live', parent⟩ := same _ List.mem_cons_self
    exact .top live' (parent.trans free)
  | up owned _ ih =>
    obtain ⟨-, parent⟩ := same _ List.mem_cons_self
    exact .up (parent.trans owned) (ih fun x member => same x (List.mem_cons_of_mem _ member))

theorem updateStmt (h : t.Climbs id path) {f : Stmt → Stmt} : (t.updateStmt x f).Climbs id path :=
  h.congr fun _ member =>
    ⟨contains_updateStmt.trans (h.contains_of_mem member), parent?_updateStmt⟩

theorem climb_eq (h : t.Climbs id path) (enough : path.length ≤ steps) :
    t.climb steps (some id) = path := by
  induction h generalizing steps with
  | top _ free =>
    obtain ⟨steps, rfl⟩ := Nat.exists_eq_add_of_le' enough
    cases steps <;> simp [climb, free]
  | up owned _ ih =>
    obtain ⟨steps, rfl⟩ := Nat.exists_eq_add_of_le' enough
    simp only [List.length_cons, climb, owned, List.cons.injEq, true_and]
    exact ih (by simp)

theorem ancestors_eq (h : t.Climbs id path) : t.ancestors id = path := by
  rw [ancestors, if_pos h.contains, h.climb_eq h.length_le]

/-- A chain begins with its statement. -/
theorem eq_of_same (h : t.Climbs id path) (g : t.Climbs x path) : id = x := by
  cases h <;> cases g <;> rfl

/-- Whatever lies properly around a statement has a shorter way up. -/
theorem length_lt (h : t.Climbs id path) (g : t.Climbs x path') (within : t.Within id x)
    (differs : id ≠ x) : path'.length < path.length := by
  obtain ⟨before, after, rfl, tail⟩ := h.split (h.mem_iff.mpr within)
  cases g.unique tail
  cases before with
  | nil => exact absurd (h.eq_of_same g) differs
  | cons first rest =>
    rw [List.length_append, List.length_cons]
    omega

end Climbs

/-- Nothing is around a number that stands for no statement. -/
theorem contains_of_mem_ancestors (around : x ∈ t.ancestors id) : t.contains id := by
  by_contra dead
  have nothing : t.ancestors id = [] := by
    rw [ancestors, if_neg dead]
    cases t.slots.size <;> rfl
  simp [nothing] at around

end KernelTree.Tree
