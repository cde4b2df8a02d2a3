import KernelTree.Proofs.Tree.Atomic
import KernelTree.Proofs.Tree.Nodes
/-! Pushing, which makes a statement and then appends it. Making the statement changes who lies
within whom: a statement that the new one adopts may hold its future owner. The appending is refused
exactly then, behind a change that has been made. -/
namespace KernelTree.Tree

variable {t : Tree} {owner child : StmtId} {stmt : Stmt} {span : Span}

/-- Of a free statement apart from the root, only a cycle can be in the way. -/
theorem checkAttach_eq (ownerLive : t.contains owner) (childLive : t.contains child)
    (notRoot : child ≠ root) (free : t.parent? child = none) : t.checkAttach owner child =
      if t.isWithin owner child then .error (.cycle child owner) else .ok () := by
  obtain ⟨ownerNode, ownerFound⟩ := Option.isSome_iff_exists.mp ownerLive
  obtain ⟨node, found⟩ := Option.isSome_iff_exists.mp childLive
  have unowned : node.parent = none := (parent?_of_get? found).symm.trans free
  rw [checkAttach, require_ok_iff.mpr ownerFound, require_ok_iff.mpr found]
  simp only [bind, Except.bind, discard, Functor.discard, Functor.mapConst, Except.map,
    Function.comp, if_neg notRoot, unowned]
  split <;> rfl

section extended
variable (h : t.Linked) (fits : t.Addable stmt)
include h fits

/-- What lies within a new statement is the statement itself, and what lay within those that it has
adopted. -/
theorem within_extended_iff (live : t.contains owner) :
    (t.extended stmt span).Within owner t.nextId ↔ ∃ x ∈ stmt.owned, t.Within owner x := by
  have parents x : (t.extended stmt span).parent? x = _ := parent?_extended fits
  constructor
  · intro within
    obtain ⟨path, up⟩ := h.grounded live
    -- Up the old chain of owners. Only at its end the new statement has been put.
    induction up with
    | @top id _ free =>
      rcases within.cases with rfl | ⟨above, owned, -⟩
      · simp [t.not_contains_nextId] at live
      · rw [parents] at owned
        split at owned
        next adopted => exact ⟨id, adopted, .refl t id⟩
        next => simp [free] at owned
    | @up id above _ owned rest ih =>
      have kept : (t.extended stmt span).parent? id = some above := by
        rw [parents, if_neg fun adopted => by simp [fits.free id adopted] at owned, owned]
      rcases within.cases with rfl | ⟨above', owned', within⟩
      · simp [t.not_contains_nextId] at live
      · cases Option.some.inj (kept.symm.trans owned')
        obtain ⟨x, adopted, below⟩ := ih rest.contains within
        exact ⟨x, adopted, .step owned below⟩
  · rintro ⟨x, adopted, below⟩
    have top : (t.extended stmt span).Within x t.nextId :=
      .step ((parents x).trans (if_pos adopted)) (.refl ..)
    refine (below.mono fun {child owner} owned => ?_).trans top
    rw [parents, if_neg fun adopted => by simp [fits.free child adopted] at owned, owned]

/-- Behind the checks that pushing makes first, a new statement can be appended unless one of those
that it has adopted holds its owner. -/
theorem checkAppend_extended (container : t.checkContainer owner = .ok ())
    (plain : stmt.kind.isChainEntry = false) :
    (t.extended stmt span).checkAppend owner t.nextId =
      if ∃ x ∈ stmt.owned, t.isWithin owner x then .error (.cycle t.nextId owner) else .ok () := by
  obtain ⟨kind, found, holds⟩ := checkContainer_ok_iff.mp container
  have live := contains_of_kind? found
  have changed : t.Changed (t.extended stmt span) t.nextId stmt := stmt?_extended
  have linked : (t.extended stmt span).Linked := h.extended fits
  have differs : t.nextId ≠ owner := by
    rintro rfl
    simp [t.not_contains_nextId] at live
  have kept : (t.extended stmt span).kind? owner = some kind := by
    rw [changed.kind?, if_neg differs, found]
  have made : (t.extended stmt span).kind? t.nextId = some stmt.kind := by
    rw [changed.kind?, if_pos rfl]
  have isContainer : (t.extended stmt span).checkContainer owner = .ok () :=
    checkContainer_ok_iff.mpr ⟨kind, kept, holds⟩
  have isPlain : (t.extended stmt span).isChainEntry t.nextId = false := by
    rw [isChainEntry, made, Option.any_some, plain]
  have free : (t.extended stmt span).parent? t.nextId = none := by
    rw [parent?_extended fits, if_neg fun adopted => ?_, parent?_nextId]
    simpa [t.not_contains_nextId] using fits.live _ adopted
  have notRoot : t.nextId ≠ root := by
    have below := index_lt live
    intro same
    have zero : t.slots.size = 0 := congrArg StmtId.index same
    omega
  have attach := checkAttach_eq (contains_of_kind? kept) (contains_of_kind? made) notRoot free
  have cyclic : (t.extended stmt span).isWithin owner t.nextId = true ↔
      ∃ x ∈ stmt.owned, t.isWithin owner x := by
    rw [linked.isWithin_iff (contains_of_kind? kept), within_extended_iff h fits live]
    simp only [h.isWithin_iff live]
  simp only [checkAppend, isContainer, isPlain, attach, cyclic]
  rfl

end extended

/-- A statement can be made and its future owner has room for it, but one of those that it adopts is
that owner or holds it. -/
structure Swallows (t : Tree) (owner : StmtId) (stmt : Stmt) : Prop where
  container : ∃ k, t.kind? owner = some k ∧ k.isContainer
  plain : stmt.kind.isChainEntry = false
  fits : t.Addable stmt
  held : ∃ x ∈ stmt.owned, t.isWithin owner x

/-- A statement that swallows its owner is made and left behind. -/
theorem Linked.push_of_swallows (h : t.Linked) (swallows : t.Swallows owner stmt) :
    push owner stmt t = .error (.cycle t.nextId owner) (t.extended stmt .none) := by
  obtain ⟨container, plain, fits, held⟩ := swallows
  have isContainer := checkContainer_ok_iff.mpr container
  have made := checkAdd_ok_iff.mpr fits
  have refused : (t.extended stmt .none).checkAppend owner t.nextId = _ :=
    checkAppend_extended h fits isContainer plain
  rw [if_pos held] at refused
  simp only [push_run, isContainer, plain, made, refused, Bool.false_eq_true, if_false]

/-- Any other is appended, or refused before anything has changed. -/
theorem Linked.push_atomic (h : t.Linked) (apart : ¬ t.Swallows owner stmt) :
    (push owner stmt).Atomic t := by
  have run : push owner stmt t = _ := push_run
  cases isContainer : t.checkContainer owner with
  | error => exact TreeM.atomic_of_error (by rw [run, isContainer])
  | ok =>
    simp only [isContainer] at run
    cases plain : stmt.kind.isChainEntry with
    | true => exact TreeM.atomic_of_error (by rw [run, if_pos plain])
    | false =>
      simp only [plain, Bool.false_eq_true, if_false] at run
      cases made : t.checkAdd stmt with
      | error => exact TreeM.atomic_of_error (by rw [run, made])
      | ok =>
        have fits := checkAdd_ok_iff.mp made
        have appended : (t.extended stmt .none).checkAppend owner t.nextId = _ :=
          checkAppend_extended h fits isContainer plain
        rw [if_neg fun held => apart ⟨checkContainer_ok_iff.mp isContainer, plain, fits, held⟩]
          at appended
        simp only [made, appended] at run
        exact TreeM.atomic_of_ok run

/-- A refused push leaves the tree as it was, except that a statement which swallows its owner is
made before it turns out that it cannot be appended. It stays behind with what it has adopted. -/
theorem Reachable.push_atomic_iff {admitted : Stmt → Prop} (h : Reachable admitted t)
    (owner : StmtId) (stmt : Stmt) :
    ((push owner stmt).Atomic t ↔ ¬ t.Swallows owner stmt) ∧
      (t.Swallows owner stmt → push owner stmt t =
        .error (.cycle t.nextId owner) (t.extended stmt .none)) := by
  have linked := h.rooted.toLinked
  refine ⟨⟨?_, linked.push_atomic⟩, linked.push_of_swallows⟩
  intro atomic swallows
  have same := atomic _ _ (linked.push_of_swallows swallows)
  have grown : (t.extended stmt .none).slots.size = t.slots.size + 1 := slots_size_extended
  rw [same] at grown
  omega

/-- A block inside another one gets a loop whose condition is that other one. -/
theorem push_atomic_iff_of_nested :
    let t := initial.run [.add (.block .empty) .none, .push ⟨1⟩ (.block .empty)]
    let loop := Stmt.whileLoop ⟨1⟩ .empty false
    Reachable (fun _ => True) t ∧ (push root loop).Atomic t ∧ ¬ (push ⟨2⟩ loop).Atomic t ∧
      push ⟨2⟩ loop t = .error (.cycle ⟨3⟩ ⟨2⟩) (t.extended loop .none) := by
  intro t loop
  have h : Reachable (fun _ => True) t := Reachable.initial.run fun _ _ _ _ => trivial
  have swallows : t.Swallows ⟨2⟩ loop :=
    ⟨⟨.block, rfl, rfl⟩, rfl, checkAdd_ok_iff.mp rfl, ⟨1⟩, by decide, by rfl⟩
  have apart : ¬ t.Swallows root loop := by
    rintro ⟨-, -, -, x, condition, held⟩
    cases List.mem_singleton.mp condition
    cases held
  refine ⟨h, (h.push_atomic_iff root loop).1.mpr apart, ?_, (h.push_atomic_iff ⟨2⟩ loop).2 swallows⟩
  exact fun atomic => (h.push_atomic_iff ⟨2⟩ loop).1.mp atomic swallows

/-- A refused push can change the tree: an unattached block is to hold a loop of which it is to be
the condition as well. -/
theorem not_push_atomic :
    ¬ ∀ t, Reachable (fun _ => True) t → ∀ owner stmt, (push owner stmt).Atomic t := by
  intro atomic
  let t := initial.run [.add (.block .empty) .none]
  have h : Reachable (fun _ => True) t := Reachable.initial.run fun _ _ _ _ => trivial
  let loop := Stmt.whileLoop ⟨1⟩ .empty false
  have refused : push ⟨1⟩ loop t = .error (.cycle ⟨2⟩ ⟨1⟩) (t.extended loop .none) := rfl
  have count := congrArg (·.slots.size) (atomic t h ⟨1⟩ loop _ _ refused)
  cases count

end KernelTree.Tree
