import KernelTree.Proofs.Tree.Detachment
import KernelTree.Proofs.Tree.Pushing
/-! The two ways through a tree. Down from a statement the walk lists its subtree in source order;
up from a statement the walk meets whatever it lies within. Both speak of the same subtrees, and so
do the checks and the purges that use one or the other. -/
namespace KernelTree.Tree

variable {admitted : Stmt → Prop} {t t' : Tree} {r p x y : StmtId}

/-- Whatever goes through each statement first and then, in order, through those it owns lists what
the walk down lists. -/
theorem Linked.eq_preorder (h : t.Linked) {list : StmtId → List StmtId}
    (lists : ∀ x, t.contains x → list x = x :: (t.owned x).flatMap list) (live : t.contains r) :
    list r = t.preorder r := by
  refine h.descending (motive := fun id => list id = t.preorder id) (fun id live below => ?_) live
  rw [lists id live, h.preorder_eq live, List.flatMap_congr below]

/-- The subtree of what a statement owns is a piece of its own. -/
theorem Linked.preorder_infix_of_owned (h : t.Linked) (owned : t.parent? x = some p) :
    t.preorder x <:+: t.preorder p := by
  rw [h.preorder_eq (h.contains_owner owned), List.flatMap]
  have piece := List.mem_map_of_mem (f := t.preorder) (h.mem_owned_iff.mpr owned)
  exact (List.infix_of_mem_flatten piece).trans (List.suffix_cons ..).isInfix

/-- Subtrees are pieces of those around them. -/
theorem Linked.preorder_infix (h : t.Linked) (within : t.Within x r) :
    t.preorder x <:+: t.preorder r := by
  induction within using Relation.ReflTransGen.head_induction_on with
  | refl => exact List.infix_rfl
  | head owned _ around => exact (h.preorder_infix_of_owned owned).trans around

/-- What lies beneath a statement comes later than the statement. -/
theorem Linked.before_of_within (h : t.Linked) (live : t.contains p) (within : t.Within x p)
    (differs : x ≠ p) : [p, x].Sublist (t.preorder p) := by
  have member := (h.mem_preorder_iff live).mpr within
  rw [h.preorder_eq live] at member ⊢
  have below := (List.mem_cons.mp member).resolve_left differs
  exact (List.singleton_sublist.mpr below).cons_cons p

/-- The subtree of a statement, as it is listed. -/
structure SourceOrder (t : Tree) (r : StmtId) (order : List StmtId) : Prop where
  /-- Exactly those are listed that lie within the statement. -/
  mem_iff : ∀ x, x ∈ order ↔ t.isWithin x r
  nodup : order.Nodup
  first : order.head? = some r
  /-- The statement is followed by the subtrees of those it owns, in order. -/
  eq_cons : order = r :: (t.owned r).flatMap t.preorder
  /-- There is one such way to list the subtrees of a tree. -/
  unique : ∀ list : StmtId → List StmtId,
    (∀ x, t.contains x → list x = x :: (t.owned x).flatMap list) → list r = order
  /-- Each subtree stands in one piece, and in it those of siblings one after the other. -/
  piece : ∀ p ∈ order, p :: (t.owned p).flatMap t.preorder <:+: order
  /-- Every statement comes before those that lie beneath it. -/
  before : ∀ p x, t.isWithin p r → t.isWithin x p → x ≠ p → [p, x].Sublist order

theorem Linked.sourceOrder (h : t.Linked) (live : t.contains r) :
    t.SourceOrder r (t.preorder r) := by
  have contains_of_isWithin {x y : StmtId} (within : t.isWithin x y) : t.contains x :=
    contains_of_mem_ancestors (List.contains_iff_mem.mp within)
  constructor
  case mem_iff =>
    intro x
    rw [h.mem_preorder_iff live]
    constructor
    · exact fun within => (h.isWithin_iff (within.contains live)).mpr within
    · exact fun within => (h.isWithin_iff (contains_of_isWithin within)).mp within
  case nodup => exact h.nodup_preorder live
  case first => rw [h.preorder_eq live, List.head?_cons]
  case eq_cons => exact h.preorder_eq live
  case unique => exact fun list lists => h.eq_preorder lists live
  case piece =>
    intro p member
    have within := (h.mem_preorder_iff live).mp member
    rw [← h.preorder_eq (within.contains live)]
    exact h.preorder_infix within
  case before =>
    intro p x within below differs
    have inner := contains_of_isWithin within
    have piece := h.preorder_infix ((h.isWithin_iff inner).mp within)
    have below := (h.isWithin_iff (contains_of_isWithin below)).mp below
    exact (h.before_of_within inner below differs).trans piece.sublist

/-- In a container only a foreign declaration and a bound name can be in the way. -/
theorem checkDeclare_eq {container decl : StmtId} {name : String}
    (holds : t.checkContainer container = .ok ()) (live : t.contains decl) :
    t.checkDeclare container name decl =
      if t.isWithin decl container then
        match (t.scope? container).bind (·.get? name) with
        | some existing => .error (.duplicateDeclaration name container existing)
        | none => .ok ()
      else .error (.foreignDeclaration name container decl) := by
  obtain ⟨node, found⟩ := Option.isSome_iff_exists.mp live
  rw [checkDeclare, require_ok_iff.mpr found, holds]
  by_cases inside : t.isWithin decl container
  · simp only [inside, if_true]
    cases (t.scope? container).bind (·.get? name) <;> rfl
  · simp only [inside, Bool.false_eq_true, if_false]
    rfl

/-- The walk down from a live statement lists, once each and in source order, the statements from
which the walk up meets it. So attaching one to another would make a cycle exactly if the owner is
in the list of the child, a declaration is foreign to a container exactly if it is not in the list
of the container, and a detached statement takes the names with it that are bound to statements from
which the walk up meets it. -/
theorem Reachable.walks_agree (h : Reachable admitted t) :
    (∀ r, t.contains r → t.SourceOrder r (t.preorder r)) ∧
    (∀ owner child, t.contains owner → t.contains child → child ≠ root →
      t.parent? child = none →
      (t.checkAttach owner child = .error (.cycle child owner) ↔ owner ∈ t.preorder child)) ∧
    (∀ container name decl, t.checkContainer container = .ok () → t.contains decl →
      (t.checkDeclare container name decl = .error (.foreignDeclaration name container decl) ↔
        decl ∉ t.preorder container)) ∧
    ∀ id owner t', t.parent? id = some owner → detach id t = .ok () t' → ∀ c,
      t'.scope? c = (t.scope? c).map fun names =>
        if t.isWithin owner c then names.filter (!t.isWithin · id) else names := by
  have linked := h.rooted.toLinked
  refine ⟨fun r => linked.sourceOrder, ?_, ?_, ?_⟩
  · intro owner child ownerLive childLive notRoot free
    rw [checkAttach_eq ownerLive childLive notRoot free, (linked.sourceOrder childLive).mem_iff]
    cases t.isWithin owner child <;> simp
  · intro container name decl holds live
    obtain ⟨kind, found, -⟩ := checkContainer_ok_iff.mp holds
    rw [checkDeclare_eq holds live, (linked.sourceOrder (contains_of_kind? found)).mem_iff]
    cases t.isWithin decl container
    · simp
    · cases (t.scope? container).bind (·.get? name) <;> simp
  · intro id owner t' owned run c
    obtain ⟨e, held⟩ | ⟨-, free, -⟩ | ⟨owner', s, owned', found, free, run'⟩ :=
      h.rooted.detach_outcome id
    · cases run.symm.trans (h.rooted.detach_of_held held)
    · simp [free] at owned
    · cases owned.symm.trans owned'
      cases run.symm.trans run'
      have order := linked.sourceOrder (contains_of_parent? owned)
      have gone (d : StmtId) : (t.preorder id).contains d = t.isWithin d id := by
        rw [Bool.eq_iff_iff, List.contains_iff_mem, order.mem_iff]
      rw [(linked.detached owned found free).scope?]
      simp only [gone, isWithin, List.contains_iff_mem]

/-- A conditional whose `elif` entry holds a block, which is bound to a name at the root and is
taken away with the entry. The declaration in the first branch is foreign to the entry. -/
theorem walks_agree_of_branches :
    let value := Expr.ident ⟨.identifier, "a", .none⟩
    let calls : List Change := [
      .addExpr value, .push root (.conditional ⟨1⟩ .empty [] none), .addExpr value,
      .add (.elif ⟨3⟩ .empty) .none, .addElif ⟨2⟩ ⟨4⟩, .push ⟨2⟩ (.declaration []),
      .push ⟨4⟩ (.block .empty), .declare root "x" ⟨6⟩, .declare root "y" ⟨5⟩,
      .add (.block .empty) .none]
    let t := initial.run calls
    Reachable (fun _ => True) t ∧ t.SourceOrder ⟨2⟩ [⟨2⟩, ⟨1⟩, ⟨5⟩, ⟨4⟩, ⟨3⟩, ⟨6⟩] ∧
      t.checkAttach ⟨7⟩ ⟨7⟩ = .error (.cycle ⟨7⟩ ⟨7⟩) ∧
      t.checkDeclare ⟨4⟩ "x" ⟨5⟩ = .error (.foreignDeclaration "x" ⟨4⟩ ⟨5⟩) ∧
      ∃ t', detach ⟨4⟩ t = .ok () t' ∧
        (t'.scope? root).map (·.entries) = some [("y", ⟨5⟩)] := by
  intro value calls t
  have h : Reachable (fun _ => True) t := Reachable.initial.run fun _ _ _ _ => trivial
  obtain ⟨order, cycle, foreign, purge⟩ := h.walks_agree
  have whole : t.preorder ⟨2⟩ = [⟨2⟩, ⟨1⟩, ⟨5⟩, ⟨4⟩, ⟨3⟩, ⟨6⟩] := by decide +kernel
  have owned : t.parent? ⟨4⟩ = some ⟨2⟩ := by decide +kernel
  have apart : t.condition? ⟨2⟩ ≠ some ⟨4⟩ := by decide +kernel
  refine ⟨h, whole ▸ order ⟨2⟩ (by decide +kernel), ?_, ?_, ?_⟩
  · have live : t.contains ⟨7⟩ := by decide +kernel
    exact (cycle _ _ live live (by decide) (by decide +kernel)).mpr (by decide +kernel)
  · have holds : t.checkContainer ⟨4⟩ = .ok () :=
      checkContainer_ok_iff.mpr ⟨.elif, by decide +kernel, rfl⟩
    exact (foreign ⟨4⟩ "x" ⟨5⟩ holds (by decide +kernel)).mpr (by decide +kernel)
  · obtain ⟨e, held⟩ | ⟨-, free, -⟩ | ⟨_, _, -, -, -, run⟩ := h.rooted.detach_outcome ⟨4⟩
    · rcases held with isRoot | absent | ⟨owned', held⟩
      · cases isRoot
      · simp [contains_of_parent? owned] at absent
      · cases owned.symm.trans owned'
        exact absurd held apart
    · simp [owned] at free
    · refine ⟨_, run, ?_⟩
      rw [purge ⟨4⟩ ⟨2⟩ _ owned run]
      decide +kernel

end KernelTree.Tree
