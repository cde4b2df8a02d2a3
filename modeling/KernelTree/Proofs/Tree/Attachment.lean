import KernelTree.Proofs.Tree.Detachment
/-! Giving a statement to an owner, exactly: which place is filled, and that nothing else changes.
Taking the statement away again leads back to the same tree, with all names that were declared
around the place. -/
namespace KernelTree

/-- Where every name leads to a statement that is kept, no name is dropped. -/
theorem Stmt.mapScope_filter_eq_self {keep : StmtId → Bool} {s : Stmt}
    (all : ∀ d ∈ s.targets, keep d) : s.mapScope (·.filter keep) = s := by
  apply mapBody_eq_self
  intro body there
  have same : body.scope.filter keep = body.scope := by
    apply Scope.ext
    apply List.filter_eq_self.mpr
    intro e entry
    apply all
    rw [targets, Option.mem_def.mp there]
    exact List.mem_map_of_mem entry
  simp only [same]

/-- Where an operation succeeds that stands or falls by a check, the check has passed. -/
theorem TreeM.checked_of_run {op : TreeM α} {t t' changed : Tree} {result a : α}
    {checked : Except TreeError Unit}
    (run : op t = match checked with
      | .ok _ => .ok result changed
      | .error e => .error e t) (done : op t = .ok a t') : checked = .ok () := by
  cases checked with
  | ok => rfl
  | error => cases run.symm.trans done

namespace Tree

variable {t t' : Tree} {id x y owner child : StmtId} {s : Stmt} {role : Stmt.Role}
  {f : Stmt → Stmt}

/-- The effect of giving `child` to `owner` in a place of that role. -/
structure Attached (t : Tree) (role : Stmt.Role) (owner child : StmtId) (t' : Tree) : Prop where
  size : t'.slots.size = t.slots.size
  live : t'.live = t.live
  others : ∀ x, x ≠ owner → x ≠ child → t'.get? x = t.get? x
  /-- The child had no owner and has one now. -/
  childNode : ∃ node : Node, node.parent = none ∧ t.get? child = some node ∧
    t'.get? child = some { node with parent := some owner }
  /-- The owner has the child behind those in places of that role, and is otherwise the same. -/
  ownerNode : ∃ (node : Node) (s : Stmt), t.get? owner = some node ∧
    t'.get? owner = some { node with stmt := s } ∧ node.stmt.Entered role child s

section give
variable (fits : t.Attachable owner child)
include fits

theorem Attachable.owner_ne (h : t.Linked) : child ≠ owner := by
  rintro rfl
  have inside := (h.isWithin_iff fits.child_live).mpr (.refl ..)
  simp [fits.outside] at inside

theorem Attachable.fresh (h : t.Linked) (found : t.stmt? owner = some s) : child ∉ s.owned := by
  intro member
  have owned := h.parent?_of_mem found member
  simp [fits.free] at owned

theorem Linked.attached (h : t.Linked) (found : t.stmt? owner = some s)
    (entered : s.Entered role child (f s)) :
    t.Attached role owner child (t.give owner child f) := by
  have apart := fits.owner_ne h
  have node (x : StmtId) := get?_give (t := t) (x := x) (f := f) apart
  constructor
  case size => exact slots_size_give
  case live => rfl
  case others =>
    intro x notOwner notChild
    rw [node, if_neg (Ne.symm notChild), if_neg (Ne.symm notOwner)]
  case childNode =>
    obtain ⟨childNode, there⟩ := Option.isSome_iff_exists.mp fits.child_live
    refine ⟨childNode, (parent?_of_get? there).symm.trans fits.free, there, ?_⟩
    rw [node, if_pos rfl, there, Option.map_some]
  case ownerNode =>
    obtain ⟨ownerNode, there, same⟩ := Option.map_eq_some_iff.mp found
    subst same
    refine ⟨ownerNode, f ownerNode.stmt, there, ?_, entered⟩
    rw [node, if_neg apart, if_pos rfl, there]
    rfl

/-- No name around the owner leads into what the owner has just been given: until then that had an
owner nowhere, and what is declared in a container lies within it. -/
theorem Enclosed.not_mem_preorder_of_give (enclosed : t.Enclosed)
    (h : (t.give owner child f).Linked)
    (around : x ∈ (t.give owner child f).ancestors owner) (found : t.stmt? x = some s)
    {d : StmtId} (bound : d ∈ s.targets) : d ∉ (t.give owner child f).preorder child := by
  intro inside
  have parents (x : StmtId) : (t.give owner child f).parent? x = _ := parent?_give fits.child_live
  have owned : (t.give owner child f).parent? child = some owner := by rw [parents, if_pos rfl]
  have below : (t.give owner child f).Within d child :=
    (h.mem_preorder_iff (contains_of_parent? owned)).mp inside
  have before : t.Within d child := by
    refine below.cut (fun y => ?_) fun owner' owned' _ => h.not_within_owned owned'
    rw [parents]
    split
    next same => rw [← same, fits.free]
    next => rfl
  have within : t.Within x child := by
    rcases (enclosed x s found d bound).total before with within | outer
    · exact within
    · exact outer.eq_of_free fits.free ▸ .refl ..
  have still : (t.give owner child f).Within x child := by
    refine within.mono fun {y p} owned => ?_
    rw [parents, if_neg, owned]
    rintro rfl
    simp [fits.free] at owned
  have around := (h.mem_ancestors_iff (h.contains_owner owned)).mp around
  exact h.not_within_owned owned (around.trans still)

/-- What was just given to an owner can be taken away, and then all is as before. -/
theorem Enclosed.detach_give (enclosed : t.Enclosed) (h : t.Rooted) (found : t.stmt? owner = some s)
    (gains : t.Gains child s (f s)) (entered : s.Entered role child (f s)) :
    detach child (t.give owner child f) = .ok () t := by
  have apart := fits.owner_ne h.toLinked
  have fresh := fits.fresh h.toLinked found
  have edit : Edit (fun _ => True) (fun _ => False) t _ := .give fits found gains
  have rooted := edit.rooted h fun _ shared => shared.elim
  have changed : t.Changed (t.give owner child f) owner (f s) := stmt?_give found
  have now : (t.give owner child f).stmt? owner = some (f s) := by rw [changed, if_pos rfl]
  have owned : (t.give owner child f).parent? child = some owner := by
    rw [parent?_give fits.child_live, if_pos rfl]
  have notCondition : (f s).condition? ≠ some child := by
    rw [← Stmt.condition?_without child, entered.without]
    exact fun held => fresh (Stmt.mem_owned_of_condition? held)
  obtain ⟨e, held⟩ | ⟨-, free, -⟩ | ⟨owner', s', owned', found', -, run⟩ :=
    rooted.detach_outcome child
  · rcases held with isRoot | absent | ⟨owned', held⟩
    · exact absurd isRoot fits.not_root
    · simp [contains_of_parent? owned] at absent
    · cases owned.symm.trans owned'
      exact absurd ((condition?_of_stmt? now).symm.trans held) notCondition
  · simp [owned] at free
  · cases owned.symm.trans owned'
    cases now.symm.trans found'
    have effect := rooted.toLinked.detached owned now notCondition
    have attached := h.toLinked.attached fits found entered
    rw [run]
    congr 1
    apply eq_of_get?
    case size => exact effect.size.trans slots_size_give
    case live => exact effect.live
    case same =>
      intro i _
      have kept (x : StmtId) (node : Node) (there : t.get? x = some node) :
          (if x ∈ (t.give owner child f).ancestors owner then
            node.stmt.mapScope (·.filter (!((t.give owner child f).preorder child).contains ·))
          else node.stmt) = node.stmt := by
        split
        next around =>
          apply Stmt.mapScope_filter_eq_self
          intro d bound
          have outside := enclosed.not_mem_preorder_of_give fits rooted.toLinked around
            (stmt?_of_get? there) bound
          simpa using outside
        next => rfl
      by_cases isChild : ⟨i⟩ = child
      · obtain ⟨node, free, before, after⟩ := attached.childNode
        rw [isChild, effect.itself, after, before, Option.map_some, ← free]
      by_cases isOwner : ⟨i⟩ = owner
      · obtain ⟨node, s', before, after, entered⟩ := attached.ownerNode
        rw [isOwner, effect.node, after, before, Option.map_some, if_neg (Ne.symm apart)]
        simp only [remainder, if_true, entered.without]
        rw [kept owner node before]
      · rw [effect.node, attached.others _ isOwner isChild]
        cases there : t.get? ⟨i⟩ with
        | none => rfl
        | some node =>
          simp only [Option.map_some, remainder, if_neg isOwner, if_neg isChild]
          rw [kept _ node there]

end give

/-- An operation that gives a statement to an owner, where it succeeds, changes what `Attached` says
and can be taken back. -/
theorem Reachable.attached_of_gives (h : Reachable Stmt.Bare t) {op : TreeM Unit}
    (gives : t.Gives owner child f op) (run : op t = .ok () t')
    (entered : ∀ s, t.stmt? owner = some s → child ∉ s.owned → s.Entered role child (f s)) :
    t.Attached role owner child t' ∧ detach child t' = .ok () t := by
  have linked := h.rooted.toLinked
  obtain ⟨e, refused⟩ | ⟨s, fits, found, gains, given⟩ := gives
  · cases run.symm.trans refused
  · cases run.symm.trans given
    have entered := entered s found (fits.fresh linked found)
    exact ⟨linked.attached fits found entered,
      h.enclosed.detach_give fits h.rooted found gains entered⟩

/-- Appending a statement, giving a conditional an `elif` entry and giving it its `else` entry fill
one place and change nothing else, and detaching what was given leads back to the very same tree,
with every name that is declared around the place. -/
theorem Reachable.attach_detach (h : Reachable Stmt.Bare t) :
    (∀ owner child t', append owner child t = .ok () t' →
      t.Attached .child owner child t' ∧ detach child t' = .ok () t) ∧
    (∀ owner entry t', addElif owner entry t = .ok () t' →
      t.Attached .elif owner entry t' ∧ detach entry t' = .ok () t) ∧
    ∀ owner entry t', setElse owner entry t = .ok () t' →
      t.Attached .otherwise owner entry t' ∧ detach entry t' = .ok () t := by
  refine ⟨?_, ?_, ?_⟩
  · intro owner child t' run
    obtain ⟨⟨k, kind, container⟩, -, -⟩ :=
      checkAppend_ok_iff.mp (TreeM.checked_of_run append_run run)
    refine h.attached_of_gives (append_gives owner child t) run fun s found fresh => ?_
    exact Stmt.entered_addChild fresh (kind_of_stmt? found kind ▸ container)
  · intro owner entry t' run
    obtain ⟨kind, -, -, -⟩ := checkAddElif_ok_iff.mp (TreeM.checked_of_run addElif_run run)
    refine h.attached_of_gives (addElif_gives owner entry t) run fun s found fresh => ?_
    exact Stmt.entered_addElif fresh (kind_of_stmt? found kind)
  · intro owner entry t' run
    obtain ⟨kind, -, opened, -⟩ := checkSetElse_ok_iff.mp (TreeM.checked_of_run setElse_run run)
    refine h.attached_of_gives (setElse_gives owner entry t) run fun s found fresh => ?_
    exact Stmt.entered_setElse fresh (kind_of_stmt? found kind)
      ((last?_of_stmt? found).symm.trans opened)

/-- A conditional that declares a name, and around which its own name is declared, is given a block,
an `elif` entry with a name of its own and an `else` entry. -/
theorem attach_detach_of_branches :
    let calls : List Change := [
      .addExpr (.ident ⟨.identifier, "a", .none⟩), .push root (.conditional ⟨1⟩ .empty [] none),
      .addExpr (.ident ⟨.identifier, "b", .none⟩), .add (.elif ⟨3⟩ .empty) .none,
      .push ⟨4⟩ (.declaration []), .declare ⟨4⟩ "x" ⟨5⟩, .declare root "x" ⟨2⟩,
      .declare ⟨2⟩ "y" ⟨1⟩, .add (.otherwise .empty) .none, .add (.block .empty) .none]
    let t := initial.run calls
    Reachable Stmt.Bare t ∧
      (∃ t', append ⟨2⟩ ⟨7⟩ t = .ok () t' ∧ t.Attached .child ⟨2⟩ ⟨7⟩ t' ∧
        detach ⟨7⟩ t' = .ok () t) ∧
      (∃ t', addElif ⟨2⟩ ⟨4⟩ t = .ok () t' ∧ t.Attached .elif ⟨2⟩ ⟨4⟩ t' ∧
        t'.resolve ⟨5⟩ "y" = some ⟨1⟩ ∧ detach ⟨4⟩ t' = .ok () t) ∧
      ∃ t', setElse ⟨2⟩ ⟨6⟩ t = .ok () t' ∧ t.Attached .otherwise ⟨2⟩ ⟨6⟩ t' ∧
        detach ⟨6⟩ t' = .ok () t := by
  intro calls t
  have h : Reachable Stmt.Bare t := Reachable.initial.run (by decide)
  obtain ⟨append, addElif, setElse⟩ := h.attach_detach
  have appended : Tree.append ⟨2⟩ ⟨7⟩ t = .ok () ((Tree.append ⟨2⟩ ⟨7⟩).after t) := by rfl
  have added : Tree.addElif ⟨2⟩ ⟨4⟩ t = .ok () ((Tree.addElif ⟨2⟩ ⟨4⟩).after t) := by rfl
  have set : Tree.setElse ⟨2⟩ ⟨6⟩ t = .ok () ((Tree.setElse ⟨2⟩ ⟨6⟩).after t) := by rfl
  have elif := addElif _ _ _ added
  exact ⟨h, ⟨_, appended, append _ _ _ appended⟩,
    ⟨_, added, elif.1, by decide +kernel, elif.2⟩, _, set, setElse _ _ _ set⟩

end Tree
end KernelTree
