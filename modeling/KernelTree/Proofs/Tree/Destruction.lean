import KernelTree.Proofs.Tree.Apart
import KernelTree.Proofs.Tree.CopyOutcome
import KernelTree.Proofs.Tree.Detachment
/-! Destroying a subtree. Exactly its statements are gone, and for good: no number of theirs is
given out again, nothing refers to one, and every call that names one is refused. -/
namespace KernelTree

/-- The operation is refused and leaves the tree as it is. -/
def TreeM.Refused (op : TreeM α) (t : Tree) : Prop := ∃ e, op t = .error e t

namespace TreeM
variable {op : TreeM α} {t t' : Tree}

theorem refused_of_run {checked : Except TreeError Unit} {result : α} {changed : Tree}
    (run : op t = match checked with
      | .ok _ => .ok result changed
      | .error e => .error e t)
    (unfit : checked ≠ .ok ()) : op.Refused t := by
  cases checked with
  | ok => exact absurd rfl unfit
  | error e => exact ⟨e, run⟩

theorem Refused.map {f : α → β} (refused : op.Refused t) : (f <$> op).Refused t := by
  obtain ⟨e, run⟩ := refused
  exact ⟨e, by simp [Functor.map, EStateM.map, run]⟩

theorem after_map (f : α → β) : (f <$> op).after t = op.after t := by
  simp only [after, Functor.map, EStateM.map]
  cases op t <;> rfl

theorem map_ok {f : α → β} {b : β} (run : (f <$> op) t = .ok b t') :
    ∃ a, op t = .ok a t' ∧ f a = b := by
  simp only [Functor.map, EStateM.map] at run
  cases done : op t with
  | ok a =>
    rw [done] at run
    cases run
    exact ⟨a, rfl, rfl⟩
  | error =>
    rw [done] at run
    cases run

end TreeM

namespace Tree

variable {t t' source : Tree} {id d x owner : StmtId} {count : Nat} {calls : List Call}
  {admitted : Stmt → Prop} {shared : Tree → Prop}

/-! Numbers that stand for nothing any more. -/

/-- Slots that have been emptied stay empty, and no slot is given up. -/
structure Retires (t t' : Tree) : Prop where
  size : t.slots.size ≤ t'.slots.size
  dead : ∀ d : StmtId, d.index < t.slots.size → t.contains d = false → t'.contains d = false

namespace Retires

theorem refl (t : Tree) : t.Retires t := ⟨Nat.le_refl _, fun _ _ dead => dead⟩

theorem trans {t₁ t₂ t₃ : Tree} (first : t₁.Retires t₂) (later : t₂.Retires t₃) :
    t₁.Retires t₃ where
  size := Nat.le_trans first.size later.size
  dead d bound dead := later.dead d (Nat.lt_of_lt_of_le bound first.size) (first.dead d bound dead)

end Retires

theorem Edit.retires (edit : Edit admitted shared t t') : t.Retires t' := by
  cases edit with
  | give => exact ⟨by simp, fun d _ dead => by simpa [Tree.give] using dead⟩
  | @make s span =>
    refine ⟨by simp, fun d bound dead => ?_⟩
    have old : t.nextId ≠ d := by
      rintro rfl
      exact Nat.lt_irrefl _ bound
    rw [contains_eq] at dead ⊢
    rwa [stmt?_extended, if_neg old]
  | declare => exact ⟨by simp [updateStmt], fun d _ dead => by simpa using dead⟩
  | withdraw =>
    exact ⟨by simp [Tree.withdrawn, setParent, updateStmt], fun d _ dead => by simpa using dead⟩
  | clear _ _ _ cleared =>
    refine ⟨Nat.le_of_eq cleared.size.symm, fun d _ dead => ?_⟩
    rw [contains, cleared.get?]
    split
    · rfl
    · exact dead
  | copy _ _ copied =>
    refine ⟨copied.size ▸ Nat.le_add_right .., fun d bound dead => ?_⟩
    apply Bool.eq_false_iff.mpr
    intro live
    rcases copied.origin live with ⟨y, -, rfl⟩ | old
    · exact Nat.not_lt.mpr base_le_image bound
    · simp [dead] at old

theorem Edits.retires (edits : Edits admitted shared t t') : t.Retires t' := by
  induction edits with
  | refl => exact .refl t
  | tail _ edit ih => exact ih.trans edit.retires

theorem Call.retires {c : Call} (h : Reachable Stmt.Bare t) (admitted : c.Admitted) :
    t.Retires (c.after t) := by
  have linked := h.rooted.toLinked
  cases c with
  | change c =>
    have edits : Edits Stmt.Bare Linked t (c.after t) := c.edits linked linked admitted
    exact edits.retires
  | copyFrom source r owner =>
    have hs : Reachable Stmt.Bare source := admitted
    have origin := hs.rooted.toLinked
    have edits : Edits Stmt.Bare Linked t _ := .copyFrom origin origin r owner t
    exact edits.retires

theorem Reachable.retires (h : Reachable Stmt.Bare t) (admitted : ∀ c ∈ calls, c.Admitted) :
    t.Retires (t.followed calls) := by
  induction calls generalizing t with
  | nil => exact .refl t
  | cons c rest ih =>
    obtain ⟨first, others⟩ := List.forall_mem_cons.mp admitted
    exact (Call.retires h first).trans (ih (Call.reachable h first) others)

/-! Calls that name such a number. -/

/-- The call as an operation, with the number of the statement that it makes as its result. -/
def Change.op : Change → TreeM (Option StmtId)
  | add stmt span => some <$> Tree.add stmt span
  | addExpr value => some <$> Tree.addExpr value
  | push owner stmt => some <$> Tree.push owner stmt
  | append owner child => (fun _ => none) <$> Tree.append owner child
  | addElif owner entry => (fun _ => none) <$> Tree.addElif owner entry
  | setElse owner entry => (fun _ => none) <$> Tree.setElse owner entry
  | declare container name decl => (fun _ => none) <$> Tree.declare container name decl
  | detach id => (fun _ => none) <$> Tree.detach id
  | remove id => (fun _ => none) <$> Tree.remove id
  | clone r owner => some <$> Tree.clone r owner

def Call.op : Call → TreeM (Option StmtId)
  | change c => c.op
  | copyFrom source r owner => some <$> Tree.copyFrom source r owner

theorem Change.after_op (c : Change) : c.op.after t = c.after t := by
  cases c <;> exact TreeM.after_map _

theorem Call.after_op (c : Call) : c.op.after t = c.after t := by
  cases c with
  | change c => exact c.after_op
  | copyFrom => exact TreeM.after_map _

section dead
variable (dead : t.contains d = false)
include dead

theorem Attachable.ne_of_dead {owner child : StmtId} (fits : t.Attachable owner child) :
    d ≠ owner ∧ d ≠ child := by
  constructor
  · rintro rfl
    simp [fits.owner_live] at dead
  · rintro rfl
    simp [fits.child_live] at dead

theorem checkAdd_of_dead {stmt : Stmt} (named : d ∈ stmt.owned) : t.checkAdd stmt ≠ .ok () := by
  intro fits
  simp [(checkAdd_ok_iff.mp fits).live d named] at dead

theorem checkContainer_of_dead : t.checkContainer d ≠ .ok () := by
  intro fits
  obtain ⟨k, kind, -⟩ := checkContainer_ok_iff.mp fits
  simp [contains_of_kind? kind] at dead

theorem push_refused_of_dead {stmt : Stmt} (named : d = owner ∨ d ∈ stmt.owned) :
    (push owner stmt).Refused t := by
  rw [TreeM.Refused, push_run]
  cases container : t.checkContainer owner with
  | error e => exact ⟨e, rfl⟩
  | ok =>
    by_cases entry : stmt.kind.isChainEntry
    · simp only [entry, if_true]
      exact ⟨_, rfl⟩
    · simp only [entry, Bool.false_eq_true, if_false]
      cases checked : t.checkAdd stmt with
      | error e => exact ⟨e, rfl⟩
      | ok =>
        rcases named with rfl | owned
        · exact absurd container (checkContainer_of_dead dead)
        · exact absurd checked (checkAdd_of_dead dead owned)

theorem declare_refused_of_dead {container decl : StmtId} {name : String}
    (named : d = container ∨ d = decl) : (declare container name decl).Refused t := by
  refine TreeM.refused_of_run declare_run fun fits => ?_
  obtain ⟨live, ⟨k, kind, -⟩, -⟩ := checkDeclare_ok_iff.mp fits
  rcases named with rfl | rfl
  · simp [contains_of_kind? kind] at dead
  · simp [live] at dead

theorem Rooted.detach_refused_of_dead (h : t.Rooted) : (detach d).Refused t :=
  ⟨_, h.detach_of_held (.unknown dead)⟩

theorem Rooted.remove_refused_of_dead (h : t.Rooted) : (remove d).Refused t :=
  ⟨_, TreeM.bind_error (h.detach_of_held (.unknown dead))⟩

/-- Nothing is copied from there, whatever the destination. -/
theorem uncopied_of_dead (dest : Tree) (owner : Option StmtId) :
    (copyFrom t d owner).Refused dest :=
  ⟨_, TreeM.bind_error (TreeM.check_error (require_error_iff.mpr ⟨dead, rfl⟩))⟩

end dead

theorem Reachable.copyFrom_refused_of_dead (hs : Reachable Stmt.Bare source)
    (h : Reachable Stmt.Bare t) (r : StmtId) (dead : t.contains owner = false) :
    (Tree.copyFrom source r (some owner)).Refused t := by
  have settled := copyFrom_settled hs.rooted.toLinked hs.enclosed h.rooted r (some owner)
  cases kind : source.kind? r with
  | none => exact ⟨_, (settled.refused_iff _ _).mpr ⟨rfl, .unknown (kind?_eq_none_iff.mp kind)⟩⟩
  | some k => exact ⟨_, (settled.refused_iff _ _).mpr ⟨rfl, .rejected rfl kind (.unknown dead)⟩⟩

theorem Reachable.refused_of_dead (h : Reachable Stmt.Bare t) (dead : t.contains d = false)
    {c : Call} (admitted : c.Admitted) (named : d ∈ c.numbers) : c.op.Refused t := by
  have rooted := h.rooted
  -- A payload with an empty block names no more than it owns.
  have owned {stmt : Stmt} (bare : stmt.Bare) (named : d ∈ stmt.owned ++ stmt.targets) :
      d ∈ stmt.owned := by
    rwa [Stmt.targets_of_bare bare, List.append_nil] at named
  have given {owner child : StmtId} (named : d ∈ [owner, child]) :
      ¬ t.Attachable owner child := by
    intro fits
    obtain ⟨notOwner, notChild⟩ := fits.ne_of_dead dead
    simp [notOwner, notChild] at named
  rcases c with c | ⟨source, r, o⟩
  · cases c with
    | add stmt span =>
      have refused := checkAdd_of_dead dead (owned (admitted stmt rfl) named)
      exact (TreeM.refused_of_run add_run refused).map
    | addExpr value => simp [Call.numbers, Change.numbers] at named
    | push owner stmt =>
      have named := (List.mem_cons.mp named).imp_right (owned (admitted stmt rfl))
      exact (push_refused_of_dead dead named).map
    | append owner child =>
      refine (TreeM.refused_of_run append_run fun fits => ?_).map
      exact given named (checkAppend_ok_iff.mp fits).2.2
    | addElif owner entry =>
      refine (TreeM.refused_of_run addElif_run fun fits => ?_).map
      exact given named (checkAddElif_ok_iff.mp fits).2.2.2
    | setElse owner entry =>
      refine (TreeM.refused_of_run setElse_run fun fits => ?_).map
      exact given named (checkSetElse_ok_iff.mp fits).2.2.2
    | declare container name decl =>
      have named : d = container ∨ d = decl := by simpa [Call.numbers, Change.numbers] using named
      exact (declare_refused_of_dead dead named).map
    | detach id =>
      obtain rfl := List.mem_singleton.mp named
      exact (rooted.detach_refused_of_dead dead).map
    | remove id =>
      obtain rfl := List.mem_singleton.mp named
      exact (rooted.remove_refused_of_dead dead).map
    | clone r o =>
      rcases List.mem_cons.mp named with rfl | given
      · exact (uncopied_of_dead dead t o).map
      · cases Option.mem_toList.mp given
        exact (h.copyFrom_refused_of_dead h r dead).map
  · cases Option.mem_toList.mp named
    exact (Reachable.copyFrom_refused_of_dead admitted h r dead).map

theorem number_of_add {stmt : Stmt} {span : Span} {new : StmtId}
    (done : add stmt span t = .ok new t') : new = t.nextId := by
  rw [add_run] at done
  cases checked : t.checkAdd stmt with
  | error =>
    rw [checked] at done
    cases done
  | ok =>
    rw [checked] at done
    exact (EStateM.Result.ok.inj done).1.symm

theorem number_of_push {stmt : Stmt} {new : StmtId} (done : push owner stmt t = .ok new t') :
    new = t.nextId := by
  rw [push_run] at done
  repeat' split at done
  all_goals cases done
  rfl

theorem Reachable.number_of_copyFrom (hs : Reachable Stmt.Bare source) (h : Reachable Stmt.Bare t)
    {r new : StmtId} {owner : Option StmtId} (done : Tree.copyFrom source r owner t = .ok new t') :
    new = t.nextId := by
  rw [copyFrom_run hs.rooted.toLinked hs.enclosed h.rooted] at done
  split at done
  · exact (EStateM.Result.ok.inj done).1.symm
  · cases done

/-- Numbers are given out in order. -/
theorem Reachable.number_of_op (h : Reachable Stmt.Bare t) {c : Call} (admitted : c.Admitted)
    {new : StmtId} (done : c.op t = .ok (some new) t') : new = t.nextId := by
  rcases c with c | ⟨source, r, o⟩
  · cases c
    case add | addExpr =>
      obtain ⟨_, run, ⟨⟩⟩ := TreeM.map_ok done
      exact number_of_add run
    case push =>
      obtain ⟨_, run, ⟨⟩⟩ := TreeM.map_ok done
      exact number_of_push run
    case clone =>
      obtain ⟨_, run, ⟨⟩⟩ := TreeM.map_ok done
      exact h.number_of_copyFrom h run
    all_goals
      obtain ⟨_, -, none⟩ := TreeM.map_ok done
      cases none
  · obtain ⟨_, run, ⟨⟩⟩ := TreeM.map_ok done
    exact Reachable.number_of_copyFrom admitted h run

/-- Nothing stands behind the number or refers to it, it is not given out again, and whatever names
it is refused. -/
structure Gone (t : Tree) (d : StmtId) : Prop where
  dead : t.contains d = false
  unowned : ∀ x, d ∉ t.owned x
  childless : ∀ x, t.parent? x ≠ some d
  unbound : ∀ c names, t.scope? c = some names → ∀ name, (name, d) ∉ names.entries
  fresh : ∀ c : Call, c.Admitted → ∀ new t', c.op t = .ok (some new) t' → new ≠ d
  refused : ∀ c : Call, c.Admitted → d ∈ c.numbers → c.op.Refused t
  uncopied : ∀ dest owner, (copyFrom t d owner).Refused dest

theorem Reachable.gone (h : Reachable Stmt.Bare t) (dead : t.contains d = false)
    (bound : d.index < t.slots.size) : t.Gone d := by
  have linked := h.rooted.toLinked
  constructor
  case dead => exact dead
  case unowned =>
    intro x member
    simp [linked.contains_owned member] at dead
  case childless =>
    intro x owned
    simp [linked.contains_owner owned] at dead
  case unbound =>
    intro c names there name entry
    rw [scope?_eq] at there
    obtain ⟨s, found, scope⟩ := Option.bind_eq_some_iff.mp there
    have below : t.Within d c := by
      apply h.enclosed c s found d
      rw [Stmt.targets_eq, scope]
      exact List.mem_map_of_mem entry
    simp [below.contains (contains_of_stmt? found)] at dead
  case fresh =>
    rintro c admitted new t' done rfl
    rw [h.number_of_op admitted done] at bound
    exact Nat.lt_irrefl _ bound
  case refused => exact fun c admitted named => h.refused_of_dead dead admitted named
  case uncopied => exact uncopied_of_dead dead

/-! Destroying. -/

/-- The effect of destroying the subtree at `id`, which was detached in `t₁`. -/
structure Destroyed (t : Tree) (id : StmtId) (t₁ t' : Tree) (count : Nat) : Prop where
  detached : detach id t = .ok () t₁
  nodup : (t.preorder id).Nodup
  alive : ∀ x ∈ t.preorder id, t.contains x
  count_eq : count = (t.preorder id).length
  live : t'.live + count = t.live
  size : t'.slots.size = t.slots.size
  node : ∀ x, t'.get? x = if x ∈ t.preorder id then none else t₁.get? x

theorem Reachable.destroyed (h : Reachable Stmt.Bare t) (done : remove id t = .ok count t') :
    ∃ t₁, t.Destroyed id t₁ t' count := by
  have rooted := h.rooted
  have linked := rooted.toLinked
  obtain ⟨e, run⟩ | ⟨t₁, t₂, first, notRoot, linked₁, live₁, -, cleared, left, run⟩ :=
    linked.remove_cases id
  · cases done.symm.trans run
  cases done.symm.trans run
  -- What was detached is the same subtree, and nothing has been given up yet.
  have same : t.contains id ∧ t₁.preorder id = t.preorder id ∧ t₁.live = t.live ∧
      t₁.slots.size = t.slots.size := by
    obtain ⟨e, held⟩ | ⟨live, -, run₁⟩ | ⟨owner, s, owned, found, free, run₁⟩ :=
      rooted.detach_outcome id
    · cases first.symm.trans (rooted.detach_of_held held)
    · cases first.symm.trans run₁
      exact ⟨live, rfl, rfl, rfl⟩
    · cases first.symm.trans run₁
      have effect := linked.detached owned found free
      have live := contains_of_parent? owned
      exact ⟨live, effect.preorder_eq linked live, effect.live, effect.size⟩
  obtain ⟨live, order, liveCount, size⟩ := same
  rw [order] at cleared left
  refine ⟨t₁, first, linked.nodup_preorder live, ?_, congrArg List.length order, ?_,
    cleared.size.trans size, cleared.get?⟩
  · exact fun x member => (linked.walk_preorder live).contains_of_mem member
  · have counted := cleared.population
    have full := linked₁.live_eq
    rw [order]
    omega

/-- A subtree is destroyed as a whole, each statement once and nothing beside it, and whatever is
done with the tree afterwards, its statements stay gone. -/
theorem Reachable.remove_effect (h : Reachable Stmt.Bare t) (done : remove id t = .ok count t') :
    (∃ t₁, t.Destroyed id t₁ t' count) ∧
    ∀ calls : List Call, (∀ c ∈ calls, c.Admitted) →
      ∀ d ∈ t.preorder id, (t'.followed calls).Gone d := by
  obtain ⟨t₁, destroyed⟩ := h.destroyed done
  refine ⟨⟨t₁, destroyed⟩, fun calls admitted d inside => ?_⟩
  have h' : Reachable Stmt.Bare t' := TreeM.after_ok done ▸ h.change (.remove id) nofun
  have dead : t'.contains d = false := by
    rw [contains, destroyed.node, if_pos inside]
    rfl
  have bound : d.index < t'.slots.size := destroyed.size ▸ index_lt (destroyed.alive d inside)
  have later := h'.retires admitted
  exact (h'.followed admitted).gone (later.dead d bound dead) (Nat.lt_of_lt_of_le bound later.size)

/-- A block is destroyed with the declaration in it, which the root has forgotten. Neither has come
back after a new statement and a copy of the whole tree, and giving it to the root is refused. -/
theorem remove_effect_of_block :
    let calls : List Change := [
      .push root (.block .empty), .push ⟨1⟩ (.declaration []), .declare ⟨1⟩ "x" ⟨2⟩,
      .declare root "x" ⟨2⟩, .push root .breakJump]
    let later : List Call := [.change (.push root .defaultLabel), .change (.clone root (some root))]
    let t := initial.run calls
    Reachable Stmt.Bare t ∧ t.preorder ⟨1⟩ = [⟨1⟩, ⟨2⟩] ∧ t.resolve root "x" = some ⟨2⟩ ∧
      ∃ t', remove ⟨1⟩ t = .ok 2 t' ∧ t'.live = 2 ∧ t'.kind? ⟨3⟩ = some .breakJump ∧
        (t'.followed later).live = 6 ∧ (t'.followed later).Gone ⟨2⟩ ∧
        (Call.change (.append root ⟨2⟩)).after (t'.followed later) = t'.followed later := by
  intro calls later t
  have h : Reachable Stmt.Bare t := Reachable.initial.run (by decide)
  have order : t.preorder ⟨1⟩ = [⟨1⟩, ⟨2⟩] := by decide +kernel
  have resolved : t.resolve root "x" = some ⟨2⟩ := by decide +kernel
  have done : remove ⟨1⟩ t = .ok 2 ((remove ⟨1⟩).after t) := by rfl
  obtain ⟨⟨t₁, destroyed⟩, gone⟩ := h.remove_effect done
  have admitted : ∀ c ∈ later, c.Admitted := by
    simp [later, Call.Admitted, Change.payload?, Stmt.Bare, Stmt.body?]
  have gone := gone later admitted ⟨2⟩ (by simp [order])
  have append : (Call.change (.append root ⟨2⟩)).Admitted := by
    simp [Call.Admitted, Change.payload?]
  obtain ⟨e, run⟩ := gone.refused _ append (by simp [Call.numbers, Change.numbers])
  refine ⟨h, order, resolved, _, done, by decide +kernel, by decide +kernel, by decide +kernel,
    gone, ?_⟩
  rw [← Call.after_op]
  exact TreeM.after_error run

end Tree
end KernelTree
