import KernelTree.Proofs.Tree.Images
/-! The ways in which a tree can change. Every operation on a linked tree, successful or refused,
comes down to a few elementary edits, each made only where it fits. -/
namespace KernelTree.Tree

/-- One elementary edit. New statements are among those admitted, and copies come from a tree that
is shared. -/
inductive Edit (admitted : Stmt → Prop) (shared : Tree → Prop) (t : Tree) : Tree → Prop
  | give {owner child : StmtId} {s : Stmt} {f : Stmt → Stmt} (fits : t.Attachable owner child)
    (found : t.stmt? owner = some s) (gains : t.Gains child s (f s)) :
    Edit admitted shared t (t.give owner child f)
  | make {s : Stmt} {span : Span} (payload : admitted s) (fits : t.Addable s) :
    Edit admitted shared t (t.extended s span)
  | declare {container decl : StmtId} {name : String} (live : t.contains decl)
    (inside : t.isWithin decl container) :
    Edit admitted shared t (t.updateStmt container (.mapScope (·.insertIfNew name decl)))
  | withdraw {id owner : StmtId} {s rest : Stmt} (owned : t.parent? id = some owner)
    (found : t.stmt? owner = some s) (taken : s.unlink id = (rest, true)) :
    Edit admitted shared t (t.withdrawn id owner rest)
  | clear {id : StmtId} {t' : Tree} (notRoot : id ≠ root) (live : t.contains id)
    (free : t.parent? id = none) (cleared : t.Cleared (t.preorder id) t')
    (count : t'.live = t.live - (t.preorder id).length) : Edit admitted shared t t'
  | copy {source t' : Tree} {r : StmtId} (origin : shared source) (live : source.contains r)
    (copied : Copied source r (source.image r t.slots.size) t t') : Edit admitted shared t t'

/-- Any number of elementary edits. -/
def Edits (admitted : Stmt → Prop) (shared : Tree → Prop) : Tree → Tree → Prop :=
  Relation.ReflTransGen (Edit admitted shared)

variable {admitted : Stmt → Prop} {shared : Tree → Prop} {t t' : Tree}

theorem Edit.linked (h : t.Linked) (sources : ∀ s, shared s → s.Linked)
    (edit : Edit admitted shared t t') : t'.Linked := by
  cases edit with
  | give fits found gains => exact h.give fits found gains
  | make _ fits => exact h.extended fits
  | declare => exact h.mapScope
  | withdraw owned found taken => exact h.withdrawn owned found taken
  | clear _ live free cleared count => exact h.cleared live free cleared count
  | copy origin live copied => exact copied.linked (sources _ origin) live h

namespace Edits

theorem refl (t : Tree) : Edits admitted shared t t := Relation.ReflTransGen.refl

theorem one (edit : Edit admitted shared t t') : Edits admitted shared t t' :=
  Relation.ReflTransGen.single edit

theorem gives {owner child : StmtId} {f : Stmt → Stmt} {op : TreeM Unit}
    (h : t.Gives owner child f op) : Edits admitted shared t (op.after t) := by
  obtain ⟨e, run⟩ | ⟨s, fits, found, gains, run⟩ := h
  · rw [TreeM.after_error run]
    exact refl t
  · rw [TreeM.after_ok run]
    exact one (.give fits found gains)

theorem add {s : Stmt} (payload : admitted s) (span : Span) (t : Tree) :
    Edits admitted shared t ((Tree.add s span).after t) := by
  rw [TreeM.after, add_run]
  cases checked : t.checkAdd s with
  | error e => exact refl t
  | ok => exact one (.make payload (checkAdd_ok_iff.mp checked))

theorem push {s : Stmt} (payload : admitted s) (owner : StmtId) (t : Tree) :
    Edits admitted shared t ((Tree.push owner s).after t) := by
  rw [TreeM.after, push_run]
  cases t.checkContainer owner with
  | error e => exact refl t
  | ok =>
    by_cases entry : s.kind.isChainEntry
    · simp only [entry, if_true]
      exact refl t
    · simp only [entry, Bool.false_eq_true, if_false]
      cases checked : t.checkAdd s with
      | error e => exact refl t
      | ok =>
        have made : Edits admitted shared t (t.extended s .none) :=
          one (.make payload (checkAdd_ok_iff.mp checked))
        have given : Edits admitted shared (t.extended s .none) _ :=
          gives (append_gives owner t.nextId (t.extended s .none))
        rw [TreeM.after, append_run] at given
        cases fits : (t.extended s .none).checkAppend owner t.nextId with
        | error e => exact made
        | ok =>
          rw [fits] at given
          exact made.trans given

theorem declare (container : StmtId) (name : String) (decl : StmtId) (t : Tree) :
    Edits admitted shared t ((Tree.declare container name decl).after t) := by
  rw [TreeM.after, declare_run]
  cases checked : t.checkDeclare container name decl with
  | error e => exact refl t
  | ok =>
    obtain ⟨live, -, inside, -⟩ := checkDeclare_ok_iff.mp checked
    exact one (.declare live inside)

theorem detach (h : t.Linked) (id : StmtId) :
    Edits admitted shared t ((Tree.detach id).after t) := by
  obtain ⟨e, run⟩ | ⟨-, -, -, run⟩ | ⟨owner, s, rest, -, owned, found, taken, run⟩ :=
    h.detach_cases id
  · rw [TreeM.after_error run]
    exact refl t
  · rw [TreeM.after_ok run]
    exact refl t
  · rw [TreeM.after_ok run]
    exact one (.withdraw owned found taken)

theorem remove (h : t.Linked) (id : StmtId) :
    Edits admitted shared t ((Tree.remove id).after t) := by
  obtain ⟨e, run⟩ | ⟨t₁, t₂, first, notRoot, linked, live, free, cleared, count, run⟩ :=
    h.remove_cases id
  · rw [TreeM.after_error run]
    exact refl t
  · have detached : Edits admitted shared t t₁ := TreeM.after_ok first ▸ detach h id
    rw [TreeM.after_ok run]
    exact detached.tail (.clear notRoot live free cleared count)

theorem copyFrom {source : Tree} (hs : source.Linked) (origin : shared source) (r : StmtId)
    (owner : Option StmtId) (t : Tree) :
    Edits admitted shared t ((Tree.copyFrom source r owner).after t) := by
  obtain ⟨e, run, -⟩ | ⟨t', kind, fits, copied, outcome⟩ := copyFrom_cases hs r owner t
  · rw [TreeM.after_error run]
    exact refl t
  have copy : Edits admitted shared t t' := one (.copy origin (contains_of_kind? fits.kind) copied)
  obtain ⟨-, run⟩ | ⟨o, -, run⟩ := outcome
  · rw [TreeM.after_ok run]
    exact copy
  · have given : Edits admitted shared t' _ := gives (attachCopy_gives kind o t.nextId t')
    cases attached : attachCopy kind o t.nextId t' with
    | error =>
      rw [TreeM.after_error attached] at given
      rw [TreeM.after_error (run.trans (TreeM.bind_error attached))]
      exact copy.trans given
    | ok =>
      rw [TreeM.after_ok attached] at given
      rw [TreeM.after_ok (run.trans (TreeM.bind_ok attached))]
      exact copy.trans given

end Edits
end KernelTree.Tree
