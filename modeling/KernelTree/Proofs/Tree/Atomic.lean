import KernelTree.Proofs.Tree.Reachable
/-! What a refused operation leaves behind. The operations change several statements one after the
other and look some of them up in between, but in a linked tree nothing is refused any more once
something has changed. -/
namespace KernelTree

/-- If the operation is refused, the tree is as it was. -/
def TreeM.Atomic (op : TreeM α) (t : Tree) : Prop :=
  ∀ e t', op t = .error e t' → t' = t

namespace TreeM
variable {op : TreeM α} {t : Tree}

/-- An operation that stands or falls by a check made before it changes anything. -/
theorem atomic_of_run {checked : Except TreeError Unit} {result : α} {changed : Tree}
    (run : op t = match checked with
      | .ok _ => .ok result changed
      | .error e => .error e t) : op.Atomic t := by
  intro e t' refused
  rw [run] at refused
  cases checked with
  | ok => cases refused
  | error => exact (EStateM.Result.error.inj refused).2.symm

theorem atomic_of_error (run : op t = .error e t) : op.Atomic t := by
  intro e' t' refused
  exact (EStateM.Result.error.inj (run.symm.trans refused)).2.symm

theorem atomic_of_ok (run : op t = .ok a t') : op.Atomic t := by
  intro e t' refused
  cases run.symm.trans refused

end TreeM

namespace Tree
variable {t t' : Tree} {owner : StmtId} {stmt : Stmt}

theorem add_atomic (stmt : Stmt) (span : Span) (t : Tree) : (add stmt span).Atomic t :=
  TreeM.atomic_of_run add_run

theorem append_atomic (owner child : StmtId) (t : Tree) : (append owner child).Atomic t :=
  TreeM.atomic_of_run append_run

theorem addElif_atomic (owner entry : StmtId) (t : Tree) : (addElif owner entry).Atomic t :=
  TreeM.atomic_of_run addElif_run

theorem setElse_atomic (owner entry : StmtId) (t : Tree) : (setElse owner entry).Atomic t :=
  TreeM.atomic_of_run setElse_run

theorem declare_atomic (container : StmtId) (name : String) (decl : StmtId) (t : Tree) :
    (declare container name decl).Atomic t :=
  TreeM.atomic_of_run declare_run

/-- Detaching changes the owner first and the containers around it afterwards, all of which are
live in a linked tree. -/
theorem Linked.detach_atomic (h : t.Linked) (id : StmtId) : (detach id).Atomic t := by
  obtain ⟨e, run⟩ | ⟨-, -, -, run⟩ | ⟨_, _, _, -, -, -, -, run⟩ := h.detach_cases id
  · exact TreeM.atomic_of_error run
  · exact TreeM.atomic_of_ok run
  · exact TreeM.atomic_of_ok run

theorem Linked.remove_atomic (h : t.Linked) (id : StmtId) : (remove id).Atomic t := by
  obtain ⟨e, run⟩ | ⟨_, _, -, -, -, -, -, -, -, run⟩ := h.remove_cases id
  · exact TreeM.atomic_of_error run
  · exact TreeM.atomic_of_ok run

/-- Each operation that makes one change, alone or with what the change entails, is done in full or
not at all. -/
theorem Reachable.atomic {admitted : Stmt → Prop} (h : Reachable admitted t) :
    (∀ stmt span, (add stmt span).Atomic t) ∧
    (∀ value, (addExpr value).Atomic t) ∧
    (∀ owner child, (append owner child).Atomic t) ∧
    (∀ owner entry, (addElif owner entry).Atomic t) ∧
    (∀ owner entry, (setElse owner entry).Atomic t) ∧
    (∀ container name decl, (declare container name decl).Atomic t) ∧
    (∀ id, (detach id).Atomic t) ∧
    ∀ id, (remove id).Atomic t := by
  have linked := h.rooted.toLinked
  refine ⟨?_, ?_, ?_, ?_, ?_, ?_, ?_, ?_⟩
  · exact fun stmt span => add_atomic stmt span t
  · exact fun value => add_atomic (.expression value) .none t
  · exact fun owner child => append_atomic owner child t
  · exact fun owner entry => addElif_atomic owner entry t
  · exact fun owner entry => setElse_atomic owner entry t
  · exact fun container name decl => declare_atomic container name decl t
  · exact linked.detach_atomic
  · exact linked.remove_atomic

/-- A condition cannot be taken from its loop, in whose block and around which names are declared.
Both stay as they are, and so does everything else. -/
theorem atomic_of_condition :
    let calls : List Change := [
      .addExpr (.ident ⟨.identifier, "a", .none⟩), .push root (.whileLoop ⟨1⟩ .empty false),
      .push ⟨2⟩ (.declaration []), .declare ⟨2⟩ "x" ⟨3⟩, .declare root "y" ⟨1⟩]
    let t := initial.run calls
    Reachable (fun _ => True) t ∧
      detach ⟨1⟩ t = .error (.requiredSlot ⟨1⟩ ⟨2⟩) t ∧
      remove ⟨1⟩ t = .error (.requiredSlot ⟨1⟩ ⟨2⟩) t ∧
      append ⟨2⟩ ⟨1⟩ t = .error (.ownership ⟨1⟩ ⟨2⟩) t ∧
      declare root "y" ⟨3⟩ t = .error (.duplicateDeclaration "y" root ⟨1⟩) t := by
  intro calls t
  have h : Reachable (fun _ => True) t := Reachable.initial.run fun _ _ _ _ => trivial
  obtain ⟨-, -, append, -, -, declare, detach, remove⟩ := h.atomic
  have detached : Tree.detach ⟨1⟩ t =
      .error (.requiredSlot ⟨1⟩ ⟨2⟩) ((Tree.detach ⟨1⟩).after t) := by rfl
  have removed : Tree.remove ⟨1⟩ t =
      .error (.requiredSlot ⟨1⟩ ⟨2⟩) ((Tree.remove ⟨1⟩).after t) := by rfl
  have appended : Tree.append ⟨2⟩ ⟨1⟩ t =
      .error (.ownership ⟨1⟩ ⟨2⟩) ((Tree.append ⟨2⟩ ⟨1⟩).after t) := by rfl
  have declared : Tree.declare root "y" ⟨3⟩ t =
      .error (.duplicateDeclaration "y" root ⟨1⟩) ((Tree.declare root "y" ⟨3⟩).after t) := by rfl
  rw [detach _ _ _ detached] at detached
  rw [remove _ _ _ removed] at removed
  rw [append _ _ _ _ appended] at appended
  rw [declare _ _ _ _ _ declared] at declared
  exact ⟨h, detached, removed, appended, declared⟩

end Tree
end KernelTree
