import KernelTree.Proofs.Tree.Isomorphism
/-! Subtrees that nobody owns. What a call changes lies around the statements that it names or
beneath them, so a subtree without an owner stays as it is while no call names a statement of it. -/
namespace KernelTree.Tree

variable {t t' t₁ t₂ source : Tree} {u x id owner child r : StmtId} {s rest : Stmt} {span : Span}

/-- Every statement of the subtree is as it was. -/
def Intact (t : Tree) (u : StmtId) (t' : Tree) : Prop := ∀ x ∈ t.preorder u, t'.get? x = t.get? x

namespace Intact

theorem refl (t : Tree) (u : StmtId) : t.Intact u t := fun _ _ => rfl

section
variable (intact : t.Intact u t') (h : t.Linked) (live : t.contains u)
include intact h live

theorem preorder_eq : t'.preorder u = t.preorder u := by
  have walk := h.walk_preorder live
  refine Linked.preorder_of_walk (walk.congr fun x member => ?_) (h.nodup_preorder live)
  rw [contains, owned, intact x member]
  exact ⟨walk.contains_of_mem member, rfl⟩

theorem trans (later : t'.Intact u t₂) : t.Intact u t₂ := by
  intro x member
  rw [later x (intact.preorder_eq h live ▸ member), intact x member]

theorem contains : t'.contains u := by
  rw [Tree.contains, intact u (h.mem_preorder_self live)]
  exact live

theorem parent?_eq : t'.parent? u = t.parent? u := by
  rw [parent?, intact u (h.mem_preorder_self live), parent?]

end

end Intact

/-! Elementary changes. -/

theorem intact_give {f : Stmt → Stmt} (owner_apart : owner ∉ t.preorder u)
    (child_apart : child ∉ t.preorder u) : t.Intact u (t.give owner child f) := by
  intro x member
  rw [give, setParent, get?_update, if_neg (ne_of_mem_of_not_mem member child_apart).symm,
    updateStmt, get?_update, if_neg (ne_of_mem_of_not_mem member owner_apart).symm]

theorem nextId_apart (h : t.Linked) (live : t.contains u) : t.nextId ∉ t.preorder u := by
  intro member
  simpa [not_contains_nextId] using (h.walk_preorder live).contains_of_mem member

theorem intact_extended (h : t.Linked) (live : t.contains u)
    (apart : ∀ x ∈ s.owned, x ∉ t.preorder u) : t.Intact u (t.extended s span) := by
  intro x member
  rw [get?_extended, if_neg, if_neg fun owned => apart x owned member]
  rintro rfl
  exact nextId_apart h live member

theorem intact_updateStmt {f : Stmt → Stmt} (apart : id ∉ t.preorder u) :
    t.Intact u (t.updateStmt id f) := by
  intro x member
  rw [updateStmt, get?_update, if_neg (ne_of_mem_of_not_mem member apart).symm]

/-- The containers around a statement outside of the subtree lie outside as well. -/
theorem intact_withdrawn (h : t.Linked) (live : t.contains u) (apart : id ∉ t.preorder u)
    (owned : t.parent? id = some owner) : t.Intact u (t.withdrawn id owner rest) := by
  intro x member
  obtain ⟨path, up⟩ := h.grounded (h.contains_owner owned)
  apply get?_withdrawn up (ne_of_mem_of_not_mem member apart)
  intro around
  have inside := (h.mem_preorder_iff live).mp member
  exact apart ((h.mem_preorder_iff live).mpr (.step owned ((up.mem_iff.mp around).trans inside)))

/-- A subtree without an owner lies beneath nothing that is destroyed. -/
theorem intact_cleared (h : t.Linked) (live : t.contains u) (free : t.parent? u = none)
    (there : t.contains id) (apart : id ∉ t.preorder u) (cleared : t.Cleared (t.preorder id) t') :
    t.Intact u t' := by
  intro x member
  rw [cleared.get?, if_neg]
  intro gone
  have inside := (h.mem_preorder_iff live).mp member
  have beneath := (h.mem_preorder_iff there).mp gone
  rcases inside.total beneath with within | within
  · exact apart (within.eq_of_free free ▸ h.mem_preorder_self live)
  · exact apart ((h.mem_preorder_iff live).mpr within)

theorem intact_copied (h : t.Linked) (live : t.contains u) {ρ : StmtId → StmtId}
    (copied : Copied source r ρ t t') : t.Intact u t' :=
  fun _ member => copied.get?_kept ((h.walk_preorder live).contains_of_mem member)

/-! Operations. -/

theorem intact_gives {f : Stmt → Stmt} {op : TreeM Unit} (gives : t.Gives owner child f op)
    (owner_apart : owner ∉ t.preorder u) (child_apart : child ∉ t.preorder u) :
    t.Intact u (op.after t) := by
  obtain ⟨e, run⟩ | ⟨s, -, -, -, run⟩ := gives
  · rw [TreeM.after_error run]
    exact .refl t u
  · rw [TreeM.after_ok run]
    exact intact_give owner_apart child_apart

theorem intact_declare {container decl : StmtId} {name : String}
    (apart : container ∉ t.preorder u) : t.Intact u ((declare container name decl).after t) := by
  rw [TreeM.after, declare_run]
  cases t.checkDeclare container name decl with
  | error e => exact .refl t u
  | ok => exact intact_updateStmt apart

section
variable (h : t.Linked) (live : t.contains u)
include h live

theorem intact_add (apart : ∀ x ∈ s.owned, x ∉ t.preorder u) :
    t.Intact u ((add s span).after t) := by
  rw [TreeM.after, add_run]
  cases t.checkAdd s with
  | error e => exact .refl t u
  | ok => exact intact_extended h live apart

theorem intact_push (owner_apart : owner ∉ t.preorder u)
    (apart : ∀ x ∈ s.owned, x ∉ t.preorder u) : t.Intact u ((push owner s).after t) := by
  have made : t.Intact u (t.extended s .none) := intact_extended h live apart
  have given : t.Intact u ((append owner t.nextId).after (t.extended s .none)) := by
    apply made.trans h live
    have gives := append_gives owner t.nextId (t.extended s .none)
    have same := made.preorder_eq h live
    exact intact_gives gives (same ▸ owner_apart) (same ▸ nextId_apart h live)
  rw [TreeM.after, push_run]
  cases t.checkContainer owner with
  | error e => exact .refl t u
  | ok =>
    by_cases entry : s.kind.isChainEntry
    · simp only [entry, if_true]
      exact .refl t u
    · simp only [entry, Bool.false_eq_true, if_false]
      cases t.checkAdd s with
      | error e => exact .refl t u
      | ok =>
        rw [TreeM.after, append_run] at given
        cases fits : (t.extended s .none).checkAppend owner t.nextId with
        | error e => exact made
        | ok =>
          rw [fits] at given
          exact given

theorem intact_detach (apart : id ∉ t.preorder u) : t.Intact u ((detach id).after t) := by
  obtain ⟨e, run⟩ | ⟨-, -, -, run⟩ | ⟨owner, s, rest, -, owned, -, -, run⟩ := h.detach_cases id
  · rw [TreeM.after_error run]
    exact .refl t u
  · rw [TreeM.after_ok run]
    exact .refl t u
  · rw [TreeM.after_ok run]
    exact intact_withdrawn h live apart owned

theorem intact_remove (free : t.parent? u = none) (apart : id ∉ t.preorder u) :
    t.Intact u ((remove id).after t) := by
  obtain ⟨e, run⟩ | ⟨t₁, t₂, first, -, linked, there, -, cleared, -, run⟩ := h.remove_cases id
  · rw [TreeM.after_error run]
    exact .refl t u
  · have detached : t.Intact u t₁ := TreeM.after_ok first ▸ intact_detach h live apart
    rw [TreeM.after_ok run]
    apply detached.trans h live
    exact intact_cleared linked (detached.contains h live)
      ((detached.parent?_eq h live).trans free) there (detached.preorder_eq h live ▸ apart) cleared

theorem intact_copyFrom (hs : source.Linked) {owner : Option StmtId}
    (apart : ∀ o ∈ owner, o ∉ t.preorder u) : t.Intact u ((copyFrom source r owner).after t) := by
  obtain ⟨e, run, -⟩ | ⟨t₁, kind, fits, copied, outcome⟩ := copyFrom_cases hs r owner t
  · rw [TreeM.after_error run]
    exact .refl t u
  have made : t.Intact u t₁ := intact_copied h live copied
  obtain ⟨-, run⟩ | ⟨o, rfl, run⟩ := outcome
  · rw [TreeM.after_ok run]
    exact made
  · have same := made.preorder_eq h live
    have given : t₁.Intact u ((attachCopy kind o t.nextId).after t₁) :=
      intact_gives (attachCopy_gives kind o t.nextId t₁) (same ▸ apart o rfl)
        (same ▸ nextId_apart h live)
    apply made.trans h live
    cases attached : attachCopy kind o t.nextId t₁ with
    | error =>
      rw [TreeM.after_error attached] at given
      rwa [TreeM.after_error (run.trans (TreeM.bind_error attached))]
    | ok =>
      rw [TreeM.after_ok attached] at given
      rwa [TreeM.after_ok (run.trans (TreeM.bind_ok attached))]

end

/-! Calls. -/

/-- The numbers that a call names, those inside a payload included. -/
def Change.numbers : Change → List StmtId
  | add stmt _ => stmt.owned ++ stmt.targets
  | addExpr _ => []
  | push owner stmt => owner :: (stmt.owned ++ stmt.targets)
  | append owner child => [owner, child]
  | addElif owner entry | setElse owner entry => [owner, entry]
  | declare container _ decl => [container, decl]
  | detach id | remove id => [id]
  | clone r owner => r :: owner.toList

theorem intact_change (h : t.Linked) (live : t.contains u) (free : t.parent? u = none) (c : Change)
    (apart : ∀ x ∈ c.numbers, x ∉ t.preorder u) : t.Intact u (c.after t) := by
  cases c with
  | add stmt span =>
    exact intact_add h live fun x owned => apart x (List.mem_append_left _ owned)
  | addExpr value => exact intact_add h live nofun
  | push owner stmt =>
    obtain ⟨first, others⟩ := List.forall_mem_cons.mp apart
    exact intact_push h live first fun x owned => others x (List.mem_append_left _ owned)
  | append owner child =>
    exact intact_gives (append_gives owner child t) (apart owner (by simp [Change.numbers]))
      (apart child (by simp [Change.numbers]))
  | addElif owner entry =>
    exact intact_gives (addElif_gives owner entry t) (apart owner (by simp [Change.numbers]))
      (apart entry (by simp [Change.numbers]))
  | setElse owner entry =>
    exact intact_gives (setElse_gives owner entry t) (apart owner (by simp [Change.numbers]))
      (apart entry (by simp [Change.numbers]))
  | declare container name decl =>
    exact intact_declare (apart container List.mem_cons_self)
  | detach id => exact intact_detach h live (apart id List.mem_cons_self)
  | remove id => exact intact_remove h live free (apart id List.mem_cons_self)
  | clone r owner =>
    refine intact_copyFrom h live h fun o given => apart o ?_
    exact List.mem_cons_of_mem _ (Option.mem_toList.mpr given)

/-- A call on a tree, which may be to copy from another one. -/
inductive Call where
  | change (c : Change)
  | copyFrom (source : Tree) (r : StmtId) (owner : Option StmtId)

namespace Call

/-- Payloads have empty blocks, and what is copied comes from a tree of such statements. -/
def Admitted : Call → Prop
  | change c => ∀ s ∈ c.payload?, s.Bare
  | copyFrom source _ _ => Reachable Stmt.Bare source

/-- The statements of the tree that a call names. -/
def numbers : Call → List StmtId
  | change c => c.numbers
  | copyFrom _ _ owner => owner.toList

/-- The tree that a call leaves behind, whether it succeeds or not. -/
def after (t : Tree) : Call → Tree
  | change c => c.after t
  | copyFrom source r owner => (Tree.copyFrom source r owner).after t

theorem reachable {c : Call} (h : Reachable Stmt.Bare t) (admitted : c.Admitted) :
    Reachable Stmt.Bare (c.after t) := by
  cases c with
  | change c => exact h.change c admitted
  | copyFrom source r owner => exact Reachable.copyFrom admitted h r owner

theorem intact {c : Call} (h : Reachable Stmt.Bare t) (admitted : c.Admitted)
    (live : t.contains u) (free : t.parent? u = none)
    (apart : ∀ x ∈ c.numbers, x ∉ t.preorder u) : t.Intact u (c.after t) := by
  have linked := h.rooted.toLinked
  cases c with
  | change c => exact intact_change linked live free c apart
  | copyFrom source r owner =>
    have hs : Reachable Stmt.Bare source := admitted
    exact intact_copyFrom linked live hs.rooted.toLinked fun o given =>
      apart o (Option.mem_toList.mpr given)

end Call

/-- The tree that a sequence of calls leaves behind. -/
def followed (t : Tree) (calls : List Call) : Tree := calls.foldl Call.after t

theorem Reachable.followed {calls : List Call} (h : Reachable Stmt.Bare t)
    (admitted : ∀ c ∈ calls, c.Admitted) : Reachable Stmt.Bare (t.followed calls) := by
  induction calls generalizing t with
  | nil => exact h
  | cons c rest ih =>
    obtain ⟨first, others⟩ := List.forall_mem_cons.mp admitted
    exact ih (Call.reachable h first) others

/-- No call names a statement of the subtree as it is at that moment. -/
def Spares (u : StmtId) : Tree → List Call → Prop
  | _, [] => True
  | t, c :: rest => (∀ x ∈ c.numbers, x ∉ t.preorder u) ∧ Spares u (c.after t) rest

instance Spares.decidable (u : StmtId) :
    (t : Tree) → (calls : List Call) → Decidable (Spares u t calls)
  | _, [] => .isTrue trivial
  | t, c :: rest =>
    have := Spares.decidable u (c.after t) rest
    inferInstanceAs (Decidable ((∀ x ∈ c.numbers, x ∉ t.preorder u) ∧ Spares u (c.after t) rest))

variable {calls : List Call}

theorem Spares.intact (h : Reachable Stmt.Bare t) (live : t.contains u) (free : t.parent? u = none)
    (admitted : ∀ c ∈ calls, c.Admitted) (spares : Spares u t calls) :
    t.Intact u (t.followed calls) := by
  induction calls generalizing t with
  | nil => exact .refl t u
  | cons c rest ih =>
    obtain ⟨apart, spares⟩ := spares
    obtain ⟨first, others⟩ := List.forall_mem_cons.mp admitted
    have linked := h.rooted.toLinked
    have step := Call.intact h first live free apart
    apply step.trans linked live
    exact ih (Call.reachable h first) (step.contains linked live)
      ((step.parent?_eq linked live).trans free) others spares

/-- Whether calls name a subtree can be told beforehand, since it stays the same. -/
theorem spares_of_apart (h : Reachable Stmt.Bare t) (live : t.contains u)
    (free : t.parent? u = none) (admitted : ∀ c ∈ calls, c.Admitted)
    (apart : ∀ c ∈ calls, ∀ x ∈ c.numbers, x ∉ t.preorder u) : Spares u t calls := by
  induction calls generalizing t with
  | nil => trivial
  | cons c rest ih =>
    obtain ⟨first, others⟩ := List.forall_mem_cons.mp admitted
    obtain ⟨apart, apart'⟩ := List.forall_mem_cons.mp apart
    have linked := h.rooted.toLinked
    have step := Call.intact h first live free apart
    refine ⟨apart, ih (Call.reachable h first) (step.contains linked live)
      ((step.parent?_eq linked live).trans free) others ?_⟩
    rwa [step.preorder_eq linked live]

end KernelTree.Tree
