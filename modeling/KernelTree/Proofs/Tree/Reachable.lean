import KernelTree.Proofs.Tree.Edits
/-! Trees that operations can make. All of them are forests: links agree in both directions, every
chain of owners ends, and the root is a block without an owner. -/
namespace KernelTree.Tree

variable {admitted : Stmt → Prop} {shared : Tree → Prop} {t t' source : Tree} {id x r : StmtId}

/-- A linked tree whose root is in its place. -/
structure Rooted (t : Tree) : Prop extends t.Linked where
  root_kind : t.kind? root = some .block
  root_free : t.parent? root = none

theorem Rooted.contains_root (h : t.Rooted) : t.contains root := contains_of_kind? h.root_kind

/-- The root lies beneath no other statement. -/
theorem Rooted.root_not_mem_preorder (h : t.Rooted) (live : t.contains id) (notRoot : id ≠ root) :
    root ∉ t.preorder id := by
  intro beneath
  have within := (h.mem_preorder_iff live).mp beneath
  exact notRoot (within.eq_of_free h.root_free).symm

theorem rooted_initial : initial.Rooted := by
  have only x : initial.get? x = if x = root then some { stmt := .block .empty } else none := by
    obtain ⟨index⟩ := x
    cases index <;> simp [get?, initial, root]
  have stmt x : initial.stmt? x = if x = root then some (.block .empty) else none := by
    rw [stmt?, only]
    split <;> rfl
  have free x : initial.parent? x = none := by
    rw [parent?, only]
    split <;> rfl
  have barren x : initial.owned x = [] := by
    rw [owned_eq, stmt]
    split <;> rfl
  constructor
  case root_kind => simp [kind?_eq, stmt, Stmt.kind]
  case root_free => exact free root
  constructor
  case mem_owned_iff => simp [barren, free]
  case nodup_owned => simp [barren]
  case grounded => exact fun live => ⟨_, .top live (free _)⟩
  case elif_iff => simp [free]
  case otherwise_iff => simp [free]
  case live_eq => rfl

theorem Edit.rooted (h : t.Rooted) (sources : ∀ s, shared s → s.Linked)
    (edit : Edit admitted shared t t') : t'.Rooted := by
  have linked := edit.linked h.toLinked sources
  have live := h.contains_root
  have kept {t' : Tree} (linked : t'.Linked) (kind : t'.kind? root = t.kind? root)
      (parent : t'.parent? root = t.parent? root) : t'.Rooted :=
    ⟨linked, kind.trans h.root_kind, parent.trans h.root_free⟩
  cases edit with
  | give fits found gains =>
    apply kept linked ((stmt?_give found).kinds root found gains.kind)
    rw [parent?_give fits.child_live, if_neg fits.not_root]
  | make payload fits =>
    apply kept linked
    · rw [stmt?_extended.kind?, if_neg]
      intro same
      simp [← same, not_contains_nextId] at live
    · rw [parent?_extended fits, if_neg fits.not_root]
  | declare => exact kept linked (kind?_of_skeleton skeletons_mapScope) parent?_updateStmt
  | @withdraw id owner s rest owned found taken =>
    have nodup : s.owned.Nodup := owned_of_stmt? found ▸ h.nodup_owned owner
    have released := Stmt.released_of_unlink nodup taken
    apply kept linked (kind?_withdrawn found released.kind)
    rw [parent?_withdrawn (contains_of_parent? owned)]
    split
    next same => rw [h.root_free]
    next => rfl
  | @clear id _ notRoot live' free cleared count =>
    have outside := h.root_not_mem_preorder live' notRoot
    apply kept linked
    · rw [kind?_eq, cleared.stmt?, if_neg outside, ← kind?_eq]
    · rw [cleared.parent?, if_neg outside]
  | copy origin live' copied =>
    refine kept linked ?_ (copied.parent?_kept live)
    rw [kind?_eq, copied.stmt?_kept live, ← kind?_eq]

theorem Edits.rooted (h : t.Rooted) (sources : ∀ s, shared s → s.Linked)
    (edits : Edits admitted shared t t') : t'.Rooted := by
  induction edits with
  | refl => exact h
  | tail _ edit ih => exact edit.rooted ih sources

theorem rooted_of_fork (h : t.Rooted) (made : t.fork = .ok t') : t'.Rooted := by
  have live := h.contains_root
  have copied := copied_of_fork h.toLinked live made
  have member := h.mem_preorder_self live
  have first : t.image root 0 root = root := h.image_self live
  refine ⟨copied.linked h.toLinked live linked_void, ?_, ?_⟩
  · have kind := copied.kind?_image member
    rw [first] at kind
    exact kind.trans h.root_kind
  · have parent := copied.parent?_image member
    rwa [first, if_pos rfl] at parent

/-- A call of an operation that changes a tree. -/
inductive Change where
  | add (stmt : Stmt) (span : Span)
  | addExpr (value : Expr)
  | push (owner : StmtId) (stmt : Stmt)
  | append (owner child : StmtId)
  | addElif (owner entry : StmtId)
  | setElse (owner entry : StmtId)
  | declare (container : StmtId) (name : String) (decl : StmtId)
  | detach (id : StmtId)
  | remove (id : StmtId)
  | clone (r : StmtId) (owner : Option StmtId)

namespace Change

/-- The statement that a call makes. -/
def payload? : Change → Option Stmt
  | add stmt _ | push _ stmt => some stmt
  | addExpr value => some (.expression value)
  | _ => none

/-- The tree that a call leaves behind, whether it succeeds or not. -/
def after (t : Tree) : Change → Tree
  | add stmt span => (Tree.add stmt span).after t
  | addExpr value => (Tree.addExpr value).after t
  | push owner stmt => (Tree.push owner stmt).after t
  | append owner child => (Tree.append owner child).after t
  | addElif owner entry => (Tree.addElif owner entry).after t
  | setElse owner entry => (Tree.setElse owner entry).after t
  | declare container name decl => (Tree.declare container name decl).after t
  | detach id => (Tree.detach id).after t
  | remove id => (Tree.remove id).after t
  | clone r owner => (Tree.clone r owner).after t

theorem edits (h : t.Linked) (shares : shared t) (c : Change)
    (payload : ∀ s ∈ c.payload?, admitted s) : Edits admitted shared t (c.after t) := by
  cases c with
  | add stmt span => exact .add (payload stmt rfl) span t
  | addExpr value => exact .add (payload _ rfl) .none t
  | push owner stmt => exact .push (payload stmt rfl) owner t
  | append owner child => exact .gives (append_gives owner child t)
  | addElif owner entry => exact .gives (addElif_gives owner entry t)
  | setElse owner entry => exact .gives (setElse_gives owner entry t)
  | declare container name decl => exact .declare container name decl t
  | detach id => exact .detach h id
  | remove id => exact .remove h id
  | clone r owner => exact .copyFrom h shares r owner t

end Change

/-- The trees that operations make from the initial one, with admitted payloads and arbitrary
numbers. A refused operation counts with all that it has done until then. -/
inductive Reachable (admitted : Stmt → Prop) : Tree → Prop
  | initial : Reachable admitted initial
  | change {t : Tree} (h : Reachable admitted t) (c : Change)
    (payload : ∀ s ∈ c.payload?, admitted s) : Reachable admitted (c.after t)
  | copyFrom {source t : Tree} (hs : Reachable admitted source) (h : Reachable admitted t)
    (r : StmtId) (owner : Option StmtId) : Reachable admitted ((copyFrom source r owner).after t)
  | fork {t t' : Tree} (h : Reachable admitted t) (made : t.fork = .ok t') : Reachable admitted t'

/-- The tree that a sequence of calls leaves behind. -/
def run (t : Tree) (calls : List Change) : Tree := calls.foldl Change.after t

namespace Reachable

theorem run (h : Reachable admitted t) {calls : List Change}
    (payloads : ∀ c ∈ calls, ∀ s ∈ c.payload?, admitted s) : Reachable admitted (t.run calls) := by
  induction calls generalizing t with
  | nil => exact h
  | cons c rest ih =>
    exact ih (h.change c (payloads c List.mem_cons_self)) fun d later => payloads d (.tail _ later)

theorem rooted (h : Reachable admitted t) : t.Rooted := by
  induction h with
  | initial => exact rooted_initial
  | change _ c payload ih =>
    have edits : Edits admitted Linked _ _ := c.edits ih.toLinked ih.toLinked payload
    exact edits.rooted ih fun _ h => h
  | @copyFrom _ t _ _ r owner ihs ih =>
    have edits : Edits admitted Linked t _ := .copyFrom ihs.toLinked ihs.toLinked r owner t
    exact edits.rooted ih fun _ h => h
  | fork _ made ih => exact rooted_of_fork ih made

end Reachable

end KernelTree.Tree
