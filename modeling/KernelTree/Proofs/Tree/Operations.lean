import KernelTree.Proofs.Except
import KernelTree.Proofs.Tree.Ascent
import KernelTree.Tree.Copy
/-! What the operations do. Each is a check, which holds exactly when its arguments fit, and a
change, which cannot fail any more where the check has passed. -/
namespace KernelTree

/-- The tree that an operation leaves behind, whether it succeeds or not. -/
def TreeM.after (op : TreeM α) (t : Tree) : Tree :=
  match op t with
  | .ok _ t' | .error _ t' => t'

namespace TreeM

theorem after_ok {op : TreeM α} (run : op t = .ok a t') : op.after t = t' := by
  rw [after, run]

theorem after_error {op : TreeM α} (run : op t = .error e t') : op.after t = t' := by
  rw [after, run]

theorem check_ok {f : Tree → Except TreeError α} (h : f t = .ok a) : check f t = .ok a t := by
  simp [check, h]

theorem check_error {f : Tree → Except TreeError α} (h : f t = .error e) :
    check f t = .error e t := by
  simp [check, h]

theorem bind_ok {op : TreeM α} {next : α → TreeM β} (h : op t = .ok a t') :
    (op >>= next) t = next a t' := by
  simp [bind, EStateM.bind, h]

theorem bind_error {op : TreeM α} {next : α → TreeM β} (h : op t = .error e t') :
    (op >>= next) t = .error e t' := by
  simp [bind, EStateM.bind, h]

theorem edit_ok {id : StmtId} {change : Tree → Tree} (live : t.contains id) :
    edit id change t = .ok () (change t) := by
  obtain ⟨node, found⟩ := Option.isSome_iff_exists.mp live
  have checked : (discard (t.require id) : Except TreeError Unit) = .ok () := by
    simp [Tree.require, found]
    rfl
  exact bind_ok (check_ok checked)

theorem setParent_ok {id : StmtId} {owner : Option StmtId} (live : t.contains id) :
    setParent id owner t = .ok () (t.setParent id owner) := edit_ok live

theorem updateStmt_ok {id : StmtId} {f : Stmt → Stmt} (live : t.contains id) :
    updateStmt id f t = .ok () (t.updateStmt id f) := edit_ok live

end TreeM

namespace Tree

variable {t : Tree} {id x owner child new : StmtId}

theorem require_ok_iff : t.require id = .ok node ↔ t.get? id = some node := by
  unfold require
  cases t.get? id <;> simp

theorem require_error_iff {e : TreeError} :
    t.require id = .error e ↔ t.contains id = false ∧ e = .unknownStatement id := by
  unfold require contains
  cases t.get? id <;> simp [eq_comm]

/-- A statement can be given to an owner. -/
structure Attachable (t : Tree) (owner child : StmtId) : Prop where
  owner_live : t.contains owner
  child_live : t.contains child
  not_root : child ≠ root
  free : t.parent? child = none
  outside : t.isWithin owner child = false

theorem checkAttach_ok_iff : t.checkAttach owner child = .ok () ↔ t.Attachable owner child := by
  simp only [checkAttach, except_throw_bind, except_bind_ok, except_discard_ok, require_ok_iff,
    except_guard_ok]
  constructor
  · rintro ⟨-, ⟨ownerNode, ownerFound⟩, node, found, notRoot, h⟩
    have parent := parent?_of_get? found
    cases free : node.parent with
    | some current => simp [free] at h
    | none =>
      simp only [free, except_throw, except_guard_ok] at h
      exact {
        owner_live := by simp [contains, ownerFound]
        child_live := by simp [contains, found]
        not_root := notRoot
        free := parent.trans free
        outside := Bool.eq_false_iff.mpr h.1 }
  · rintro ⟨ownerLive, childLive, notRoot, free, outside⟩
    obtain ⟨ownerNode, ownerFound⟩ := Option.isSome_iff_exists.mp ownerLive
    obtain ⟨node, found⟩ := Option.isSome_iff_exists.mp childLive
    have parent := (parent?_of_get? found).symm.trans free
    refine ⟨(), ⟨ownerNode, ownerFound⟩, node, found, notRoot, ?_⟩
    simp only [parent, outside, Bool.false_eq_true, if_false]
    rfl

theorem checkContainer_ok_iff :
    t.checkContainer owner = .ok () ↔ ∃ k, t.kind? owner = some k ∧ k.isContainer := by
  simp only [checkContainer, except_throw, except_bind_ok, require_ok_iff, kind?,
    Option.map_eq_some_iff]
  constructor
  · rintro ⟨node, found, h⟩
    split at h
    next container => exact ⟨_, ⟨node, found, rfl⟩, container⟩
    next => cases h
  · rintro ⟨_, ⟨node, found, rfl⟩, container⟩
    exact ⟨node, found, by rw [if_pos container]; rfl⟩

theorem checkConditional_ok_iff :
    t.checkConditional owner = .ok () ↔ t.kind? owner = some .conditional := by
  simp only [checkConditional, except_throw, except_bind_ok, require_ok_iff, kind?,
    Option.map_eq_some_iff, except_guard_ok, not_not]
  constructor
  · rintro ⟨node, found, same, -⟩
    exact ⟨node, found, same⟩
  · rintro ⟨node, found, same⟩
    exact ⟨node, found, same, rfl⟩

theorem hasElse_eq : t.hasElse owner = (t.last? owner).isSome := by
  simp only [hasElse, last?, stmt?]
  cases found : t.get? owner with
  | none => rfl
  | some node =>
    obtain ⟨_, _, stmt⟩ := node
    cases stmt <;> rfl

theorem checkAppend_ok_iff : t.checkAppend owner child = .ok () ↔
    (∃ k, t.kind? owner = some k ∧ k.isContainer) ∧ t.isChainEntry child = false ∧
      t.Attachable owner child := by
  simp only [checkAppend, except_throw_bind, except_seq_ok, checkContainer_ok_iff,
    except_guard_ok, checkAttach_ok_iff, Bool.not_eq_true]

/-- The checks of an entry of an if-chain, whatever they say where they fail. -/
theorem checkEntry_ok_iff {k : StmtKind} {unfit taken closed : TreeError} : (do
      let node ← t.require child
      if node.stmt.kind ≠ k then throw unfit
      if node.parent.isSome then throw taken
      if t.hasElse owner then throw closed
      t.checkAttach owner child : Except TreeError Unit) = .ok () ↔
    t.kind? child = some k ∧ t.last? owner = none ∧ t.Attachable owner child := by
  simp only [except_throw_bind, except_bind_ok, require_ok_iff, except_guard_ok,
    checkAttach_ok_iff, hasElse_eq, not_not, Bool.not_eq_true, Option.isSome_eq_false_iff,
    Option.isNone_iff_eq_none]
  constructor
  · rintro ⟨node, found, kind, free, opened, attachable⟩
    exact ⟨by simp [kind?, found, kind], opened, attachable⟩
  · rintro ⟨kind, opened, attachable⟩
    obtain ⟨node, found, same⟩ := Option.map_eq_some_iff.mp kind
    have free := (parent?_of_get? found).symm.trans attachable.free
    exact ⟨node, found, same, free, opened, attachable⟩

theorem checkAddElif_ok_iff : t.checkAddElif owner child = .ok () ↔
    t.kind? owner = some .conditional ∧ t.kind? child = some .elif ∧ t.last? owner = none ∧
      t.Attachable owner child := by
  rw [checkAddElif, except_seq_ok, checkConditional_ok_iff]
  exact and_congr_right fun _ => checkEntry_ok_iff

theorem checkSetElse_ok_iff : t.checkSetElse owner child = .ok () ↔
    t.kind? owner = some .conditional ∧ t.kind? child = some .otherwise ∧ t.last? owner = none ∧
      t.Attachable owner child := by
  rw [checkSetElse, except_seq_ok, checkConditional_ok_iff]
  exact and_congr_right fun _ => checkEntry_ok_iff

/-- The tree in which a statement was given to an owner, whose statement changes by `f`. -/
def give (t : Tree) (owner child : StmtId) (f : Stmt → Stmt) : Tree :=
  (t.updateStmt owner f).setParent child (some owner)

/-- Behind a check that both statements are live, giving one to the other cannot fail. -/
theorem give_run {check : Tree → Except TreeError Unit} {f : Stmt → Stmt}
    (sound : check t = .ok () → t.Attachable owner child) :
    (do
      TreeM.check check
      TreeM.updateStmt owner f
      TreeM.setParent child (some owner) : TreeM Unit) t =
    match check t with
    | .ok _ => .ok () (t.give owner child f)
    | .error e => .error e t := by
  cases checked : check t with
  | error e => exact TreeM.bind_error (TreeM.check_error checked)
  | ok =>
    have fits := sound checked
    rw [TreeM.bind_ok (TreeM.check_ok checked), TreeM.bind_ok (TreeM.updateStmt_ok fits.owner_live)]
    exact TreeM.setParent_ok (by simpa using fits.child_live)

theorem append_run : append owner child t =
    match t.checkAppend owner child with
    | .ok _ => .ok () (t.give owner child (·.addChild child))
    | .error e => .error e t :=
  give_run fun checked => (checkAppend_ok_iff.mp checked).2.2

theorem addElif_run : addElif owner child t =
    match t.checkAddElif owner child with
    | .ok _ => .ok () (t.give owner child (·.addElif child))
    | .error e => .error e t :=
  give_run fun checked => (checkAddElif_ok_iff.mp checked).2.2.2

theorem setElse_run : setElse owner child t =
    match t.checkSetElse owner child with
    | .ok _ => .ok () (t.give owner child (·.setElse child))
    | .error e => .error e t :=
  give_run fun checked => (checkSetElse_ok_iff.mp checked).2.2.2

/-! Making statements. -/

/-- A statement can be made: those that it mentions are free, distinct and in fitting places. -/
structure Addable (t : Tree) (stmt : Stmt) : Prop where
  live : ∀ c ∈ stmt.owned, t.contains c
  not_root : root ∉ stmt.owned
  free : ∀ c ∈ stmt.owned, t.parent? c = none
  nodup : stmt.owned.Nodup
  elif_iff : ∀ c ∈ stmt.owned, (t.kind? c = some .elif ↔ c ∈ stmt.elifs)
  otherwise_iff : ∀ c ∈ stmt.owned, (t.kind? c = some .otherwise ↔ stmt.last? = some c)

theorem checkFree_ok_iff {seen ids : List StmtId} : t.checkFree new seen ids = .ok () ↔
    (∀ c ∈ ids, t.contains c ∧ c ≠ root ∧ t.parent? c = none ∧ c ∉ seen) ∧ ids.Nodup := by
  induction ids generalizing seen with
  | nil => simp [checkFree, except_pure_ok]
  | cons id rest ih =>
    simp only [checkFree, except_throw_bind, except_bind_ok, require_ok_iff, except_guard_ok,
      List.forall_mem_cons, List.nodup_cons]
    constructor
    · rintro ⟨node, found, notRoot, h⟩
      have parent := parent?_of_get? found
      cases free : node.parent with
      | some current => simp [free] at h
      | none =>
        simp only [free, except_guard_ok, ih, List.mem_cons, not_or] at h
        obtain ⟨fresh, others, nodup⟩ := h
        have alone : id ∉ rest := fun member => (others id member).2.2.2.1 rfl
        refine ⟨⟨⟨by simp [contains, found], notRoot, parent.trans free, fresh⟩, ?_⟩, alone, nodup⟩
        intro c member
        obtain ⟨live, differs, free, -, fresh⟩ := others c member
        exact ⟨live, differs, free, fresh⟩
    · rintro ⟨⟨⟨live, notRoot, free, fresh⟩, others⟩, alone, nodup⟩
      obtain ⟨node, found⟩ := Option.isSome_iff_exists.mp live
      have parent := (parent?_of_get? found).symm.trans free
      refine ⟨node, found, notRoot, ?_⟩
      simp only [parent, except_guard_ok, ih, List.mem_cons, not_or]
      refine ⟨fresh, ?_, nodup⟩
      intro c member
      obtain ⟨live, differs, free, fresh⟩ := others c member
      exact ⟨live, differs, free, fun same => alone (same ▸ member), fresh⟩

theorem isChainEntry_eq_false_iff : t.isChainEntry id = false ↔
    t.kind? id ≠ some .elif ∧ t.kind? id ≠ some .otherwise := by
  unfold isChainEntry
  cases t.kind? id with
  | none => simp
  | some k => cases k <;> simp [StmtKind.isChainEntry]

theorem checkChain_ok_iff {stmt : Stmt} : t.checkChain new stmt = .ok () ↔
    (∀ c ∈ stmt.elifs, t.kind? c = some .elif) ∧
      (∀ c, stmt.last? = some c → t.kind? c = some .otherwise) ∧
      ∀ c ∈ stmt.plain, t.isChainEntry c = false := by
  cases stmt
  case conditional condition body elifs last =>
    simp only [checkChain, except_throw_bind, except_guard_ok]
    cases last <;> simp [except_guard_ok, except_pure_ok, Stmt.elifs, Stmt.last?, Stmt.plain]
  all_goals
    simp [checkChain, except_guard_ok, except_pure_ok, Stmt.elifs, Stmt.last?, Stmt.plain, or_imp,
      forall_and]

theorem checkAdd_ok_iff {stmt : Stmt} : t.checkAdd stmt = .ok () ↔ t.Addable stmt := by
  simp only [checkAdd, except_seq_ok, checkFree_ok_iff, checkChain_ok_iff,
    isChainEntry_eq_false_iff]
  have places : ∀ c, c ∈ stmt.owned ↔ c ∈ stmt.plain ∨ c ∈ stmt.elifs ∨ stmt.last? = some c := by
    simp [stmt.owned_eq_plain]
  constructor
  · rintro ⟨⟨free, nodup⟩, elifs, last, plain⟩
    constructor
    case live => exact fun c member => (free c member).1
    case not_root => exact fun member => (free _ member).2.1 rfl
    case free => exact fun c member => (free c member).2.2.1
    case nodup => exact nodup
    case elif_iff =>
      intro c member
      refine ⟨?_, elifs c⟩
      intro kind
      rcases (places c).mp member with place | place | place
      · exact absurd kind (plain c place).1
      · exact place
      · cases kind.symm.trans (last c place)
    case otherwise_iff =>
      intro c member
      refine ⟨?_, last c⟩
      intro kind
      rcases (places c).mp member with place | place | place
      · exact absurd kind (plain c place).2
      · cases kind.symm.trans (elifs c place)
      · exact place
  · intro h
    have apart := h.nodup
    rw [stmt.owned_eq_plain] at apart
    simp only [List.nodup_append, List.mem_append, Option.mem_toList] at apart
    refine ⟨⟨?_, h.nodup⟩, ?_, ?_, ?_⟩
    · intro c member
      exact ⟨h.live c member, ne_of_mem_of_not_mem member h.not_root, h.free c member, by simp⟩
    · intro c entry
      exact (h.elif_iff c ((places c).mpr (.inr (.inl entry)))).mpr entry
    · intro c entry
      exact (h.otherwise_iff c ((places c).mpr (.inr (.inr entry)))).mpr entry
    · intro c plain
      have member := (places c).mpr (.inl plain)
      rw [Ne, h.elif_iff c member, Ne, h.otherwise_iff c member]
      grind

/-- The tree in which the listed statements have a new owner. -/
def adopted (t : Tree) (owner : StmtId) (ids : List StmtId) : Tree :=
  ids.foldl (fun t id => t.setParent id (some owner)) t

theorem adopt_run {ids : List StmtId} (live : ∀ c ∈ ids, t.contains c) :
    adopt owner ids t = .ok () (t.adopted owner ids) := by
  induction ids generalizing t with
  | nil => rfl
  | cons id rest ih =>
    have later : ∀ c ∈ rest, (t.setParent id (some owner)).contains c := by
      intro c member
      simpa using live c (.tail _ member)
    simp only [adopt, List.forM_eq_forM, List.forM_cons] at ih ⊢
    rw [TreeM.bind_ok (TreeM.setParent_ok (live id List.mem_cons_self)), ih later]
    rfl

@[simp] theorem nextId_adopted {ids : List StmtId} : (t.adopted owner ids).nextId = t.nextId := by
  induction ids generalizing t with
  | nil => rfl
  | cons id rest ih => exact ih.trans (nextId_update ..)

/-- The tree with a new statement, which has adopted all that it mentions. -/
def extended (t : Tree) (stmt : Stmt) (span : Span) : Tree :=
  (t.adopted t.nextId stmt.owned).grow { span, stmt }

theorem add_run {stmt : Stmt} {span : Span} : add stmt span t =
    match t.checkAdd stmt with
    | .ok _ => .ok t.nextId (t.extended stmt span)
    | .error e => .error e t := by
  cases checked : t.checkAdd stmt with
  | error e => exact TreeM.bind_error (TreeM.check_error checked)
  | ok =>
    have fits := checkAdd_ok_iff.mp checked
    rw [add, TreeM.bind_ok (TreeM.check_ok checked)]
    exact TreeM.bind_ok (adopt_run fits.live)

theorem push_run {stmt : Stmt} : push owner stmt t =
    match t.checkContainer owner with
    | .error e => .error e t
    | .ok _ =>
      if stmt.kind.isChainEntry then .error (.malformedChain owner .entryOutsideChain) t
      else match t.checkAdd stmt with
        | .error e => .error e t
        | .ok _ =>
          match (t.extended stmt .none).checkAppend owner t.nextId with
          | .error e => .error e (t.extended stmt .none)
          | .ok _ => .ok t.nextId
              ((t.extended stmt .none).give owner t.nextId (·.addChild t.nextId)) := by
  cases container : t.checkContainer owner with
  | error e => exact TreeM.bind_error (TreeM.check_error container)
  | ok =>
    apply (TreeM.bind_ok (TreeM.check_ok container)).trans
    by_cases entry : stmt.kind.isChainEntry
    · simp only [entry, if_true]
      rfl
    · simp only [entry, Bool.false_eq_true, if_false]
      have made : add stmt .none t = _ := add_run
      cases checked : t.checkAdd stmt with
      | error e =>
        rw [checked] at made
        exact TreeM.bind_error made
      | ok =>
        rw [checked] at made
        apply (TreeM.bind_ok made).trans
        have given : append owner t.nextId (t.extended stmt .none) = _ := append_run
        cases fits : (t.extended stmt .none).checkAppend owner t.nextId with
        | error e =>
          rw [fits] at given
          exact TreeM.bind_error given
        | ok =>
          rw [fits] at given
          exact TreeM.bind_ok given

end Tree
end KernelTree
