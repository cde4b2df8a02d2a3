import KernelTree.Proofs.Tree.Isomorphism
/-! When copies are refused. The owner-to-be is looked at before anything is made, by checks of its
own, and these allow just what giving the finished copy to it allows. So no copy is left behind that
nobody owns. -/
namespace KernelTree.Tree

variable {t source dest dest' : Tree} {r o : StmtId} {owner : Option StmtId} {k : StmtKind}
  {e : TreeError}

/-- Why an owner has no place for a copy of that kind. -/
inductive Rejects (t : Tree) (k : StmtKind) (o : StmtId) : TreeError → Prop
  | unknown (absent : t.contains o = false) : Rejects t k o (.unknownStatement o)
  | notAConditional {kind : StmtKind} (entry : k.isChainEntry) (found : t.kind? o = some kind)
    (other : kind ≠ .conditional) : Rejects t k o (.malformedChain o .notAConditional)
  | elsePresent {last : StmtId} (entry : k.isChainEntry) (found : t.kind? o = some .conditional)
    (closed : t.last? o = some last) : Rejects t k o (.malformedChain o .elsePresent)
  | notAContainer {kind : StmtKind} (plain : k.isChainEntry = false)
    (found : t.kind? o = some kind) (leaf : kind.isContainer = false) :
    Rejects t k o (.notAContainer o kind)

theorem checkCopyOwner_error_iff : t.checkCopyOwner k o = .error e ↔ t.Rejects k o e := by
  rw [checkCopyOwner_eq]
  constructor
  · intro refused
    cases found : t.kind? o with
    | none =>
      rw [found] at refused
      cases refused
      exact .unknown (kind?_eq_none_iff.mp found)
    | some kind =>
      rw [found] at refused
      by_cases entry : k.isChainEntry
      · simp only [entry, if_true] at refused
        split at refused
        next other =>
          cases refused
          exact .notAConditional entry found other
        next conditional =>
          cases last : t.last? o with
          | none => simp [last] at refused
          | some entry' =>
            simp only [last, Option.isSome_some, if_true] at refused
            cases refused
            exact .elsePresent entry (found.trans (congrArg some (not_not.mp conditional))) last
      · simp only [entry, Bool.false_eq_true, if_false] at refused
        split at refused
        next => cases refused
        next leaf =>
          cases refused
          exact .notAContainer (Bool.eq_false_iff.mpr entry) found (Bool.eq_false_iff.mpr leaf)
  · rintro (absent | ⟨entry, found, other⟩ | ⟨entry, found, closed⟩ | ⟨plain, found, leaf⟩)
    · rw [kind?_eq_none_iff.mpr absent]
    · simp [found, entry, other]
    · simp [found, entry, closed]
    · simp [found, plain, leaf]

/-- Why a copy is refused. -/
inductive Refused (source : Tree) (r : StmtId) (owner : Option StmtId) (dest : Tree) :
    TreeError → Prop
  | unknown (absent : source.contains r = false) :
    Refused source r owner dest (.unknownStatement r)
  | rejected {o : StmtId} {k : StmtKind} {e : TreeError} (given : owner = some o)
    (kind : source.kind? r = some k) (rejects : dest.Rejects k o e) :
    Refused source r owner dest e

/-- The checks that a copy has to pass. -/
def checkCopy (source : Tree) (r : StmtId) (owner : Option StmtId) (dest : Tree) :
    Except TreeError Unit := do
  let node ← source.require r
  if let some o := owner then dest.checkCopyOwner node.stmt.kind o

theorem checkCopy_ok_iff : checkCopy source r owner dest = .ok () ↔
    ∃ k, source.kind? r = some k ∧ ∀ o ∈ owner, dest.Receives k o := by
  simp only [checkCopy, except_bind_ok, require_ok_iff, kind?, Option.map_eq_some_iff]
  cases owner <;> simp [except_pure_ok, checkCopyOwner_ok_iff]

theorem checkCopy_error_iff :
    checkCopy source r owner dest = .error e ↔ Refused source r owner dest e := by
  simp only [checkCopy, except_bind_error, require_error_iff, require_ok_iff]
  constructor
  · rintro (⟨absent, rfl⟩ | ⟨node, found, rejected⟩)
    · exact .unknown absent
    · cases owner with
      | none => cases rejected
      | some o =>
        have kind : source.kind? r = some node.stmt.kind := kind?_of_stmt? (stmt?_of_get? found)
        exact .rejected rfl kind (checkCopyOwner_error_iff.mp rejected)
  · rintro (absent | ⟨rfl, kind, rejects⟩)
    · exact .inl ⟨absent, rfl⟩
    · obtain ⟨node, found, rfl⟩ := Option.map_eq_some_iff.mp kind
      exact .inr ⟨node, found, checkCopyOwner_error_iff.mpr rejects⟩

/-- Where no name is bound outside of its subtree, the first checks decide. -/
theorem copyFrom_run (hs : source.Linked) (enclosed : source.Enclosed) (h : dest.Rooted)
    (r : StmtId) (owner : Option StmtId) : copyFrom source r owner dest =
      match checkCopy source r owner dest with
      | .ok _ => .ok dest.nextId ((copyFrom source r owner).after dest)
      | .error e => .error e dest := by
  cases checked : checkCopy source r owner dest with
  | ok =>
    obtain ⟨k, kind, receives⟩ := checkCopy_ok_iff.mp checked
    have closed := enclosed.closed hs (contains_of_kind? kind)
    obtain ⟨dest', run, -⟩ := copyFrom_of_copyable hs h ⟨kind, closed, receives⟩
    rw [run, TreeM.after_ok run]
  | error e =>
    rcases except_bind_error.mp checked with absent | ⟨node, found, rejected⟩
    · exact TreeM.bind_error (TreeM.check_error absent)
    · cases owner with
      | none => cases rejected
      | some o =>
        apply (TreeM.bind_ok (TreeM.check_ok found)).trans
        exact TreeM.bind_error (TreeM.check_error rejected)

/-- The result of copying the subtree at `r` into `dest`: it is done exactly where there is a place
for the copy. It is refused for the causes that are listed, never for the state of the subtree, and
has changed nothing then. -/
structure Settled (source : Tree) (r : StmtId) (owner : Option StmtId) (dest : Tree)
    (result : EStateM.Result TreeError Tree StmtId) : Prop where
  done_iff : (∃ copy dest', result = .ok copy dest') ↔
    ∃ k, source.kind? r = some k ∧ ∀ o ∈ owner, dest.Receives k o
  refused_iff : ∀ e dest', result = .error e dest' ↔ dest' = dest ∧ Refused source r owner dest e
  supported : ∀ x place fault dest', result ≠ .error (.unsupportedClone x place fault) dest'

theorem copyFrom_settled (hs : source.Linked) (enclosed : source.Enclosed) (h : dest.Rooted)
    (r : StmtId) (owner : Option StmtId) :
    Settled source r owner dest (copyFrom source r owner dest) := by
  have refused_iff (e : TreeError) (dest' : Tree) : copyFrom source r owner dest = .error e dest' ↔
      dest' = dest ∧ Refused source r owner dest e := by
    rw [copyFrom_run hs enclosed h, ← checkCopy_error_iff]
    cases checkCopy source r owner dest with
    | ok => simp
    | error e' => simp [eq_comm, and_comm]
  constructor
  case done_iff =>
    rw [copyFrom_run hs enclosed h, ← checkCopy_ok_iff]
    cases checkCopy source r owner dest <;> simp
  case refused_iff => exact refused_iff
  case supported =>
    intro x place fault dest' unsupported
    rcases ((refused_iff _ _).mp unsupported).2 with _ | ⟨_, _, rejects⟩
    cases rejects

/-- Copies are made or refused as a whole. Behind the first checks neither working out the copy nor
giving it to its owner can fail, and a whole tree can always be forked. -/
theorem Reachable.copy_settled (hs : Reachable Stmt.Bare source) (h : Reachable Stmt.Bare dest)
    (r : StmtId) (owner : Option StmtId) :
    Settled source r owner dest (Tree.copyFrom source r owner dest) ∧
    Settled dest r owner dest (clone r owner dest) ∧
    (∀ base, source.contains r → ∃ planned, source.planCopy r base = .ok planned) ∧
    (∀ k o planned, source.kind? r = some k → dest.checkCopyOwner k o = .ok () →
      source.planCopy r dest.nextId.index = .ok planned →
      ∃ dest', (install planned >>= attachCopy k o) dest = .ok () dest') ∧
    ∃ t', source.fork = .ok t' := by
  have linked := hs.rooted.toLinked
  refine ⟨?_, ?_, ?_, ?_, ?_⟩
  · exact copyFrom_settled linked hs.enclosed h.rooted r owner
  · exact copyFrom_settled h.rooted.toLinked h.enclosed h.rooted r owner
  · exact fun base live => linked.exists_planned live (hs.enclosed.closed linked live) base
  · intro k o planned kind checked plan
    have live := contains_of_kind? kind
    have fits := ((linked.planCopy_ok_iff live).mp plan).2
    have copied := linked.copied live fits
    have attached := copied.attached linked h.rooted kind (checkCopyOwner_ok_iff.mp checked)
    exact ⟨_, (TreeM.bind_ok install_run).trans attached⟩
  · obtain ⟨t', forked, -⟩ := hs.enclosed.exists_fork hs.rooted
    exact ⟨t', forked⟩

/-- An `elif` entry is copied into the chain of another tree, but not behind an `else`. -/
theorem copy_settled_of_entry :
    let value := Expr.ident ⟨.identifier, "a", .none⟩
    let source := initial.run [.addExpr value, .add (.elif ⟨1⟩ .empty) .none]
    let dest := initial.run [
      .addExpr value, .push root (.conditional ⟨1⟩ .empty [] none), .addExpr value,
      .add (.otherwise .empty) .none, .push root (.conditional ⟨3⟩ .empty [] (some ⟨4⟩))]
    Reachable Stmt.Bare source ∧ Reachable Stmt.Bare dest ∧
      (∃ copy dest', copyFrom source ⟨2⟩ (some ⟨2⟩) dest = .ok copy dest') ∧
      copyFrom source ⟨2⟩ (some ⟨5⟩) dest = .error (.malformedChain ⟨5⟩ .elsePresent) dest ∧
      clone ⟨2⟩ (some ⟨1⟩) dest = .error (.notAContainer ⟨1⟩ .expression) dest ∧
      copyFrom source ⟨3⟩ none dest = .error (.unknownStatement ⟨3⟩) dest := by
  intro value source dest
  have hs : Reachable Stmt.Bare source := Reachable.initial.run (by decide)
  have h : Reachable Stmt.Bare dest := Reachable.initial.run (by decide)
  have entry : source.kind? ⟨2⟩ = some .elif := by decide
  have receives : ∀ o ∈ some ⟨2⟩, dest.Receives .elif o := by
    rintro o ⟨⟩
    change dest.kind? ⟨2⟩ = some .conditional ∧ dest.last? ⟨2⟩ = none
    decide
  have last : dest.last? ⟨5⟩ = some ⟨4⟩ := by decide
  have closed : dest.Rejects .elif ⟨5⟩ (.malformedChain ⟨5⟩ .elsePresent) :=
    .elsePresent rfl (by decide) last
  have leaf : dest.Rejects .conditional ⟨1⟩ (.notAContainer ⟨1⟩ .expression) :=
    .notAContainer rfl (by decide) rfl
  obtain ⟨opened, -⟩ := hs.copy_settled h ⟨2⟩ (some ⟨2⟩)
  obtain ⟨behind, -⟩ := hs.copy_settled h ⟨2⟩ (some ⟨5⟩)
  obtain ⟨-, beneath, -⟩ := hs.copy_settled h ⟨2⟩ (some ⟨1⟩)
  obtain ⟨absent, -⟩ := hs.copy_settled h ⟨3⟩ none
  refine ⟨hs, h, ?_, ?_, ?_, ?_⟩
  · exact opened.done_iff.mpr ⟨.elif, entry, receives⟩
  · exact (behind.refused_iff _ _).mpr ⟨rfl, .rejected rfl entry closed⟩
  · exact (beneath.refused_iff _ _).mpr ⟨rfl, .rejected rfl (by decide) leaf⟩
  · exact (absent.refused_iff _ _).mpr ⟨rfl, .unknown (by decide)⟩

end KernelTree.Tree
