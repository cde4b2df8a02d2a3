import KernelTree.Proofs.Tree.Nodes
import KernelTree.Proofs.Tree.Scoping
/-! Copies of subtrees. A copy takes the next numbers in preorder, says what its source says with
every number replaced by that of the copy, and touches nothing else but its new owner. -/
namespace KernelTree.Tree

variable {t t' source dest dest' : Tree} {r x owner child : StmtId}

/-- The destination has gained the subtree at `r` as it was in `source`, given to `owner`. -/
structure Isomorphic (source : Tree) (r : StmtId) (owner : Option StmtId) (dest dest' : Tree) :
    Prop where
  /-- As many slots are filled as the subtree has statements. -/
  size : dest'.slots.size = dest.slots.size + (source.preorder r).length
  live : dest'.live = dest.live + (source.preorder r).length
  /-- The statement at each place of the preorder has its copy there behind the old slots. -/
  image : ∀ i (bound : i < (source.preorder r).length),
    source.image r dest.slots.size (source.preorder r)[i] = ⟨dest.slots.size + i⟩
  /-- Every copy says what the original says. -/
  copies : ∀ i (bound : i < (source.preorder r).length), ∃ node,
    source.get? (source.preorder r)[i] = some node ∧
    dest'.get? ⟨dest.slots.size + i⟩ = some {
      parent := if i = 0 then owner else node.parent.map (source.image r dest.slots.size)
      span := node.span
      stmt := node.stmt.map (source.image r dest.slots.size) }
  /-- All other statements stay as they are. -/
  others : ∀ x, x.index < dest.slots.size → owner ≠ some x → dest'.get? x = dest.get? x
  /-- The owner gains the copy in the place for its kind. -/
  gains : ∀ o ∈ owner, ∃ kind node, source.kind? r = some kind ∧ dest.get? o = some node ∧
    dest'.get? o = some { node with stmt := receive kind ⟨dest.slots.size⟩ node.stmt }

theorem Copied.isomorphic (hs : source.Linked) (live : source.contains r)
    (copied : Copied source r (source.image r dest.slots.size) dest dest') :
    Isomorphic source r none dest dest' := by
  have walk := hs.walk_preorder live
  constructor
  case size => exact copied.size
  case live => exact copied.live
  case image => exact fun i => hs.image_getElem live
  case copies =>
    intro i bound
    have member := List.getElem_mem bound
    obtain ⟨node, found⟩ := Option.isSome_iff_exists.mp (walk.contains_of_mem member)
    have there := copied.new _ member
    rw [hs.image_getElem live, found, Option.map_some, Node.image] at there
    have first : (source.preorder r)[i] = r ↔ i = 0 := by
      have filled : 0 < (source.preorder r).length := by omega
      have head : (source.preorder r)[0] = r := List.getElem_of_eq (hs.preorder_eq live) filled
      rw [← (hs.nodup_preorder live).getElem_inj_iff, head]
      exact filled
    simp only [first] at there
    exact ⟨node, found, there⟩
  case others =>
    intro x old _
    apply copied.old
    intro y member same
    have above : dest.slots.size ≤ (source.image r dest.slots.size y).index := base_le_image
    rw [← same] at above
    omega
  case gains => simp

/-- Giving an unattached copy to an owner completes it. -/
theorem Isomorphic.give {k : StmtKind} (whole : Isomorphic source r none dest dest')
    (kind : source.kind? r = some k) (there : dest.contains owner) :
    Isomorphic source r (some owner) dest
      (dest'.give owner dest.nextId (receive k dest.nextId)) := by
  have below := index_lt there
  have apart : dest.nextId ≠ owner := by
    rintro rfl
    exact Nat.lt_irrefl _ below
  constructor
  case size => simpa [Tree.give, setParent, updateStmt] using whole.size
  case live => exact whole.live
  case image => exact whole.image
  case copies =>
    intro i bound
    obtain ⟨node, found, copy⟩ := whole.copies i bound
    refine ⟨node, found, ?_⟩
    have away : owner ≠ ⟨dest.slots.size + i⟩ := fun same => by
      rw [same] at below
      exact absurd below (by simp)
    rw [get?_give apart, if_neg away, copy]
    by_cases first : i = 0
    · subst first
      have here : dest.nextId = ⟨dest.slots.size + 0⟩ := rfl
      rw [if_pos here]
      rfl
    · have later : dest.nextId ≠ ⟨dest.slots.size + i⟩ := fun same => by
        have := congrArg StmtId.index same
        simp [nextId, first] at this
      rw [if_neg later, if_neg first, if_neg first]
  case others =>
    intro x old differs
    have away : dest.nextId ≠ x := by
      rintro rfl
      exact Nat.lt_irrefl _ old
    rw [get?_give apart, if_neg away, if_neg fun same => differs (congrArg some same)]
    exact whole.others x old (Option.some_ne_none x).symm
  case gains =>
    rintro o ⟨⟩
    obtain ⟨node, found⟩ := Option.isSome_iff_exists.mp there
    refine ⟨k, node, kind, found, ?_⟩
    have kept := whole.others owner below (Option.some_ne_none owner).symm
    rw [get?_give apart, if_neg apart, if_pos rfl, kept, found]
    rfl

/-- Where there is a place for it, attaching a copy does not fail. -/
theorem attachCopy_of_receives {k : StmtKind} (receives : t.Receives k owner)
    (kind : t.kind? child = some k) (fits : t.Attachable owner child) :
    attachCopy k owner child t = .ok () (t.give owner child (receive k child)) := by
  cases k
  case elif =>
    obtain ⟨conditional, opened⟩ := receives
    have checked := checkAddElif_ok_iff.mpr ⟨conditional, kind, opened, fits⟩
    exact addElif_run.trans (by rw [checked]; rfl)
  case otherwise =>
    obtain ⟨conditional, opened⟩ := receives
    have checked := checkSetElse_ok_iff.mpr ⟨conditional, kind, opened, fits⟩
    exact setElse_run.trans (by rw [checked]; rfl)
  all_goals
    have plain : t.isChainEntry child = false := by
      rw [isChainEntry, kind]
      rfl
    have checked := checkAppend_ok_iff.mpr ⟨receives, plain, fits⟩
    exact append_run.trans (by rw [checked]; rfl)

namespace Copied
variable (copied : Copied source r (source.image r dest.slots.size) dest dest')
include copied

/-- The way up from a statement that was there before does not lead into the copy. -/
theorem contains_around (h : dest.Linked) (live : dest.contains x) (within : dest'.Within x y) :
    dest.contains y := by
  induction within with
  | refl => exact live
  | tail _ owned ih =>
    rw [copied.parent?_kept ih] at owned
    exact h.contains_owner owned

theorem attachable (hs : source.Linked) (live : source.contains r) (h : dest.Rooted)
    (there : dest.contains owner) : dest'.Attachable owner dest.nextId := by
  have member := hs.mem_preorder_self live
  have first : source.image r dest.slots.size r = dest.nextId := hs.image_self live
  have linked := copied.linked hs live h.toLinked
  have ownerLive := copied.contains_kept there
  have free := copied.parent?_image member
  rw [first, if_pos rfl] at free
  constructor
  case owner_live => exact ownerLive
  case child_live => exact first ▸ copied.contains_image hs live member
  case not_root =>
    intro same
    simpa [← same, not_contains_nextId] using h.contains_root
  case free => exact free
  case outside =>
    apply Bool.eq_false_iff.mpr
    intro within
    have below := (linked.isWithin_iff ownerLive).mp within
    have around := copied.contains_around h.toLinked there below
    simp [not_contains_nextId] at around

theorem receives_kept {k : StmtKind} (receives : dest.Receives k owner) :
    dest.contains owner ∧ dest'.Receives k owner := by
  unfold Receives at receives ⊢
  split at receives
  next entry =>
    have live := contains_of_kind? receives.1
    rw [if_pos entry, kind?_eq, last?, copied.stmt?_kept live, ← kind?_eq]
    exact ⟨live, receives⟩
  next plain =>
    obtain ⟨k, kind, container⟩ := receives
    have live := contains_of_kind? kind
    rw [if_neg plain, kind?_eq, copied.stmt?_kept live, ← kind?_eq]
    exact ⟨live, k, kind, container⟩

/-- A copy that has just been made is never refused by an owner that had a place for it before. -/
theorem attached {k : StmtKind} (hs : source.Linked) (h : dest.Rooted)
    (kind : source.kind? r = some k) (receives : dest.Receives k owner) :
    attachCopy k owner dest.nextId dest' =
      .ok () (dest'.give owner dest.nextId (receive k dest.nextId)) := by
  have live := contains_of_kind? kind
  obtain ⟨there, receives⟩ := copied.receives_kept receives
  have attachable := copied.attachable hs live h there
  have first : source.image r dest.slots.size r = dest.nextId := hs.image_self live
  have same : dest'.kind? dest.nextId = some k := by
    rw [← first, copied.kind?_image (hs.mem_preorder_self live), kind]
  exact attachCopy_of_receives receives same attachable

end Copied

/-- Copying succeeds wherever the copy has a place. -/
theorem copyFrom_of_copyable (hs : source.Linked) (h : dest.Rooted) {owner : Option StmtId}
    {k : StmtKind} (fits : Copyable source r owner dest k) :
    ∃ dest', copyFrom source r owner dest = .ok dest.nextId dest' ∧
      Isomorphic source r owner dest dest' := by
  obtain ⟨e, -, misfit⟩ | ⟨mid, k', fits, copied, outcome⟩ := copyFrom_cases hs r owner dest
  · exact absurd fits (misfit k)
  have whole := copied.isomorphic hs (contains_of_kind? fits.kind)
  obtain ⟨rfl, run⟩ | ⟨o, rfl, run⟩ := outcome
  · exact ⟨mid, run, whole⟩
  · have receives := fits.receives o rfl
    have attached := copied.attached hs h fits.kind receives
    have there := (copied.receives_kept receives).1
    exact ⟨_, run.trans (TreeM.bind_ok attached), whole.give fits.kind there⟩

theorem copyable_of_copyFrom (hs : source.Linked) {owner : Option StmtId} {copy : StmtId}
    (run : copyFrom source r owner dest = .ok copy dest') :
    ∃ k, Copyable source r owner dest k := by
  obtain ⟨e, failed, -⟩ | ⟨mid, k, fits, -⟩ := copyFrom_cases hs r owner dest
  · simp [run] at failed
  · exact ⟨k, fits⟩

theorem isomorphic_of_copyFrom (hs : source.Linked) (h : dest.Rooted) {owner : Option StmtId}
    {copy : StmtId} (run : copyFrom source r owner dest = .ok copy dest') :
    copy = ⟨dest.slots.size⟩ ∧ Isomorphic source r owner dest dest' := by
  obtain ⟨k, fits⟩ := copyable_of_copyFrom hs run
  obtain ⟨dest₁, done, whole⟩ := copyFrom_of_copyable hs h fits
  cases run.symm.trans done
  exact ⟨rfl, whole⟩

/-- Copies are isomorphic to what they were made of. A live subtree is copied exactly where its
owner-to-be, if there is one, has a place for it, and a whole tree can always be forked. -/
theorem Reachable.copy_isomorphic (hs : Reachable Stmt.Bare source) (h : Reachable Stmt.Bare dest)
    (r : StmtId) (owner : Option StmtId) :
    ((∃ copy dest', Tree.copyFrom source r owner dest = .ok copy dest') ↔
      ∃ k, source.kind? r = some k ∧ ∀ o ∈ owner, dest.Receives k o) ∧
    (∀ copy dest', Tree.copyFrom source r owner dest = .ok copy dest' →
      copy = ⟨dest.slots.size⟩ ∧ Isomorphic source r owner dest dest') ∧
    (∀ copy t', clone r owner dest = .ok copy t' →
      copy = ⟨dest.slots.size⟩ ∧ Isomorphic dest r owner dest t') ∧
    ∃ t', source.fork = .ok t' ∧ Isomorphic source root none void t' := by
  have rooted := h.rooted
  have rooted' := hs.rooted
  have linked := rooted'.toLinked
  refine ⟨⟨?_, ?_⟩, ?_, ?_, ?_⟩
  · rintro ⟨copy, dest', run⟩
    obtain ⟨k, fits⟩ := copyable_of_copyFrom linked run
    exact ⟨k, fits.kind, fits.receives⟩
  · rintro ⟨k, kind, receives⟩
    have closed := hs.enclosed.closed linked (contains_of_kind? kind)
    obtain ⟨dest', run, -⟩ := copyFrom_of_copyable linked rooted ⟨kind, closed, receives⟩
    exact ⟨_, dest', run⟩
  · exact fun copy dest' => isomorphic_of_copyFrom linked rooted
  · exact fun copy t' => isomorphic_of_copyFrom rooted.toLinked rooted
  · obtain ⟨t', forked, copied⟩ := hs.enclosed.exists_fork rooted'
    exact ⟨t', forked, copied.isomorphic linked rooted'.contains_root⟩

/-- A block is copied into a block that it owns. The name of its declaration stands for the
declaration of the copy there. -/
theorem copy_isomorphic_inside_itself :
    let calls : List Change := [
      .push root (.block .empty), .push ⟨1⟩ (.block .empty), .push ⟨2⟩ (.declaration []),
      .declare ⟨1⟩ "x" ⟨3⟩]
    let t := initial.run calls
    let t' := (clone ⟨1⟩ (some ⟨2⟩)).after t
    Reachable Stmt.Bare t ∧ clone ⟨1⟩ (some ⟨2⟩) t = .ok ⟨4⟩ t' ∧ t'.resolve ⟨6⟩ "x" = some ⟨6⟩ ∧
      Isomorphic t ⟨1⟩ (some ⟨2⟩) t t' := by
  intro calls t t'
  have reachable : Reachable Stmt.Bare t := Reachable.initial.run (by decide)
  have copied : clone ⟨1⟩ (some ⟨2⟩) t = .ok ⟨4⟩ t' := by rfl
  obtain ⟨-, -, isomorphic, -⟩ := reachable.copy_isomorphic reachable ⟨1⟩ (some ⟨2⟩)
  exact ⟨reachable, copied, by decide, (isomorphic _ _ copied).2⟩

end KernelTree.Tree
