import KernelTree.Proofs.Tree.Copying
/-! Copies of linked trees. The links of the destination are those it had before and the images of
those inside the subtree that was copied. -/
namespace KernelTree.Tree

variable {t t' source dest dest' : Tree} {r x y p c : StmtId} {ρ : StmtId → StmtId}

/-- The tree says of the images of a subtree what the source says of the subtree, with the numbers
replaced by those of the images. Nothing is said of what is around. -/
structure Mirrors (source : Tree) (r : StmtId) (ρ : StmtId → StmtId) (t : Tree) : Prop where
  injective : ∀ {x y}, x ∈ source.preorder r → ρ x = ρ y → x = y
  stmt? : ∀ y ∈ source.preorder r, t.stmt? (ρ y) = (source.stmt? y).map (Stmt.map ρ)

namespace Mirrors
variable (mirrors : Mirrors source r ρ t)
include mirrors

theorem contains_image (hs : source.Linked) (live : source.contains r)
    (member : y ∈ source.preorder r) : t.contains (ρ y) := by
  have inside := (hs.walk_preorder live).contains_of_mem member
  obtain ⟨s, found⟩ := exists_stmt inside
  exact contains_of_stmt? (s := s.map ρ) (by rw [mirrors.stmt? y member, found, Option.map_some])

theorem owned_image (member : y ∈ source.preorder r) :
    t.owned (ρ y) = (source.owned y).map ρ := by
  rw [owned_eq, mirrors.stmt? y member, owned_eq]
  cases source.stmt? y <;> simp

/-- The walk down the images is the image of the walk down the subtree. -/
theorem preorder_image (hs : source.Linked) (live : source.contains r) (h : t.Linked)
    (member : y ∈ source.preorder r) : t.preorder (ρ y) = (source.preorder y).map ρ := by
  have walk := hs.walk_preorder live
  refine hs.descending (motive := fun y => y ∈ source.preorder r →
    t.preorder (ρ y) = (source.preorder y).map ρ) ?_ (walk.contains_of_mem member) member
  intro y alive ih member
  rw [h.preorder_eq (mirrors.contains_image hs live member), hs.preorder_eq alive,
    mirrors.owned_image member, List.map_cons, List.flatMap_map, List.map_flatMap]
  apply congrArg (ρ y :: ·)
  apply List.flatMap_congr
  intro child owned
  exact ih child owned (walk.owned_subset member owned)

end Mirrors

namespace Copied
variable (copied : Copied source r ρ dest dest')
include copied

theorem get?_kept (live : dest.contains x) : dest'.get? x = dest.get? x :=
  copied.old x fun y member same => by simp [same, copied.fresh y member] at live

theorem stmt?_kept (live : dest.contains x) : dest'.stmt? x = dest.stmt? x := by
  rw [stmt?, copied.get?_kept live, stmt?]

theorem parent?_kept (live : dest.contains x) : dest'.parent? x = dest.parent? x := by
  rw [parent?, copied.get?_kept live, parent?]

theorem contains_kept (live : dest.contains x) : dest'.contains x := by
  rwa [contains, copied.get?_kept live]

theorem stmt?_image (member : y ∈ source.preorder r) :
    dest'.stmt? (ρ y) = (source.stmt? y).map (Stmt.map ρ) := by
  rw [stmt?, copied.new y member, stmt?]
  cases source.get? y <;> rfl

theorem parent?_image (member : y ∈ source.preorder r) :
    dest'.parent? (ρ y) = if y = r then none else (source.parent? y).map ρ := by
  rw [parent?, copied.new y member, parent?]
  cases source.get? y with
  | none => simp
  | some node => simp [Node.image]

theorem mirrors : Mirrors source r ρ dest' :=
  ⟨copied.injective, fun _ => copied.stmt?_image⟩

theorem contains_image (hs : source.Linked) (live : source.contains r)
    (member : y ∈ source.preorder r) : dest'.contains (ρ y) :=
  copied.mirrors.contains_image hs live member

theorem kind?_image (member : y ∈ source.preorder r) : dest'.kind? (ρ y) = source.kind? y := by
  rw [kind?_eq, copied.stmt?_image member, kind?_eq]
  simp [Function.comp_def]

theorem owned_image (member : y ∈ source.preorder r) :
    dest'.owned (ρ y) = (source.owned y).map ρ :=
  copied.mirrors.owned_image member

theorem elifs_image (member : y ∈ source.preorder r) :
    dest'.elifs (ρ y) = (source.elifs y).map ρ := by
  rw [elifs, copied.stmt?_image member, elifs]
  cases source.stmt? y <;> simp

theorem last?_image (member : y ∈ source.preorder r) :
    dest'.last? (ρ y) = (source.last? y).map ρ := by
  rw [last?, copied.stmt?_image member, last?]
  cases source.stmt? y <;> simp

/-- Every statement of the destination was there before or is a copy. -/
theorem origin (live : dest'.contains x) :
    (∃ y ∈ source.preorder r, x = ρ y) ∨ dest.contains x := by
  by_contra neither
  obtain ⟨noCopy, absent⟩ := not_or.mp neither
  rw [contains, copied.old x fun y member same => noCopy ⟨y, member, same⟩] at live
  exact absent live

theorem mem_map (member : x ∈ source.preorder r) {l : List StmtId} : ρ x ∈ l.map ρ ↔ x ∈ l := by
  constructor
  · intro inside
    obtain ⟨y, inside, same⟩ := List.mem_map.mp inside
    exact copied.injective member same.symm ▸ inside
  · exact List.mem_map_of_mem

theorem parent?_iff (hs : source.Linked) (live : source.contains r) :
    dest'.parent? c = some p ↔ dest.parent? c = some p ∨
      ∃ y ∈ source.preorder r, ∃ q ∈ source.preorder r,
        c = ρ y ∧ p = ρ q ∧ source.parent? y = some q := by
  constructor
  · intro owned
    rcases copied.origin (contains_of_parent? owned) with ⟨y, member, rfl⟩ | old
    · rw [copied.parent?_image member] at owned
      split at owned
      next => cases owned
      next differs =>
        obtain ⟨q, owner, rfl⟩ := Option.map_eq_some_iff.mp owned
        have within := (hs.mem_preorder_iff live).mp member
        rcases within.cases with same | ⟨q', owner', within⟩
        · exact absurd same differs
        · cases Option.some.inj (owner.symm.trans owner')
          exact .inr ⟨y, member, q, (hs.mem_preorder_iff live).mpr within, rfl, rfl, owner⟩
    · rw [copied.parent?_kept old] at owned
      exact .inl owned
  · rintro (owned | ⟨y, member, q, around, rfl, rfl, owner⟩)
    · rwa [copied.parent?_kept (contains_of_parent? owned)]
    · have differs : y ≠ r := by
        rintro rfl
        exact hs.not_within_owned owner ((hs.mem_preorder_iff live).mp around)
      rw [copied.parent?_image member, if_neg differs, owner, Option.map_some]

theorem mem_owned_iff (hs : source.Linked) (live : source.contains r) :
    c ∈ dest'.owned p ↔ c ∈ dest.owned p ∨
      ∃ y ∈ source.preorder r, ∃ q ∈ source.preorder r, c = ρ y ∧ p = ρ q ∧ y ∈ source.owned q := by
  have walk := hs.walk_preorder live
  constructor
  · intro owned
    rcases copied.origin (contains_of_mem_owned owned) with ⟨q, member, rfl⟩ | old
    · rw [copied.owned_image member] at owned
      obtain ⟨y, inside, rfl⟩ := List.mem_map.mp owned
      exact .inr ⟨y, walk.owned_subset member inside, q, member, rfl, rfl, inside⟩
    · rw [owned_eq, copied.stmt?_kept old, ← owned_eq] at owned
      exact .inl owned
  · rintro (owned | ⟨y, member, q, around, rfl, rfl, owned⟩)
    · rwa [owned_eq, copied.stmt?_kept (contains_of_mem_owned owned), ← owned_eq]
    · rw [copied.owned_image around]
      exact List.mem_map_of_mem owned

/-- The way up inside the subtree is the way up inside its copy. -/
theorem within_image (hs : source.Linked) (live : source.contains r)
    (member : y ∈ source.preorder r) (within : source.Within x y) : dest'.Within (ρ x) (ρ y) := by
  induction within using Relation.ReflTransGen.head_induction_on with
  | refl => exact .refl ..
  | @head x q owned within ih =>
    have around := within.trans ((hs.mem_preorder_iff live).mp member)
    refine .step ((copied.parent?_iff hs live).mpr (.inr ⟨x, ?_, q, ?_, rfl, rfl, owned⟩)) ih
    · exact (hs.mem_preorder_iff live).mpr (.step owned around)
    · exact (hs.mem_preorder_iff live).mpr around

theorem linked (hs : source.Linked) (live : source.contains r) (h : dest.Linked) :
    dest'.Linked := by
  have inside := fun {x} => hs.mem_preorder_iff (x := x) live
  have walk := hs.walk_preorder live
  have top : dest'.Climbs (ρ r) [ρ r] :=
    .top (copied.contains_image hs live (hs.mem_preorder_self live))
      (by rw [copied.parent?_image (hs.mem_preorder_self live), if_pos rfl])
  constructor
  case mem_owned_iff =>
    intro p c
    rw [copied.mem_owned_iff hs live, copied.parent?_iff hs live]
    simp only [h.mem_owned_iff, hs.mem_owned_iff]
  case nodup_owned =>
    intro p
    by_cases alive : dest'.contains p
    · rcases copied.origin alive with ⟨q, member, rfl⟩ | old
      · rw [copied.owned_image member]
        apply (hs.nodup_owned q).map_on
        intro x owned y _ same
        exact copied.injective (walk.owned_subset member owned) same
      · rw [owned_eq, copied.stmt?_kept old, ← owned_eq]
        exact h.nodup_owned p
    · have none : dest'.owned p = [] :=
        List.eq_nil_iff_forall_not_mem.mpr fun c owned => alive (contains_of_mem_owned owned)
      rw [none]
      exact .nil
  case grounded =>
    intro id alive
    rcases copied.origin alive with ⟨y, member, rfl⟩ | old
    · obtain within := inside.mp member
      clear alive member
      induction within using Relation.ReflTransGen.head_induction_on with
      | refl => exact ⟨_, top⟩
      | @head x q owned within ih =>
        obtain ⟨path, up⟩ := ih
        have link := (copied.parent?_iff hs live).mpr (.inr ⟨x, inside.mpr (.step owned within), q,
          inside.mpr within, rfl, rfl, owned⟩)
        exact ⟨_, .up link up⟩
    · obtain ⟨path, up⟩ := h.grounded old
      refine ⟨path, up.congr ?_⟩
      intro x member
      have live := up.contains_of_mem member
      exact ⟨copied.contains_kept live, copied.parent?_kept live⟩
  case elif_iff =>
    intro c p owned
    rcases (copied.parent?_iff hs live).mp owned with owned | ⟨y, member, q, around, rfl, rfl, link⟩
    · rw [kind?_eq, copied.stmt?_kept (contains_of_parent? owned), ← kind?_eq, h.elif_iff owned,
        elifs, elifs, copied.stmt?_kept (h.contains_owner owned)]
    · rw [copied.kind?_image member, copied.elifs_image around, copied.mem_map member,
        hs.elif_iff link]
  case otherwise_iff =>
    intro c p owned
    rcases (copied.parent?_iff hs live).mp owned with owned | ⟨y, member, q, around, rfl, rfl, link⟩
    · rw [kind?_eq, copied.stmt?_kept (contains_of_parent? owned), ← kind?_eq,
        h.otherwise_iff owned, last?, last?, copied.stmt?_kept (h.contains_owner owned)]
    · rw [copied.kind?_image member, copied.last?_image around, hs.otherwise_iff link]
      constructor
      · intro last
        rw [last, Option.map_some]
      · intro last
        obtain ⟨z, last, same⟩ := Option.map_eq_some_iff.mp last
        rw [last, copied.injective member same.symm]
  case live_eq => rw [copied.live, copied.population, h.live_eq]

end Copied

/-! Operations that copy. -/

/-- The change to the owner's statement when a copy of that kind is given to it. -/
def receive (kind : StmtKind) (copy : StmtId) : Stmt → Stmt :=
  match kind with
  | .elif => (·.addElif copy)
  | .otherwise => (·.setElse copy)
  | _ => (·.addChild copy)

theorem attachCopy_gives (kind : StmtKind) (owner copy : StmtId) (t : Tree) :
    t.Gives owner copy (receive kind copy) (attachCopy kind owner copy) := by
  cases kind
  case elif => exact addElif_gives owner copy t
  case otherwise => exact setElse_gives owner copy t
  all_goals exact append_gives owner copy t

/-- A statement of that kind has a place at the owner. -/
def Receives (t : Tree) (kind : StmtKind) (owner : StmtId) : Prop :=
  if kind.isChainEntry then t.kind? owner = some .conditional ∧ t.last? owner = none
  else ∃ k, t.kind? owner = some k ∧ k.isContainer

theorem checkCopyOwner_eq {k : StmtKind} {owner : StmtId} : t.checkCopyOwner k owner =
    match t.kind? owner with
    | none => .error (.unknownStatement owner)
    | some kind =>
      if k.isChainEntry then
        if kind ≠ .conditional then .error (.malformedChain owner .notAConditional)
        else if (t.last? owner).isSome then .error (.malformedChain owner .elsePresent)
        else .ok ()
      else if kind.isContainer then .ok ()
      else .error (.notAContainer owner kind) := by
  rw [checkCopyOwner, require, kind?, ← hasElse_eq]
  cases t.get? owner with
  | none => rfl
  | some node =>
    by_cases entry : k.isChainEntry
    · simp only [entry, if_true, except_throw_bind]
      rfl
    · simp only [entry]
      rfl

theorem checkCopyOwner_ok_iff {k : StmtKind} {owner : StmtId} :
    t.checkCopyOwner k owner = .ok () ↔ t.Receives k owner := by
  rw [checkCopyOwner_eq, Receives]
  cases t.kind? owner with
  | none => simp
  | some kind =>
    by_cases entry : k.isChainEntry
    · simp only [entry, if_true, except_guard_ok, not_not, Option.some.injEq]
      cases t.last? owner <;> simp
    · by_cases container : kind.isContainer <;> simp [entry, container]

/-- What a copy needs: the source is live, no name in it is bound outside, and the owner has a
place for it. -/
structure Copyable (source : Tree) (r : StmtId) (owner : Option StmtId) (dest : Tree)
    (k : StmtKind) : Prop where
  kind : source.kind? r = some k
  closed : source.Closed r
  receives : ∀ o ∈ owner, dest.Receives k o

/-- All that copying from a linked tree can do. -/
theorem copyFrom_cases (hs : source.Linked) (r : StmtId) (owner : Option StmtId) (dest : Tree) :
    (∃ e, copyFrom source r owner dest = .error e dest ∧
      ∀ kind, ¬ Copyable source r owner dest kind) ∨
    ∃ dest' kind, Copyable source r owner dest kind ∧
      Copied source r (source.image r dest.slots.size) dest dest' ∧
      ((owner = none ∧ copyFrom source r owner dest = .ok dest.nextId dest') ∨
        ∃ o, owner = some o ∧ copyFrom source r owner dest = (do
          attachCopy kind o dest.nextId
          return dest.nextId : TreeM StmtId) dest') := by
  unfold copyFrom
  cases found : source.get? r with
  | none =>
    have refused : source.require r = .error (.unknownStatement r) := by simp [require, found]
    refine .inl ⟨_, TreeM.bind_error (TreeM.check_error refused), ?_⟩
    intro kind fits
    have := fits.kind
    simp [kind?, found] at this
  | some node =>
    have live : source.contains r := by simp [contains, found]
    have kind : source.kind? r = some node.stmt.kind := kind?_of_stmt? (stmt?_of_get? found)
    have planning (next : List Node → TreeM StmtId) :
        (∃ e, (TreeM.check (fun t => source.planCopy r t.nextId.index) >>= next) dest =
          .error e dest ∧ ¬ source.Closed r) ∨
        ∃ planned, source.Closed r ∧ source.Planned r dest.slots.size planned ∧
          (TreeM.check (fun t => source.planCopy r t.nextId.index) >>= next) dest =
            next planned dest := by
      cases plan : source.planCopy r dest.slots.size with
      | error e =>
        refine .inl ⟨e, TreeM.bind_error (TreeM.check_error plan), ?_⟩
        intro closed
        obtain ⟨planned, made⟩ := hs.exists_planned live closed dest.slots.size
        simp [made] at plan
      | ok planned =>
        obtain ⟨closed, fits⟩ := (hs.planCopy_ok_iff live).mp plan
        exact .inr ⟨planned, closed, fits, TreeM.bind_ok (TreeM.check_ok plan)⟩
    rw [TreeM.bind_ok (TreeM.check_ok (require_ok_iff.mpr found))]
    cases owner with
    | none =>
      obtain ⟨e, run, stray⟩ | ⟨planned, closed, fits, run⟩ := planning fun planned => do
        let copy ← install planned
        return copy
      · exact .inl ⟨e, run, fun _ fits => stray fits.closed⟩
      · exact .inr ⟨_, _, ⟨kind, closed, by simp⟩, hs.copied live fits, .inl ⟨rfl, run⟩⟩
    | some o =>
      cases checked : dest.checkCopyOwner node.stmt.kind o with
      | error e =>
        refine .inl ⟨e, TreeM.bind_error (TreeM.check_error checked), ?_⟩
        intro kind' fits
        cases Option.some.inj (fits.kind.symm.trans kind)
        simp [checkCopyOwner_ok_iff.mpr (fits.receives o rfl)] at checked
      | ok =>
        obtain ⟨e, run, stray⟩ | ⟨planned, closed, fits, run⟩ := planning fun planned => do
          let copy ← install planned
          attachCopy node.stmt.kind o copy
          return copy
        · refine .inl ⟨e, (TreeM.bind_ok (TreeM.check_ok checked)).trans ?_,
            fun _ fits => stray fits.closed⟩
          exact run
        · have receives : ∀ o' ∈ some o, dest.Receives node.stmt.kind o' := by
            simpa using checkCopyOwner_ok_iff.mp checked
          refine .inr ⟨_, _, ⟨kind, closed, receives⟩, hs.copied live fits, .inr ⟨o, rfl, ?_⟩⟩
          apply (TreeM.bind_ok (TreeM.check_ok checked)).trans
          exact run.trans (TreeM.bind_ok install_run)

/-- A tree without statements, to which a copy of a whole tree is a tree of its own. -/
def void : Tree := { slots := #[], live := 0 }

theorem contains_void : void.contains x = false := by
  simp [contains, get?, void]

theorem linked_void : void.Linked := by
  have empty x : void.stmt? x = none := by
    simpa [contains_eq] using contains_void (x := x)
  have free x : void.parent? x = none := by
    by_contra owned
    obtain ⟨p, owned⟩ := Option.ne_none_iff_exists'.mp owned
    simpa [contains_void] using contains_of_parent? owned
  constructor
  case mem_owned_iff => simp [owned_eq, empty, free]
  case nodup_owned => simp [owned_eq, empty]
  case grounded => simp [contains_void]
  case elif_iff => simp [free]
  case otherwise_iff => simp [free]
  case live_eq => rfl

/-- A fork is a copy of the whole tree to a tree without statements. -/
theorem fork_ok_iff (h : t.Linked) (live : t.contains root) : t.fork = .ok t' ↔
    t.Closed root ∧ ∃ planned, t.Planned root 0 planned ∧ t' = void.installed planned := by
  simp only [fork, except_bind_ok, h.planCopy_ok_iff live, except_pure_ok]
  constructor
  · rintro ⟨planned, ⟨closed, fits⟩, rfl⟩
    exact ⟨closed, planned, fits, by simp [installed, void]⟩
  · rintro ⟨closed, planned, fits, rfl⟩
    exact ⟨planned, ⟨closed, fits⟩, by simp [installed, void]⟩

theorem copied_of_fork (h : t.Linked) (live : t.contains root) (made : t.fork = .ok t') :
    Copied t root (t.image root 0) void t' := by
  obtain ⟨-, planned, fits, rfl⟩ := (fork_ok_iff h live).mp made
  have fits : t.Planned root void.slots.size planned := fits
  exact h.copied live fits

end KernelTree.Tree
