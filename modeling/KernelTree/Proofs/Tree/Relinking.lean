import KernelTree.Proofs.Tree.Removal
/-! Making a statement and giving one to an owner keep a tree linked. -/
namespace KernelTree

/-- All of a statement that its links show. -/
def Stmt.skeleton (s : Stmt) : StmtKind × List StmtId × List StmtId × Option StmtId :=
  (s.kind, s.owned, s.elifs, s.last?)

@[simp] theorem Stmt.skeleton_mapScope (f : Scope → Scope) (s : Stmt) :
    (s.mapScope f).skeleton = s.skeleton := by
  simp [skeleton]

namespace Tree

variable {t t' : Tree} {id x owner child : StmtId} {s rest : Stmt}

theorem contains_of_kinds (kinds : ∀ x, t'.kind? x = t.kind? x) : t'.contains x = t.contains x := by
  have shown (t : Tree) : t.contains x = (t.kind? x).isSome := by simp [contains_eq, kind?_eq]
  rw [shown, shown, kinds]

theorem kind?_of_skeleton (same : (t'.stmt? x).map (·.skeleton) = (t.stmt? x).map (·.skeleton)) :
    t'.kind? x = t.kind? x := by
  have := congrArg (Option.map Prod.fst) same
  simpa [kind?_eq, Function.comp_def, Stmt.skeleton] using this

theorem Linked.congr (h : t.Linked) (parents : ∀ x, t'.parent? x = t.parent? x)
    (skeletons : ∀ x, (t'.stmt? x).map (·.skeleton) = (t.stmt? x).map (·.skeleton))
    (live : t'.live = t.live) (population : t'.population = t.population) : t'.Linked := by
  have kinds x : t'.kind? x = t.kind? x := kind?_of_skeleton (skeletons x)
  have owned x : t'.owned x = t.owned x := by
    have := congrArg (fun o => (o.map (·.2.1)).getD []) (skeletons x)
    simpa [owned_eq, Function.comp_def, Stmt.skeleton] using this
  have elifs x : t'.elifs x = t.elifs x := by
    have := congrArg (fun o => (o.map (·.2.2.1)).getD []) (skeletons x)
    simpa [Tree.elifs, Function.comp_def, Stmt.skeleton] using this
  have last x : t'.last? x = t.last? x := by
    have := congrArg (Option.bind · (·.2.2.2)) (skeletons x)
    simpa [Tree.last?, Option.bind_map, Function.comp_def, Stmt.skeleton] using this
  constructor
  case mem_owned_iff =>
    intro owner child
    rw [owned, parents, h.mem_owned_iff]
  case nodup_owned =>
    intro owner
    rw [owned]
    exact h.nodup_owned owner
  case grounded =>
    intro id inside
    obtain ⟨path, up⟩ := h.grounded (contains_of_kinds kinds ▸ inside)
    exact ⟨path, up.congr fun x member =>
      ⟨(contains_of_kinds kinds).trans (up.contains_of_mem member), parents x⟩⟩
  case elif_iff =>
    intro child owner owned
    rw [kinds, elifs, h.elif_iff (parents child ▸ owned)]
  case otherwise_iff =>
    intro child owner owned
    rw [kinds, last, h.otherwise_iff (parents child ▸ owned)]
  case live_eq => rw [live, population, h.live_eq]

/-- Two trees differ in one statement at most, apart from owners. -/
def Changed (t t' : Tree) (place : StmtId) (s' : Stmt) : Prop :=
  ∀ x, t'.stmt? x = if place = x then some s' else t.stmt? x

namespace Changed
variable (h : Changed t t' id s) (x : StmtId)
include h

theorem kind? : t'.kind? x = if id = x then some s.kind else t.kind? x := by
  simp only [kind?_eq, h x]
  split <;> rfl

theorem owned : t'.owned x = if id = x then s.owned else t.owned x := by
  simp only [owned_eq, h x]
  split <;> rfl

theorem elifs : t'.elifs x = if id = x then s.elifs else t.elifs x := by
  simp only [Tree.elifs, h x]
  split <;> rfl

theorem last? : t'.last? x = if id = x then s.last? else t.last? x := by
  simp only [Tree.last?, h x]
  split <;> rfl

theorem kinds (found : t.stmt? id = some s') (kind : s.kind = s'.kind) :
    t'.kind? x = t.kind? x := by
  rw [h.kind?]
  split
  next same => rw [← same, kind?_of_stmt? found, kind]
  next => rfl

end Changed

theorem changed_updateStmt {f : Stmt → Stmt} (found : t.stmt? owner = some s) :
    t.Changed (t.updateStmt owner f) owner (f s) := by
  intro x
  rw [stmt?_updateStmt]
  split
  next same => rw [← same, found, Option.map_some]
  next => rfl

/-- Where owners are only added, and only to statements that had none, the way up leads on. -/
theorem Climbs.extend (up : t.Climbs id path) (top : t'.Climbs owner path')
    (kept : ∀ x p, t.parent? x = some p → t'.parent? x = some p)
    (added : ∀ x, t.contains x → t.parent? x = none →
      t'.contains x ∧ (t'.parent? x = none ∨ t'.parent? x = some owner)) :
    ∃ path, t'.Climbs id path := by
  induction up with
  | @top id live free =>
    obtain ⟨live', free' | owned⟩ := added id live free
    · exact ⟨_, .top live' free'⟩
    · exact ⟨_, .up owned top⟩
  | up owned _ ih =>
    obtain ⟨path, up⟩ := ih
    exact ⟨_, .up (kept _ _ owned) up⟩

/-! Giving a statement to an owner. -/

/-- The owner's statement mentions one statement more, in the place for its kind. -/
structure Gains (t : Tree) (child : StmtId) (s s' : Stmt) : Prop where
  kind : s'.kind = s.kind
  owned : s'.owned.Perm (child :: s.owned)
  elifs : ∀ x, x ∈ s'.elifs ↔ x ∈ s.elifs ∨ x = child ∧ t.kind? child = some .elif
  last? : ∀ x, s'.last? = some x ↔ s.last? = some x ∨ x = child ∧ t.kind? child = some .otherwise
  scope? : s'.scope? = s.scope?

theorem Linked.of_gains (h : t.Linked) (fits : t.Attachable owner child)
    (found : t.stmt? owner = some s) (gains : t.Gains child s s') (changed : t.Changed t' owner s')
    (parents : ∀ x, t'.parent? x = if child = x then some owner else t.parent? x)
    (live : t'.live = t.live) (population : t'.population = t.population) : t'.Linked := by
  have kinds x := changed.kinds x found gains.kind
  have ownedNow := owned_of_stmt? found
  have elifsNow := elifs_of_stmt? found
  have lastNow := last?_of_stmt? found
  have free := fits.free
  have unowned p : child ∉ t.owned p := fun member => by simp [h.mem_owned_iff.mp member] at free
  constructor
  case mem_owned_iff =>
    intro p c
    rw [changed.owned, parents]
    by_cases atOwner : owner = p
    · subst atOwner
      rw [if_pos rfl, gains.owned.mem_iff, List.mem_cons, ← ownedNow, h.mem_owned_iff]
      by_cases same : child = c <;> simp [same, eq_comm]
    · rw [if_neg atOwner, h.mem_owned_iff]
      by_cases same : child = c
      · subst same
        simp [free, atOwner]
      · simp [same]
  case nodup_owned =>
    intro p
    rw [changed.owned]
    split
    · rw [gains.owned.nodup_iff, List.nodup_cons, ← ownedNow]
      exact ⟨unowned owner, h.nodup_owned owner⟩
    · exact h.nodup_owned p
  case grounded =>
    intro id inside
    obtain ⟨path, up⟩ := h.grounded (contains_of_kinds kinds ▸ inside)
    obtain ⟨ownerPath, top⟩ := h.grounded fits.owner_live
    have outside : child ∉ ownerPath := fun member => by
      have within := (h.isWithin_iff fits.owner_live).mpr (top.mem_iff.mp member)
      simp [fits.outside] at within
    -- The way up from the owner does not pass the child, so the new link closes no circle.
    have still : t'.Climbs owner ownerPath := by
      apply top.congr
      intro x member
      refine ⟨(contains_of_kinds kinds).trans (top.contains_of_mem member), ?_⟩
      rw [parents, if_neg (ne_of_mem_of_not_mem member outside).symm]
    apply up.extend still
    · intro x p owned
      have differs : child ≠ x := by
        rintro rfl
        simp [free] at owned
      rw [parents, if_neg differs, owned]
    · intro x liveX none
      refine ⟨(contains_of_kinds kinds).trans liveX, ?_⟩
      rw [parents]
      split
      · exact .inr rfl
      · exact .inl none
  case elif_iff =>
    intro c p owned
    rw [parents] at owned
    rw [kinds, changed.elifs]
    split at owned
    next same =>
      cases owned
      subst same
      have absent : child ∉ s.elifs := fun member =>
        unowned owner (elifs_subset_owned (elifsNow ▸ member))
      rw [if_pos rfl, gains.elifs, or_iff_right absent, and_iff_right rfl]
    next differs =>
      rw [h.elif_iff owned]
      split
      next atOwner =>
        rw [gains.elifs, or_iff_left fun both => differs both.1.symm, ← elifsNow, atOwner]
      next => rfl
  case otherwise_iff =>
    intro c p owned
    rw [parents] at owned
    rw [kinds, changed.last?]
    split at owned
    next same =>
      cases owned
      subst same
      have absent : s.last? ≠ some child := fun member =>
        unowned owner (mem_owned_of_last? (lastNow.trans member))
      rw [if_pos rfl, gains.last?, or_iff_right absent, and_iff_right rfl]
    next differs =>
      rw [h.otherwise_iff owned]
      split
      next atOwner =>
        rw [gains.last?, or_iff_left fun both => differs both.1.symm, ← lastNow, atOwner]
      next => rfl
  case live_eq => rw [live, population, h.live_eq]

theorem stmt?_give {f : Stmt → Stmt} (found : t.stmt? owner = some s) :
    t.Changed (t.give owner child f) owner (f s) := by
  intro x
  rw [give, stmt?_setParent]
  exact changed_updateStmt found x

theorem parent?_give {f : Stmt → Stmt} (live : t.contains child) :
    (t.give owner child f).parent? x = if child = x then some owner else t.parent? x := by
  rw [give, parent?_setParent (contains_updateStmt.trans live), parent?_updateStmt]

theorem Linked.give (h : t.Linked) {f : Stmt → Stmt} (fits : t.Attachable owner child)
    (found : t.stmt? owner = some s) (gains : t.Gains child s (f s)) :
    (t.give owner child f).Linked :=
  h.of_gains fits found gains (stmt?_give found) (fun _ => parent?_give fits.child_live) rfl
    (by simp [Tree.give, setParent, updateStmt])

theorem gains_addChild (container : s.kind.isContainer) (entry : t.isChainEntry child = false) :
    t.Gains child s (s.addChild child) := by
  obtain ⟨notElif, notOtherwise⟩ := isChainEntry_eq_false_iff.mp entry
  exact ⟨by simp, Stmt.owned_addChild child container, by simp [notElif], by simp [notOtherwise],
    by simp⟩

theorem gains_addElif (conditional : s.kind = .conditional) (kind : t.kind? child = some .elif) :
    t.Gains child s (s.addElif child) :=
  ⟨by simp, Stmt.owned_addElif child conditional, by simp [Stmt.elifs_addElif, conditional, kind],
    by simp [kind], by simp⟩

theorem gains_setElse (conditional : s.kind = .conditional) (opened : s.last? = none)
    (kind : t.kind? child = some .otherwise) : t.Gains child s (s.setElse child) :=
  ⟨by simp, Stmt.owned_setElse child conditional opened, by simp [kind],
    by simp [Stmt.last?_setElse, conditional, opened, kind, eq_comm], by simp⟩

/-- All that an operation can do which gives a statement to an owner. -/
def Gives (t : Tree) (owner child : StmtId) (f : Stmt → Stmt) (op : TreeM Unit) : Prop :=
  (∃ e, op t = .error e t) ∨
    ∃ s, t.Attachable owner child ∧ t.stmt? owner = some s ∧ t.Gains child s (f s) ∧
      op t = .ok () (t.give owner child f)

theorem append_gives (owner child : StmtId) (t : Tree) :
    t.Gives owner child (·.addChild child) (append owner child) := by
  rw [Gives, append_run]
  cases checked : t.checkAppend owner child with
  | error e => exact .inl ⟨e, rfl⟩
  | ok =>
    obtain ⟨⟨k, kind, container⟩, entry, fits⟩ := checkAppend_ok_iff.mp checked
    obtain ⟨s, found⟩ := exists_stmt fits.owner_live
    have same := kind_of_stmt? found kind
    exact .inr ⟨s, fits, found, gains_addChild (same ▸ container) entry, rfl⟩

theorem addElif_gives (owner child : StmtId) (t : Tree) :
    t.Gives owner child (·.addElif child) (addElif owner child) := by
  rw [Gives, addElif_run]
  cases checked : t.checkAddElif owner child with
  | error e => exact .inl ⟨e, rfl⟩
  | ok =>
    obtain ⟨conditional, kind, -, fits⟩ := checkAddElif_ok_iff.mp checked
    obtain ⟨s, found⟩ := exists_stmt fits.owner_live
    have same := kind_of_stmt? found conditional
    exact .inr ⟨s, fits, found, gains_addElif same kind, rfl⟩

theorem setElse_gives (owner child : StmtId) (t : Tree) :
    t.Gives owner child (·.setElse child) (setElse owner child) := by
  rw [Gives, setElse_run]
  cases checked : t.checkSetElse owner child with
  | error e => exact .inl ⟨e, rfl⟩
  | ok =>
    obtain ⟨conditional, kind, opened, fits⟩ := checkSetElse_ok_iff.mp checked
    obtain ⟨s, found⟩ := exists_stmt fits.owner_live
    have same := kind_of_stmt? found conditional
    have opened := (last?_of_stmt? found).symm.trans opened
    exact .inr ⟨s, fits, found, gains_setElse same opened kind, rfl⟩

/-! Making a statement. -/

theorem stmt?_adopted {ids : List StmtId} : (t.adopted owner ids).stmt? x = t.stmt? x := by
  induction ids generalizing t with
  | nil => rfl
  | cons id rest ih => exact ih.trans stmt?_setParent

theorem parent?_adopted {ids : List StmtId} (live : ∀ c ∈ ids, t.contains c) :
    (t.adopted owner ids).parent? x = if x ∈ ids then some owner else t.parent? x := by
  induction ids generalizing t with
  | nil => rfl
  | cons id rest ih =>
    have later : ∀ c ∈ rest, (t.setParent id (some owner)).contains c := by
      intro c member
      simpa using live c (.tail _ member)
    apply (ih later).trans
    rw [parent?_setParent (live id List.mem_cons_self)]
    by_cases same : id = x
    · simp [same]
    · simp [same, Ne.symm same]

@[simp] theorem population_adopted {ids : List StmtId} :
    (t.adopted owner ids).population = t.population := by
  induction ids generalizing t with
  | nil => rfl
  | cons id rest ih => exact ih.trans (population_update ..)

@[simp] theorem live_adopted {ids : List StmtId} : (t.adopted owner ids).live = t.live := by
  induction ids generalizing t with
  | nil => rfl
  | cons id rest ih => exact ih

variable {span : Span}

theorem stmt?_extended : t.Changed (t.extended s span) t.nextId s := by
  intro x
  rw [stmt?, extended, get?_grow, nextId_adopted]
  by_cases same : x = t.nextId
  · simp [same]
  · have kept : (t.adopted t.nextId s.owned).stmt? x = t.stmt? x := stmt?_adopted
    rw [if_neg same, if_neg (Ne.symm same), ← kept]
    rfl

theorem parent?_nextId (t : Tree) : t.parent? t.nextId = none := by
  by_contra owned
  obtain ⟨owner, owned⟩ := Option.ne_none_iff_exists'.mp owned
  simpa [t.not_contains_nextId] using contains_of_parent? owned

theorem parent?_extended (fits : t.Addable s) : (t.extended s span).parent? x =
    if x ∈ s.owned then some t.nextId else t.parent? x := by
  rw [parent?, extended, get?_grow, nextId_adopted, ← parent?_adopted fits.live]
  split
  next same =>
    have fresh : t.nextId ∉ s.owned := fun member => by
      simpa [t.not_contains_nextId] using fits.live _ member
    rw [same, parent?_adopted fits.live, if_neg fresh, parent?_nextId]
    rfl
  next => rfl

theorem Linked.extended (h : t.Linked) (fits : t.Addable s) : (t.extended s span).Linked := by
  have changed : t.Changed (t.extended s span) t.nextId s := stmt?_extended
  have parents x : (t.extended s span).parent? x = _ := parent?_extended fits
  have dead := t.not_contains_nextId
  have elsewhere {c} (member : c ∈ s.owned) : t.nextId ≠ c := by
    rintro rfl
    simpa [dead] using fits.live _ member
  have kinds {x} (live : t.contains x) : (t.extended s span).kind? x = t.kind? x := by
    rw [changed.kind?, if_neg]
    rintro rfl
    simp [dead] at live
  have ownerOld {c p} (owned : t.parent? c = some p) : t.nextId ≠ p := by
    rintro rfl
    simpa [dead] using h.contains_owner owned
  constructor
  case mem_owned_iff =>
    intro p c
    rw [changed.owned, parents]
    by_cases atNew : t.nextId = p
    · subst atNew
      by_cases member : c ∈ s.owned
      · simp [member]
      · simpa [member] using fun owned => ownerOld owned rfl
    · rw [if_neg atNew, h.mem_owned_iff]
      by_cases member : c ∈ s.owned
      · simp [member, atNew, fits.free c member]
      · simp [member]
  case nodup_owned =>
    intro p
    rw [changed.owned]
    split
    · exact fits.nodup
    · exact h.nodup_owned p
  case grounded =>
    have top : (t.extended s span).Climbs t.nextId [t.nextId] := by
      apply Climbs.top (contains_of_stmt? (s := s) (by simp [changed t.nextId]))
      rw [parents, if_neg fun member => elsewhere member rfl, parent?_nextId]
    intro id inside
    by_cases same : t.nextId = id
    · exact ⟨_, same ▸ top⟩
    have old : t.contains id := by simpa [contains_eq, changed id, same] using inside
    obtain ⟨path, up⟩ := h.grounded old
    refine up.extend top (fun x p owned => ?_) fun x liveX free => ⟨?_, ?_⟩
    · rw [parents, if_neg fun member => by simp [fits.free x member] at owned, owned]
    · have differs : t.nextId ≠ x := by
        rintro rfl
        simp [dead] at liveX
      simpa [contains_eq, changed x, differs] using liveX
    · rw [parents]
      split
      · exact .inr rfl
      · exact .inl free
  case elif_iff =>
    intro c p owned
    rw [parents] at owned
    rw [changed.elifs]
    split at owned
    next member =>
      cases owned
      rw [kinds (fits.live c member), if_pos rfl, fits.elif_iff c member]
    next =>
      rw [kinds (contains_of_parent? owned), if_neg (ownerOld owned), h.elif_iff owned]
  case otherwise_iff =>
    intro c p owned
    rw [parents] at owned
    rw [changed.last?]
    split at owned
    next member =>
      cases owned
      rw [kinds (fits.live c member), if_pos rfl, fits.otherwise_iff c member]
    next =>
      rw [kinds (contains_of_parent? owned), if_neg (ownerOld owned), h.otherwise_iff owned]
  case live_eq =>
    have count : (t.adopted t.nextId s.owned).live = t.live := live_adopted
    rw [Tree.extended, population_grow, population_adopted, ← h.live_eq, ← count]
    rfl

end Tree
end KernelTree
