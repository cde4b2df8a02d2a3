import KernelTree.Proofs.Except
import KernelTree.Proofs.Statement.Ownership
/-! Renumbering what a statement mentions. It succeeds exactly when every mentioned number has a new
one, and then it is the map of those numbers over the statement. -/
namespace KernelTree

variable {id : StmtId}

namespace Scope

/-- The same names, bound to the images of their statements. -/
def map (ρ : StmtId → StmtId) (s : Scope) : Scope where
  entries := s.entries.map fun e => (e.1, ρ e.2)
  sorted := by
    rw [List.map_map]
    exact s.sorted

/-- The statements that names are bound to. -/
def targets (s : Scope) : List StmtId := s.entries.map Prod.snd

theorem mem_of_get? {s : Scope} (h : s.get? name = some id) : (name, id) ∈ s.entries := by
  obtain ⟨entries, sorted⟩ := s
  simp only [get?] at h ⊢
  clear sorted
  induction entries with
  | nil => simp at h
  | cons e rest ih =>
    obtain ⟨other, bound⟩ := e
    by_cases same : name = other
    · subst same
      simp_all
    · rw [List.lookup_cons, beq_false_of_ne same] at h
      exact List.mem_cons_of_mem _ (ih h)

theorem mem_place {l : List (String × StmtId)} {e : String × StmtId}
    (h : e ∈ place name id l) : e = (name, id) ∨ e ∈ l := by
  induction l with
  | nil => simpa [place] using h
  | cons first rest ih =>
    obtain ⟨other, bound⟩ := first
    unfold place at h
    split at h
    · simpa using h
    · split at h
      · exact .inr h
      · rcases List.mem_cons.mp h with rfl | h
        · exact .inr List.mem_cons_self
        · exact (ih h).imp_right (List.mem_cons_of_mem _)

theorem renumberEntries_ok_iff {f : StmtId → Option StmtId} {l r : List (String × StmtId)} :
    renumberEntries f l = .ok r ↔
      (∀ e ∈ l, (f e.2).isSome) ∧ r = l.map fun e => (e.1, (f e.2).getD e.2) := by
  induction l generalizing r with
  | nil => simp [renumberEntries, eq_comm (b := r)]
  | cons e rest ih =>
    obtain ⟨name, bound⟩ := e
    unfold renumberEntries
    cases new : f bound with
    | none => simp [new]
    | some place =>
      simp only [except_map_ok, ih, List.forall_mem_cons, List.map_cons, new]
      constructor
      · rintro ⟨tail, ⟨known, rfl⟩, rfl⟩
        exact ⟨⟨rfl, known⟩, rfl⟩
      · rintro ⟨⟨-, known⟩, rfl⟩
        exact ⟨_, ⟨known, rfl⟩, rfl⟩

theorem renumber_ok_iff {f : StmtId → Option StmtId} {s r : Scope} :
    s.renumber f = .ok r ↔
      (∀ id ∈ s.targets, (f id).isSome) ∧ r = s.map fun id => (f id).getD id := by
  simp only [targets, List.forall_mem_map]
  unfold renumber
  split
  next stray found =>
    simp only [reduceCtorEq, false_iff]
    intro h
    rw [renumberEntries_ok_iff.mpr ⟨h.1, rfl⟩] at found
    cases found
  next entries found =>
    obtain ⟨known, rfl⟩ := renumberEntries_ok_iff.mp found
    rw [Except.ok.injEq, and_iff_right known, eq_comm]
    rfl

end Scope

/-- The block with every number replaced. -/
def Block.map (ρ : StmtId → StmtId) (b : Block) : Block :=
  { children := b.children.map ρ, scope := b.scope.map ρ }

theorem Scope.map_congr {s : Scope} (same : ∀ x ∈ s.targets, ρ x = ρ' x) : s.map ρ = s.map ρ' := by
  ext1
  exact List.map_congr_left fun e member =>
    congrArg (Prod.mk e.1) (same e.2 (List.mem_map_of_mem member))

theorem Block.map_congr {b : Block} (children : ∀ x ∈ b.children, ρ x = ρ' x)
    (targets : ∀ x ∈ b.scope.targets, ρ x = ρ' x) : b.map ρ = b.map ρ' := by
  rw [Block.map, Block.map, List.map_congr_left children, Scope.map_congr targets]

namespace Stmt

/-- The statements that names are bound to at the level of a container. -/
def targets (s : Stmt) : List StmtId := (s.body?.map (·.scope.targets)).getD []

/-- The statement with every number replaced. All else that it says stays as it is. -/
def map (ρ : StmtId → StmtId) : Stmt → Stmt
  | block body => block (body.map ρ)
  | otherwise body => otherwise (body.map ρ)
  | function sig body => function sig (body.map ρ)
  | namespaceBlock name body => namespaceBlock name (body.map ρ)
  | conditional condition body elifs last =>
    conditional (ρ condition) (body.map ρ) (elifs.map ρ) (last.map ρ)
  | elif condition body => elif (ρ condition) (body.map ρ)
  | forLoop init test update body =>
    forLoop (init.map ρ) (test.map ρ) (update.map ρ) (body.map ρ)
  | whileLoop condition body bodyFirst => whileLoop (ρ condition) (body.map ρ) bodyFirst
  | switch condition body => switch (ρ condition) (body.map ρ)
  | leaf => leaf

theorem map_congr {s : Stmt} (same : ∀ x ∈ s.owned ++ s.targets, ρ x = ρ' x) :
    s.map ρ = s.map ρ' := by
  have block {b : Block} (children : ∀ x ∈ b.children, ρ x = ρ' x)
      (targets : ∀ x ∈ b.scope.targets, ρ x = ρ' x) : b.map ρ = b.map ρ' :=
    Block.map_congr children targets
  have optional {o : Option StmtId} (inside : ∀ x ∈ o.toList, ρ x = ρ' x) : o.map ρ = o.map ρ' :=
    Option.map_congr fun x found => inside x (Option.mem_toList.mpr found)
  cases s
  all_goals
    simp only [owned, targets, slots, children, body?, Option.map_some, Option.getD_some,
      List.forall_mem_append, List.forall_mem_cons] at same
    simp only [map] <;> grind [List.map_congr_left]

@[simp] theorem map_id (s : Stmt) : (s.map fun x => x) = s := by
  cases s <;> simp [map, Block.map, Scope.map]

@[simp] theorem map_map (ρ σ : StmtId → StmtId) (s : Stmt) :
    (s.map ρ).map σ = s.map (σ ∘ ρ) := by
  cases s <;> simp [map, Block.map, Scope.map, Function.comp_def]

@[simp] theorem kind_map (ρ : StmtId → StmtId) (s : Stmt) : (s.map ρ).kind = s.kind := by
  cases s <;> rfl

@[simp] theorem body?_map (ρ : StmtId → StmtId) (s : Stmt) :
    (s.map ρ).body? = s.body?.map (Block.map ρ) := by
  cases s <;> rfl

@[simp] theorem children_map (ρ : StmtId → StmtId) (s : Stmt) :
    (s.map ρ).children = s.children.map ρ := by
  cases s <;> rfl

@[simp] theorem slots_map (ρ : StmtId → StmtId) (s : Stmt) :
    (s.map ρ).slots = s.slots.map ρ := by
  cases s <;> simp [map, slots, Option.toList_map]

@[simp] theorem owned_map (ρ : StmtId → StmtId) (s : Stmt) :
    (s.map ρ).owned = s.owned.map ρ := by
  cases s <;> simp [map, owned, slots, children, body?, Block.map, Option.toList_map]

@[simp] theorem elifs_map (ρ : StmtId → StmtId) (s : Stmt) :
    (s.map ρ).elifs = s.elifs.map ρ := by
  cases s <;> rfl

@[simp] theorem last?_map (ρ : StmtId → StmtId) (s : Stmt) :
    (s.map ρ).last? = s.last?.map ρ := by
  cases s <;> rfl

@[simp] theorem chain_map (ρ : StmtId → StmtId) (s : Stmt) :
    (s.map ρ).chain = s.chain.map ρ := by
  simp [chain, Option.toList_map]

@[simp] theorem targets_map (ρ : StmtId → StmtId) (s : Stmt) :
    (s.map ρ).targets = s.targets.map ρ := by
  simp only [targets, body?_map]
  cases s.body? <;> simp [Block.map, Scope.map, Scope.targets]

theorem targets_eq {s : Stmt} : s.targets = (s.scope?.map (·.targets)).getD [] := by
  unfold targets scope?
  cases s.body? <;> rfl

theorem one_ok_iff {f : StmtId → Option StmtId} :
    renumber.one f id = .ok new ↔ (f id).isSome ∧ new = (f id).getD id := by
  unfold renumber.one
  cases f id <;> simp [eq_comm]

theorem mapM_one_ok_iff {f : StmtId → Option StmtId} {l r : List StmtId} :
    l.mapM (renumber.one f) = .ok r ↔
      (∀ id ∈ l, (f id).isSome) ∧ r = l.map fun id => (f id).getD id := by
  induction l generalizing r with
  | nil => simp [except_pure_ok, eq_comm (b := r)]
  | cons first rest ih =>
    simp only [List.mapM_cons, except_bind_ok, except_pure_ok, one_ok_iff, ih,
      List.forall_mem_cons, List.map_cons]
    constructor
    · rintro ⟨_, ⟨known, rfl⟩, _, ⟨tail, rfl⟩, rfl⟩
      exact ⟨⟨known, tail⟩, rfl⟩
    · rintro ⟨⟨known, tail⟩, rfl⟩
      exact ⟨_, ⟨known, rfl⟩, _, ⟨tail, rfl⟩, rfl⟩

theorem optionMapM_one_ok_iff {f : StmtId → Option StmtId} {o r : Option StmtId} :
    o.mapM (renumber.one f) = .ok r ↔
      (∀ id ∈ o.toList, (f id).isSome) ∧ r = o.map fun id => (f id).getD id := by
  cases o with
  | none =>
    have mapped : (none : Option StmtId).mapM (renumber.one f) = pure none := rfl
    simp [mapped, except_pure_ok, eq_comm (b := r)]
  | some id =>
    have mapped : (some id).mapM (renumber.one f) = (renumber.one f id).map some := rfl
    simp only [mapped, except_map_ok, one_ok_iff, Option.toList_some, List.forall_mem_singleton,
      Option.map_some]
    constructor
    · rintro ⟨_, ⟨known, rfl⟩, rfl⟩
      exact ⟨known, rfl⟩
    · rintro ⟨known, rfl⟩
      exact ⟨_, ⟨known, rfl⟩, rfl⟩

theorem block_renumber_ok_iff {f : StmtId → Option StmtId} {b r : Block} :
    b.renumber f = .ok r ↔
      (∀ id ∈ b.children ++ b.scope.targets, (f id).isSome) ∧
        r = b.map fun id => (f id).getD id := by
  have children := @mapM_one_ok_iff f b.children
  unfold renumber.one at children
  simp only [Block.renumber, except_bind_ok, except_pure_ok, children, Scope.renumber_ok_iff,
    List.forall_mem_append]
  constructor
  · rintro ⟨_, ⟨known, rfl⟩, _, ⟨bound, rfl⟩, rfl⟩
    exact ⟨⟨known, bound⟩, rfl⟩
  · rintro ⟨⟨known, bound⟩, rfl⟩
    exact ⟨_, ⟨known, rfl⟩, _, ⟨bound, rfl⟩, rfl⟩

/-- Renumbering succeeds exactly when every mentioned number has a new one. -/
theorem renumber_ok_iff {f : StmtId → Option StmtId} {s r : Stmt} :
    s.renumber f = .ok r ↔
      (∀ id ∈ s.owned ++ s.targets, (f id).isSome) ∧ r = s.map fun id => (f id).getD id := by
  cases s
  all_goals
    simp only [renumber, except_bind_ok, except_pure_ok, block_renumber_ok_iff, one_ok_iff,
      mapM_one_ok_iff, optionMapM_one_ok_iff, owned, targets, slots, children, body?, map,
      and_assoc, exists_and_left, exists_eq_left, List.forall_mem_append, List.forall_mem_cons,
      Option.map_some, Option.map_none, Option.getD_some, Option.getD_none, List.nil_append,
      eq_comm (b := r)]
  all_goals grind

end Stmt
end KernelTree
