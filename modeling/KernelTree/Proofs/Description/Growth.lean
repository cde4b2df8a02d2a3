import KernelTree.Proofs.Description.Naming
import KernelTree.Proofs.Tree.Nodes
import KernelTree.Proofs.Tree.Scoping
/-! Trees under construction. Beside being a forest, such a tree has lost no statement, and the
names at its levels are those declared so far. Each step of the construction keeps that. -/
namespace KernelTree

theorem Scope.get?_insertIfNew {s : Scope} {name other : String} {id : StmtId}
    (fresh : s.get? name = none) :
    (s.insertIfNew name id).get? other = if other = name then some id else s.get? other := by
  have lookup (n first : String) (bound : StmtId) (rest : List (String × StmtId)) :
      ((first, bound) :: rest).lookup n = if n = first then some bound else rest.lookup n := by
    rw [List.lookup_cons]
    by_cases same : n = first
    · simp [same]
    · simp [same, beq_false_of_ne same]
  obtain ⟨entries, sorted⟩ := s
  simp only [get?, insertIfNew] at fresh ⊢
  clear sorted
  induction entries with
  | nil => simp [place, lookup]
  | cons e rest ih =>
    obtain ⟨first, bound⟩ := e
    rw [lookup] at fresh
    unfold place
    by_cases taken : name = first
    · simp [taken] at fresh
    · rw [if_neg taken] at fresh
      split
      · rw [lookup]
      · rw [lookup, ih fresh, lookup]
        by_cases same : other = name <;> simp [same, taken]

/-- A statement owns those whose names belong to its level. -/
theorem Stmt.level_subset (s : Stmt) : s.level ⊆ s.owned := by
  refine List.append_subset.mpr ⟨?_, s.children_sublist.subset⟩
  cases s <;> simp [init?, owned, slots]

namespace Tree

variable {t t' : Tree} {id x c owner child : StmtId} {s : Stmt} {span : Span} {bs : List Binding}
  {name : String}

/-- What a statement says and where it stands, apart from numbers and declared names. -/
def line? (t : Tree) (id : StmtId) : Option (Stmt.Shape × Span) :=
  (t.get? id).map fun node => (node.stmt.shape, node.span)

/-- The statement that a name stands for at the level of a container. -/
def named? (t : Tree) (c : StmtId) (name : String) : Option StmtId :=
  (t.scope? c).bind (·.get? name)

/-- The statement of that number declares the name. -/
def Declares (t : Tree) (id : StmtId) (name : String) : Prop :=
  ∃ s, t.stmt? id = some s ∧ name ∈ s.declared

/-- The names at the level of a container are those declared by the statements of that level. -/
def NamesAt (t : Tree) (c : StmtId) : Prop :=
  ∀ s, t.stmt? c = some s → ∀ name id,
    t.named? c name = some id ↔ id ∈ s.level ∧ t.Declares id name

/-- A tree under construction, in which `bs` were declared so far. -/
structure Growing (t : Tree) (bs : List Binding) : Prop extends t.Rooted where
  full : t.live = t.slots.size
  distinct : (bs.map (·.key)).Nodup
  named?_iff : ∀ {c name id}, t.named? c name = some id ↔ ∃ b ∈ bs, b.key = (c, name) ∧ b.decl = id

theorem named?_eq : t.named? c name = ((t.stmt? c).bind (·.scope?)).bind (·.get? name) := by
  rw [named?, scope?_eq]

/-- A statement with an empty block has no names at its level. -/
theorem named?_of_bare (found : t.stmt? c = some s) (bare : s.Bare) : t.named? c name = none := by
  rw [named?_eq, found, Option.bind_some, Stmt.scope?]
  cases there : s.body? with
  | none => rfl
  | some body => simp [Scope.get?, (bare body there).2]

theorem named?_of_not_contains (absent : t.contains c = false) : t.named? c name = none := by
  rw [contains_eq] at absent
  rw [named?_eq, Option.isSome_eq_false_iff.mp absent |> Option.isNone_iff_eq_none.mp]
  rfl

/-- Declaring a name at a level where it is free binds it there, and no other name anywhere. -/
theorem named?_declared {k : StmtKind} {other : String} (kind : t.kind? c = some k)
    (container : k.isContainer) (fresh : t.named? c name = none) :
    (t.updateStmt c (.mapScope (·.insertIfNew name id))).named? x other =
      if c = x ∧ other = name then some id else t.named? x other := by
  obtain ⟨s, found⟩ := exists_stmt (contains_of_kind? kind)
  have body : s.body?.isSome := by
    rw [Stmt.isSome_body?, kind_of_stmt? found kind, container]
  obtain ⟨body, there⟩ := Option.isSome_iff_exists.mp body
  have names : s.scope? = some body.scope := by rw [Stmt.scope?, there]; rfl
  have free : body.scope.get? name = none := by
    rwa [named?_eq, found, Option.bind_some, names] at fresh
  rw [named?_eq, stmt?_updateStmt, named?_eq]
  by_cases here : c = x
  · subst here
    rw [if_pos rfl, found, Option.map_some, Option.bind_some, Stmt.scope?_mapScope, names,
      Option.map_some, Option.bind_some, Option.bind_some, names, Option.bind_some,
      Scope.get?_insertIfNew free]
    simp
  · rw [if_neg here, if_neg fun both => here both.1]

/-- The tree gained nothing but what was made. -/
theorem Rooted.edited (h : t.Rooted) (edit : Edit (fun _ => True) (fun _ => False) t t') :
    t'.Rooted :=
  edit.rooted h fun _ impossible => impossible.elim

namespace Growing
variable (growing : t.Growing bs)
include growing

theorem extended (bare : s.Bare) (fits : t.Addable s) : (t.extended s span).Growing bs := by
  have live : (t.extended s span).live = t.live + 1 := by
    have count : (t.adopted t.nextId s.owned).live = t.live := live_adopted
    rw [Tree.extended, ← count]
    rfl
  refine ⟨growing.toRooted.edited (.make trivial fits), ?_, growing.distinct, ?_⟩
  · rw [live, growing.full, slots_size_extended]
  · intro c name id
    rw [← growing.named?_iff]
    by_cases here : t.nextId = c
    · subst here
      have made : (t.extended s span).stmt? t.nextId = some s := by
        rw [stmt?_extended, if_pos rfl]
      rw [named?_of_bare made bare, named?_of_not_contains t.not_contains_nextId]
    · rw [named?_eq, stmt?_extended, if_neg here, ← named?_eq]

theorem give {f : Stmt → Stmt} (fits : t.Attachable owner child) (found : t.stmt? owner = some s)
    (gains : t.Gains child s (f s)) : (t.give owner child f).Growing bs := by
  refine ⟨growing.toRooted.edited (.give fits found gains), ?_, growing.distinct, ?_⟩
  · rw [slots_size_give]
    exact growing.full
  · intro c name id
    rw [← growing.named?_iff, named?_eq, stmt?_give found, named?_eq]
    split
    next here => rw [← here, found, Option.bind_some, Option.bind_some, gains.scope?]
    next => rfl

theorem declare {k : StmtKind} (kind : t.kind? c = some k) (container : k.isContainer)
    (owned : t.parent? id = some c) (fresh : t.named? c name = none) :
    (t.updateStmt c (.mapScope (·.insertIfNew name id))).Growing
      (bs ++ [{ container := c, name, decl := id, span }]) := by
  have live := contains_of_parent? owned
  have inside := (growing.isWithin_iff live).mpr (.step owned (.refl ..))
  have absent : ∀ b ∈ bs, b.key ≠ (c, name) := by
    intro b member same
    have there := growing.named?_iff.mpr ⟨b, member, same, rfl⟩
    simp [fresh] at there
  refine ⟨growing.toRooted.edited (.declare live inside), ?_, ?_, ?_⟩
  · simpa [updateStmt] using growing.full
  · rw [List.map_append, List.nodup_append']
    refine ⟨growing.distinct, by simp, ?_⟩
    intro key member there
    obtain ⟨b, inside, rfl⟩ := List.mem_map.mp member
    exact absent b inside (List.mem_singleton.mp there)
  · intro c' name' id'
    rw [named?_declared kind container fresh]
    split
    next here =>
      obtain ⟨rfl, rfl⟩ := here
      constructor
      · rintro ⟨⟩
        exact ⟨_, List.mem_append_right _ List.mem_cons_self, rfl, rfl⟩
      · rintro ⟨b, member, same, rfl⟩
        rcases List.mem_append.mp member with member | member
        · exact absurd same (absent b member)
        · cases List.mem_singleton.mp member
          rfl
    next elsewhere =>
      rw [growing.named?_iff]
      constructor
      · rintro ⟨b, member, same⟩
        exact ⟨b, List.mem_append_left _ member, same⟩
      · rintro ⟨b, member, same, decl⟩
        rcases List.mem_append.mp member with member | member
        · exact ⟨b, member, same, decl⟩
        · cases List.mem_singleton.mp member
          cases same
          exact absurd ⟨rfl, rfl⟩ elsewhere

end Growing

theorem growing_initial : initial.Growing [] := by
  refine ⟨rooted_initial, rfl, .nil, ?_⟩
  intro c name id
  have bare : initial.named? c name = none := by
    by_cases here : c = root
    · subst here
      exact named?_of_bare (s := .block .empty) rfl (by decide)
    · apply named?_of_not_contains
      obtain ⟨index⟩ := c
      cases index with
      | zero => exact absurd rfl here
      | succ => simp [contains, get?, initial]
  simp [bare]

/-! Frames: what stays of a tree while it grows. -/

/-- What a statement says, with the numbers and names in it, and where it stands. -/
def said? (t : Tree) (id : StmtId) : Option (Stmt × Span) :=
  (t.get? id).map fun node => (node.stmt, node.span)

theorem said?_of_get? (same : t'.get? x = t.get? x) : t'.said? x = t.said? x := by
  rw [said?, same, said?]

theorem stmt?_of_said? (same : t'.said? x = t.said? x) : t'.stmt? x = t.stmt? x := by
  have := congrArg (Option.map Prod.fst) same
  simpa [said?, stmt?, Function.comp_def] using this

theorem line?_of_said? (same : t'.said? x = t.said? x) : t'.line? x = t.line? x := by
  have := congrArg (Option.map fun line => (line.1.shape, line.2)) same
  simpa [said?, line?, Function.comp_def] using this

/-- The trees differ in nothing but the names at the level of one container. -/
structure Rescoped (t : Tree) (c : StmtId) (t' : Tree) : Prop where
  get? : ∃ f : Scope → Scope, ∀ x, t'.get? x =
    if c = x then (t.get? x).map fun node => { node with stmt := node.stmt.mapScope f }
    else t.get? x
  size : t'.slots.size = t.slots.size

namespace Rescoped

theorem refl (t : Tree) (c : StmtId) : t.Rescoped c t := by
  refine ⟨⟨id, fun x => ?_⟩, rfl⟩
  have same (s : Stmt) : s.mapScope id = s := by cases s <;> rfl
  simp [same]

theorem trans {t₁ t₂ : Tree} (first : t.Rescoped c t₁) (later : t₁.Rescoped c t₂) :
    t.Rescoped c t₂ := by
  obtain ⟨f, first'⟩ := first.get?
  obtain ⟨g, later'⟩ := later.get?
  refine ⟨⟨g ∘ f, fun x => ?_⟩, later.size.trans first.size⟩
  have twice (s : Stmt) : (s.mapScope f).mapScope g = s.mapScope (g ∘ f) := by cases s <;> rfl
  rw [later', first']
  split
  · simp [Function.comp_def, twice]
  · rfl

section
variable (h : t.Rescoped c t')
include h

theorem parent?_eq : t'.parent? x = t.parent? x := by
  obtain ⟨f, nodes⟩ := h.get?
  rw [parent?, nodes, parent?]
  split <;> cases t.get? x <;> rfl

theorem stmt?_eq : ∃ f : Scope → Scope, ∀ x, t'.stmt? x =
    if c = x then (t.stmt? x).map (.mapScope f) else t.stmt? x := by
  obtain ⟨f, nodes⟩ := h.get?
  refine ⟨f, fun x => ?_⟩
  rw [stmt?, nodes, stmt?]
  split <;> simp [Function.comp_def]

theorem kind?_eq : t'.kind? x = t.kind? x := by
  obtain ⟨f, stmts⟩ := h.stmt?_eq
  rw [Tree.kind?_eq, stmts, Tree.kind?_eq]
  split <;> simp [Function.comp_def]

end

theorem one (t : Tree) (c : StmtId) (f : Scope → Scope) :
    t.Rescoped c (t.updateStmt c (.mapScope f)) :=
  ⟨⟨f, fun _ => get?_update ..⟩, slots_size_update ..⟩

end Rescoped

theorem declares_congr
    (same : (t'.stmt? x).map (·.declared) = (t.stmt? x).map (·.declared)) :
    t'.Declares x name ↔ t.Declares x name := by
  have read (t : Tree) : t.Declares x name ↔
      ∃ names, (t.stmt? x).map (·.declared) = some names ∧ name ∈ names := by
    simp only [Declares, Option.map_eq_some_iff]
    constructor
    · rintro ⟨s, found, member⟩
      exact ⟨_, ⟨s, found, rfl⟩, member⟩
    · rintro ⟨_, ⟨s, found, rfl⟩, member⟩
      exact ⟨s, found, member⟩
  rw [read, read, same]

/-- The names at the level of a container stay right while nothing changes that bears on them. -/
theorem NamesAt.congr (h : t.Linked) (names : t.NamesAt c)
    (said : ∀ s', t'.stmt? c = some s' →
      ∃ s, t.stmt? c = some s ∧ s'.level = s.level ∧ s'.scope? = s.scope?)
    (declared : ∀ x, t.contains x →
      (t'.stmt? x).map (·.declared) = (t.stmt? x).map (·.declared)) : t'.NamesAt c := by
  intro s' found' name id
  obtain ⟨s, found, level, scope⟩ := said s' found'
  have same : t'.named? c name = t.named? c name := by
    rw [named?_eq, found', Option.bind_some, scope, named?_eq, found, Option.bind_some]
  rw [same, names s found, level]
  apply and_congr_right
  intro inside
  have live := h.contains_owned (owned_of_stmt? found ▸ s.level_subset inside)
  exact (declares_congr (declared id live)).symm

/-- When the names of one more statement have been declared at its level, all levels have their
names. -/
theorem namesAt_of_declared {names : List String} (h : t.Linked) (growing : t.Growing bs)
    (growing' : t'.Growing (bs ++ names.map fun name => { container := c, name, decl := id, span }))
    (rescoped : t.Rescoped c t') (declares : ∀ name, t.Declares id name ↔ name ∈ names)
    (others : ∀ x, c ≠ x → t.NamesAt x)
    (here : ∀ s, t.stmt? c = some s → id ∈ s.level ∧
      ∀ name x, t.named? c name = some x ↔ x ∈ s.level ∧ x ≠ id ∧ t.Declares x name) (x : StmtId) :
    t'.NamesAt x := by
  obtain ⟨f, stmts⟩ := rescoped.stmt?_eq
  have declared (s : Stmt) : (s.mapScope f).declared = s.declared := by cases s <;> rfl
  have level (s : Stmt) : (s.mapScope f).level = s.level := by cases s <;> rfl
  have same (x : StmtId) : (t'.stmt? x).map (·.declared) = (t.stmt? x).map (·.declared) := by
    rw [stmts]
    split <;> simp [Function.comp_def, declared]
  by_cases at_ : c = x
  · subst at_
    intro s' found' name y
    rw [stmts, if_pos rfl] at found'
    obtain ⟨s, found, rfl⟩ := Option.map_eq_some_iff.mp found'
    obtain ⟨inside, was⟩ := here s found
    have bound : t'.named? c name = some y ↔
        t.named? c name = some y ∨ name ∈ names ∧ id = y := by
      simp only [growing.named?_iff, growing'.named?_iff, List.mem_append, List.mem_map,
        or_and_right, exists_or]
      apply or_congr_right
      constructor
      · rintro ⟨_, ⟨name, member, rfl⟩, key, rfl⟩
        cases key
        exact ⟨member, rfl⟩
      · rintro ⟨member, rfl⟩
        exact ⟨_, ⟨name, member, rfl⟩, rfl, rfl⟩
    rw [bound, was, level, declares_congr (same y), ← declares]
    by_cases equal : y = id
    · subst equal
      simp [inside]
    · simp [equal, Ne.symm equal]
  · apply (others x at_).congr h
    · intro s found
      rw [stmts, if_neg at_] at found
      exact ⟨s, found, rfl, rfl⟩
    · exact fun y _ => same y

end Tree
end KernelTree
