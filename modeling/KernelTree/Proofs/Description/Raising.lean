import KernelTree.Proofs.Description.Building
/-! What building leaves behind. The statements of an outline stand below the numbers that they were
given. Nothing that was there before has changed, apart from the owner that they were given to. -/
namespace KernelTree

open Outline

/-- What a statement says and where it stands. -/
def Outline.head : Outline → Stmt.Shape × Span
  | node shape span .. => (shape, span)

/-- The statement is no entry of an if-chain. -/
def Outline.Plain (o : Outline) : Prop := o.head.1.kind.isChainEntry = false

theorem Stmt.names_content (s : Stmt) : s.content.names = s.declared := by cases s <;> rfl

theorem Outline.names_head (o : Outline) : o.head.1.content.names = o.names := by
  obtain ⟨⟩ := o
  rfl

namespace Tree

variable {t t' t₁ t₂ t₃ t₄ : Tree} {x id owner child : StmtId} {s s' : Stmt} {span : Span}
  {bs bs' : List Binding} {os os' : List Outline} {ids ids' : List StmtId}
  {lines lines' : List (Stmt.Shape × Span)}

/-- A tree under construction between two statements: the names at each level are those of its
statements. -/
structure Complete (t : Tree) (bs : List Binding) : Prop extends t.Growing bs where
  names : ∀ c, t.NamesAt c

/-! Names of a tree to which a statement is added. -/

theorem namesAt_extended_of_ne (h : t.Linked) (names : ∀ x, t.NamesAt x) (apart : t.nextId ≠ x) :
    (t.extended s span).NamesAt x := by
  apply (names x).congr h
  · intro s' found
    rw [stmt?_extended, if_neg apart] at found
    exact ⟨s', found, rfl, rfl⟩
  · intro y live
    have old : t.nextId ≠ y := by
      rintro rfl
      simp [not_contains_nextId] at live
    rw [stmt?_extended, if_neg old]

/-- A new statement with an empty block has no names at its level, and needs none unless it has a
first part of a header. -/
theorem namesAt_extended (span : Span) (h : t.Linked) (names : ∀ x, t.NamesAt x) (bare : s.Bare)
    (init : s.init? = none) (x : StmtId) : (t.extended s span).NamesAt x := by
  by_cases here : t.nextId = x
  · subst here
    have made : (t.extended s span).stmt? t.nextId = some s := by rw [stmt?_extended, if_pos rfl]
    have level : s.level = [] := by
      rw [Stmt.level, init, Stmt.children]
      cases body : s.body? with
      | none => rfl
      | some b => simp [(bare b body).1]
    intro s' found name id
    cases Option.some.inj (made.symm.trans found)
    simp [named?_of_bare made bare, level]
  · exact namesAt_extended_of_ne h names here

theorem namesAt_give {f : Stmt → Stmt} (h : t.Linked) (names : t.NamesAt x)
    (found : t.stmt? owner = some s) (declared : (f s).declared = s.declared)
    (said : owner = x → (f s).level = s.level ∧ (f s).scope? = s.scope?) :
    (t.give owner child f).NamesAt x := by
  apply names.congr h
  · intro s' found'
    rw [stmt?_give found] at found'
    split at found'
    next here =>
      cases found'
      exact ⟨s, here ▸ found, said here⟩
    next => exact ⟨s', found', rfl, rfl⟩
  · intro y _
    rw [stmt?_give found]
    split
    next here => rw [← here, found, Option.map_some, Option.map_some, declared]
    next => rfl

/-! What stands in the tree below the statements that were built. -/

/-- The statements at and below `ids`, all of which are new, are those that `lines` lists. -/
def Shows (t t' : Tree) (ids : List StmtId) (lines : List (Stmt.Shape × Span)) : Prop :=
  ∃ order, t'.Walk ids order ∧ order.map t'.line? = lines.map some ∧
    ∀ x ∈ order, t.contains x = false

namespace Shows

theorem nil : Shows t t' [] [] := ⟨[], .done, rfl, by simp⟩

theorem append (first : Shows t t' ids lines) (later : Shows t t' ids' lines') :
    Shows t t' (ids ++ ids') (lines ++ lines') := by
  obtain ⟨order, walk, read, fresh⟩ := first
  obtain ⟨order', walk', read', fresh'⟩ := later
  refine ⟨order ++ order', walk.append walk', by rw [List.map_append, read, read', List.map_append],
    ?_⟩
  exact List.forall_mem_append.mpr ⟨fresh, fresh'⟩

theorem fresh (h : Shows t t' ids lines) (member : id ∈ ids) :
    t'.contains id ∧ t.contains id = false := by
  obtain ⟨order, walk, -, fresh⟩ := h
  have inside := walk.subset member
  exact ⟨walk.contains_of_mem inside, fresh id inside⟩

/-- What is shown stays as it is while none of it is changed. -/
theorem mono (h : Shows t t₁ ids lines) (kept : ∀ x, t₁.contains x → t.contains x = false →
    t₂.said? x = t₁.said? x) : Shows t t₂ ids lines := by
  obtain ⟨order, walk, read, fresh⟩ := h
  have same (x : StmtId) (member : x ∈ order) : t₂.said? x = t₁.said? x :=
    kept x (walk.contains_of_mem member) (fresh x member)
  refine ⟨order, walk.congr fun x member => ?_, ?_, fresh⟩
  · have stmt := stmt?_of_said? (same x member)
    exact ⟨by simpa [contains_eq, stmt] using walk.contains_of_mem member,
      by rw [owned_eq, stmt, ← owned_eq]⟩
  · rw [← read]
    exact List.map_congr_left fun x member => line?_of_said? (same x member)

/-- What is new to a later tree is new to an earlier one. -/
theorem earlier (h : Shows t₁ t₂ ids lines) (grown : ∀ x, t.contains x → t₁.contains x) :
    Shows t t₂ ids lines := by
  obtain ⟨order, walk, read, fresh⟩ := h
  refine ⟨order, walk, read, fun x member => ?_⟩
  apply Bool.eq_false_iff.mpr
  intro old
  simpa [fresh x member] using grown x old

/-- A statement is shown in front of all that it owns. -/
theorem node {line : Stmt.Shape × Span} (h : Shows t t' ids lines) (fresh : t.contains id = false)
    (here : t'.line? id = some line) (owned : t'.owned id = ids) :
    Shows t t' [id] (line :: lines) := by
  obtain ⟨order, walk, read, new⟩ := h
  have live : t'.contains id := by
    rw [Tree.contains, ← Option.isSome_map, ← line?, here]
    rfl
  refine ⟨id :: order, .visit live (by rwa [owned, List.append_nil]), ?_, ?_⟩
  · rw [List.map_cons, here, read, List.map_cons]
  · exact List.forall_mem_cons.mpr ⟨fresh, new⟩

end Shows

/-- Statements were built one after the other, unattached or given to an owner, whose statement is
named as it is afterwards. -/
structure Gained (t : Tree) (into : Option (StmtId × Stmt)) (os : List Outline) (t' : Tree) :
    Prop where
  size : t'.slots.size = t.slots.size + total os
  kept : ∀ x, t.contains x → (∀ o ∈ into, o.1 ≠ x) → t'.get? x = t.get? x
  given : ∀ o ∈ into, ∃ node, t.get? o.1 = some node ∧ t'.get? o.1 = some { node with stmt := o.2 }
  parents : ∀ x ∈ numbers t.slots.size os, t'.parent? x = into.map (·.1)
  heads : (numbers t.slots.size os).map t'.line? = os.map fun o => some o.head
  shown : Shows t t' (numbers t.slots.size os) (linesAll os)

namespace Gained

theorem nil (t : Tree) : t.Gained none [] t where
  size := rfl
  kept := fun _ _ _ => rfl
  given := by simp
  parents := by simp [numbers]
  heads := rfl
  shown := .nil

/-- Nothing has been given to an owner, which says what it said before. -/
theorem nothing {node : Node} (found : t.get? owner = some node) :
    t.Gained (some (owner, node.stmt)) [] t where
  size := rfl
  kept := fun _ _ _ => rfl
  given := by simp [found]
  parents := by simp [numbers]
  heads := rfl
  shown := .nil

/-- Nothing but the names at the level of the owner has changed. -/
theorem rescoped {node : Node} (found : t.get? owner = some node) (h : t.Rescoped owner t') :
    ∃ f, t.Gained (some (owner, node.stmt.mapScope f)) [] t' := by
  obtain ⟨f, nodes⟩ := h.get?
  refine ⟨f, h.size, ?_, ?_, by simp [numbers], rfl, .nil⟩
  · intro x _ apart
    rw [nodes, if_neg (apart _ rfl)]
  · rintro _ ⟨⟩
    exact ⟨node, found, by rw [nodes, if_pos rfl, found, Option.map_some]⟩

section
variable {into into' : Option (StmtId × Stmt)} (h : t.Gained into os t₁)
include h

theorem contains (live : t.contains x) : t₁.contains x := by
  by_cases owner : ∀ o ∈ into, o.1 ≠ x
  · rw [Tree.contains, h.kept x live owner]
    exact live
  · push Not at owner
    obtain ⟨o, given, rfl⟩ := owner
    obtain ⟨node, -, found⟩ := h.given o given
    rw [Tree.contains, found]
    rfl

theorem fresh (member : id ∈ numbers t.slots.size os) : t₁.contains id ∧ t.contains id = false :=
  h.shown.fresh member

theorem trans (later : t₁.Gained into' os' t₂) (same : into'.map (·.1) = into.map (·.1)) :
    t.Gained into' (os ++ os') t₂ := by
  have before : ∀ o ∈ into', ∃ s, (o.1, s) ∈ into := by
    intro o given
    have inside : o.1 ∈ into.map (·.1) := same ▸ Option.mem_map_of_mem _ given
    obtain ⟨⟨_, s⟩, given', rfl⟩ := Option.map_eq_some_iff.mp inside
    exact ⟨s, given'⟩
  -- What the first part has built is not the owner, and so the second part keeps it.
  have kept (x : StmtId) (live : t₁.contains x) (fresh : t.contains x = false) :
      t₂.get? x = t₁.get? x := by
    apply later.kept x live
    rintro o given rfl
    obtain ⟨s, given'⟩ := before o given
    obtain ⟨node, found, -⟩ := h.given _ given'
    simp [Tree.contains, found] at fresh
  have both : numbers t.slots.size (os ++ os') =
      numbers t.slots.size os ++ numbers t₁.slots.size os' := by
    rw [numbers_append, h.size]
  constructor
  case size => rw [later.size, h.size, total_append, Nat.add_assoc]
  case kept =>
    intro x live apart
    rw [later.kept x (h.contains live) apart, h.kept x live]
    intro o given
    have inside : o.1 ∈ into'.map (·.1) := same ▸ Option.mem_map_of_mem _ given
    obtain ⟨o', given', equal⟩ := Option.map_eq_some_iff.mp inside
    exact equal ▸ apart o' given'
  case given =>
    intro o given
    obtain ⟨s, given'⟩ := before o given
    obtain ⟨node, found, then_⟩ := h.given _ given'
    obtain ⟨node', found', last⟩ := later.given o given
    cases Option.some.inj (then_.symm.trans found')
    exact ⟨node, found, last⟩
  case parents =>
    rw [both]
    refine List.forall_mem_append.mpr ⟨fun x member => ?_, later.parents⟩
    obtain ⟨live, fresh⟩ := h.fresh member
    rw [parent?, kept x live fresh, ← parent?, h.parents x member, same]
  case heads =>
    rw [both, List.map_append, List.map_append, later.heads, ← h.heads]
    apply congrArg (· ++ _)
    apply List.map_congr_left
    intro x member
    obtain ⟨live, fresh⟩ := h.fresh member
    rw [line?, kept x live fresh, ← line?]
  case shown =>
    rw [both, linesAll_append]
    exact (h.shown.mono fun x live fresh => said?_of_get? (kept x live fresh)).append
      (later.shown.earlier fun x => h.contains)

end

/-- What was built is given to an owner. -/
theorem give {o : Outline} {f : Stmt → Stmt} {node : Node} (h : t.Gained none [o] t₁)
    (found : t.get? owner = some node) : t.Gained (some (owner, f node.stmt)) [o]
      (t₁.give owner (o.number t.slots.size) f) := by
  have only : numbers t.slots.size [o] = [o.number t.slots.size] := rfl
  obtain ⟨live, fresh⟩ := h.fresh (only ▸ List.mem_singleton_self _)
  have there : t.contains owner := by simp [Tree.contains, found]
  have apart : o.number t.slots.size ≠ owner := by
    rintro rfl
    simp [there] at fresh
  have old {x : StmtId} (live : t.contains x) : t₁.get? x = t.get? x := h.kept x live (by simp)
  have said (x : StmtId) (differs : owner ≠ x) :
      (t₁.give owner (o.number t.slots.size) f).said? x = t₁.said? x := by
    rw [said?, get?_give apart, if_neg differs, said?]
    split <;> simp [Function.comp_def]
  constructor
  case size => rw [slots_size_give, h.size]
  case kept =>
    intro x live differs
    have new : o.number t.slots.size ≠ x := by
      rintro rfl
      simp [fresh] at live
    rw [get?_give apart, if_neg new, if_neg (differs _ rfl), old live]
  case given =>
    rintro _ ⟨⟩
    exact ⟨node, found, by rw [get?_give apart, if_neg apart, if_pos rfl, old there, found]; rfl⟩
  case parents =>
    rw [only]
    intro x member
    rw [List.mem_singleton.mp member, parent?_give live, if_pos rfl]
    rfl
  case heads =>
    rw [only, List.map_singleton, line?_of_said? (said _ (Ne.symm apart)), ← h.heads, only]
    rfl
  case shown =>
    apply h.shown.mono
    intro x _ new
    apply said
    rintro rfl
    simp [there] at new

/-! Making a statement around what was built for its header. -/

section
variable (h : t.Gained none os t₁)
include h

theorem get?_old (live : t.contains x) : t₁.get? x = t.get? x := h.kept x live (by simp)

/-- The statements of a header are free, and none is an entry of an if-chain. -/
theorem addable (root : t.contains root) (plain : ∀ o ∈ os, o.Plain)
    (owned : s.owned = numbers t.slots.size os) (elifs : s.elifs = []) (last : s.last? = none) :
    t₁.Addable s := by
  have kinds (c : StmtId) (member : c ∈ s.owned) :
      t₁.kind? c ≠ some .elif ∧ t₁.kind? c ≠ some .otherwise := by
    have inside : t₁.line? c ∈ (numbers t.slots.size os).map t₁.line? :=
      List.mem_map_of_mem (owned ▸ member)
    rw [h.heads] at inside
    obtain ⟨o, at_, line⟩ := List.mem_map.mp inside
    obtain ⟨node, found, same⟩ := Option.map_eq_some_iff.mp line.symm
    have kind : t₁.kind? c = some o.head.1.kind := by
      rw [kind?, found, ← same, Option.map_some, Stmt.shape]
    have := plain o at_
    rw [Outline.Plain, StmtKind.isChainEntry] at this
    rw [kind]
    simpa using this
  constructor
  case live => exact fun c member => (h.fresh (owned ▸ member)).1
  case not_root =>
    intro member
    simp [(h.fresh (owned ▸ member)).2] at root
  case free => exact fun c member => h.parents c (owned ▸ member)
  case nodup => exact owned ▸ numbers_nodup _ _
  case elif_iff => exact fun c member => by simp [elifs, (kinds c member).1]
  case otherwise_iff => exact fun c member => by simp [last, (kinds c member).2]

end

end Gained

/-- A statement was made around what was built for its header. An entry of an if-chain was given to
its conditional at once. -/
structure Begun (t : Tree) (s : Stmt) (span : Span) (into : Option (StmtId × Stmt)) (t' : Tree) :
    Prop where
  size : t'.slots.size = t.slots.size + 1
  made : t'.get? t.nextId = some { parent := into.map (·.1), span, stmt := s }
  kept : ∀ x, t.contains x → x ∉ s.owned → (∀ o ∈ into, o.1 ≠ x) → t'.get? x = t.get? x
  given : ∀ o ∈ into, ∃ node, t.get? o.1 = some node ∧ t'.get? o.1 = some { node with stmt := o.2 }
  said : ∀ x, t.contains x → (∀ o ∈ into, o.1 ≠ x) → t'.said? x = t.said? x

namespace Begun

theorem extended (t : Tree) (s : Stmt) (span : Span) : t.Begun s span none (t.extended s span) := by
  have apart {x : StmtId} (live : t.contains x) : x ≠ t.nextId := by
    rintro rfl
    simp [not_contains_nextId] at live
  constructor
  case size => exact slots_size_extended
  case made => rw [get?_extended, if_pos rfl, Option.map_none]
  case kept =>
    intro x live outside _
    rw [get?_extended, if_neg (apart live), if_neg outside]
  case given => simp
  case said =>
    intro x live _
    rw [said?, get?_extended, if_neg (apart live), said?]
    split <;> simp [Function.comp_def]

theorem give {f : Stmt → Stmt} {node : Node} (h : t.Begun s span none t₁)
    (found : t.get? owner = some node) (outside : owner ∉ s.owned) :
    t.Begun s span (some (owner, f node.stmt)) (t₁.give owner t.nextId f) := by
  have there : t.contains owner := by simp [contains, found]
  have apart : t.nextId ≠ owner := by
    rintro rfl
    simp [not_contains_nextId] at there
  have new {x : StmtId} (live : t.contains x) : t.nextId ≠ x := by
    rintro rfl
    simp [not_contains_nextId] at live
  constructor
  case size => rw [slots_size_give, h.size]
  case made =>
    rw [get?_give apart, if_pos rfl, h.made]
    rfl
  case kept =>
    intro x live unowned differs
    rw [get?_give apart, if_neg (new live), if_neg (differs _ rfl),
      h.kept x live unowned (by simp)]
  case given =>
    rintro _ ⟨⟩
    refine ⟨node, found, ?_⟩
    rw [get?_give apart, if_neg apart, if_pos rfl, h.kept owner there outside (by simp), found]
    rfl
  case said =>
    intro x live differs
    rw [said?, get?_give apart, if_neg (new live), if_neg (differs _ rfl), ← said?,
      h.said x live (by simp)]

theorem contains {into : Option (StmtId × Stmt)} (h : t.Begun s span into t')
    (live : t.contains x) : t'.contains x := by
  by_cases owner : ∀ o ∈ into, o.1 ≠ x
  · rw [contains_eq, stmt?_of_said? (h.said x live owner), ← contains_eq]
    exact live
  · push Not at owner
    obtain ⟨o, given, rfl⟩ := owner
    obtain ⟨node, -, found⟩ := h.given o given
    simp [Tree.contains, found]

end Begun

/-- When its children and entries have been given to it, the statement is built. -/
theorem Gained.node {into : Option (StmtId × Stmt)} (init : List Outline)
    {header children entries : List Outline}
    (h : t.Gained none (init ++ header) t₁) (begun : t₁.Begun s span into t₂)
    (filled : t₂.Gained (some (t₁.nextId, s')) (children ++ entries) t₃)
    (owned : s.owned = numbers t.slots.size (init ++ header))
    (all : s'.owned = s.owned ++ numbers t₂.slots.size (children ++ entries))
    (old : ∀ o ∈ into, t.contains o.1) :
    t.Gained into [.node s'.shape span init header children entries] t₃ := by
  have number : (Outline.node s'.shape span init header children entries).number t.slots.size =
      t₁.nextId := by
    rw [Outline.number, nextId, h.size, total_append, Nat.add_assoc]
  have only : numbers t.slots.size [.node s'.shape span init header children entries] =
      [t₁.nextId] := by rw [numbers, number, numbers]
  have before {x : StmtId} (live : t.contains x) : t₁.get? x = t.get? x := h.get?_old live
  have unowned {x : StmtId} (live : t.contains x) : x ∉ s.owned := by
    intro member
    simp [(h.fresh (owned ▸ member)).2] at live
  have new {x : StmtId} (live : t₁.contains x) : t₁.nextId ≠ x := by
    rintro rfl
    simp [not_contains_nextId] at live
  have later {x : StmtId} (live : t₂.contains x) (differs : t₁.nextId ≠ x) :
      t₃.get? x = t₂.get? x := filled.kept x live (by rintro _ ⟨⟩; exact differs)
  have made : t₃.get? t₁.nextId = some { parent := into.map (·.1), span, stmt := s' } := by
    obtain ⟨node, found, full⟩ := filled.given _ rfl
    cases Option.some.inj (begun.made.symm.trans found)
    exact full
  -- What stands in the header says the same to the end, and so does nothing else that is new.
  have said (x : StmtId) (live : t₁.contains x) (fresh : t.contains x = false) :
      t₃.said? x = t₁.said? x := by
    have same : t₂.said? x = t₁.said? x := by
      apply begun.said x live
      rintro o given rfl
      simp [old o given] at fresh
    rw [said?_of_get? (later (begun.contains live) (new live)), same]
  have gone : t.contains t₁.nextId = false := by
    apply Bool.eq_false_iff.mpr
    intro live
    exact new (h.contains live) rfl
  constructor
  case size =>
    rw [filled.size, begun.size, h.size, total_node, total_append, total_append]
    omega
  case kept =>
    intro x live apart
    have there := h.contains live
    rw [later (begun.contains there) (new there), begun.kept x there (unowned live) apart,
      before live]
  case given =>
    intro o given
    obtain ⟨node, found, then_⟩ := begun.given o given
    have there := h.contains (old o given)
    have kept := later (begun.contains there) (new there)
    exact ⟨node, (before (old o given)).symm.trans found, kept.trans then_⟩
  case parents =>
    rw [only]
    intro x member
    rw [List.mem_singleton.mp member, parent?_of_get? made]
  case heads =>
    rw [only, List.map_singleton, line?, made]
    rfl
  case shown =>
    have earlier := filled.shown.earlier fun x live => begun.contains (h.contains (x := x) live)
    have inside := (h.shown.mono said).append earlier
    rw [only, linesAll, linesAll, List.append_nil, lines]
    apply Shows.node _ gone
    · rw [line?, made, Option.map_some]
    · rw [owned_of_stmt? (stmt?_of_get? made), all, owned]
    · simpa only [linesAll_append, List.append_assoc] using inside

/-- Nothing that was there before lies around a statement that was not, so that can be given to
what was there. -/
theorem attachable_of_kept (h : t.Rooted) (h' : t'.Rooted)
    (kept : ∀ x, t.contains x → t'.get? x = t.get? x) (there : t.contains owner)
    (fresh : t.contains child = false) (live : t'.contains child) (free : t'.parent? child = none) :
    t'.Attachable owner child := by
  have still {x : StmtId} (old : t.contains x) : t'.contains x := by
    rw [contains, kept x old]
    exact old
  have around {y : StmtId} (within : t'.Within owner y) : t.contains y := by
    induction within with
    | refl => exact there
    | tail _ owned ih =>
      rw [parent?, kept _ ih, ← parent?] at owned
      exact h.contains_owner owned
  refine ⟨still there, live, ?_, free, Bool.eq_false_iff.mpr fun inside => ?_⟩
  · rintro rfl
    simp [h.contains_root] at fresh
  · have := around ((h'.isWithin_iff (still there)).mp inside)
    simp [fresh] at this

namespace Gained
variable {o : Outline}

theorem single {into : Option (StmtId × Stmt)} (h : t.Gained into [o] t₁) :
    t₁.contains (o.number t.slots.size) ∧ t.contains (o.number t.slots.size) = false ∧
      t₁.parent? (o.number t.slots.size) = into.map (·.1) ∧
      t₁.line? (o.number t.slots.size) = some o.head := by
  have only : numbers t.slots.size [o] = [o.number t.slots.size] := rfl
  have member : o.number t.slots.size ∈ numbers t.slots.size [o] :=
    only ▸ List.mem_singleton_self _
  obtain ⟨live, fresh⟩ := h.fresh member
  exact ⟨live, fresh, h.parents _ member, List.singleton_inj.mp h.heads⟩

variable (h : t.Gained none [o] t₁)
include h

theorem isChainEntry_eq_false (plain : o.Plain) :
    t₁.isChainEntry (o.number t.slots.size) = false := by
  obtain ⟨node, found, line⟩ := Option.map_eq_some_iff.mp h.single.2.2.2
  rw [isChainEntry, Tree.kind?, found, Option.map_some, Option.any_some]
  rw [Outline.Plain, ← line] at plain
  exact plain

theorem attachable (rooted : t.Rooted) (rooted' : t₁.Rooted) (there : t.contains owner) :
    t₁.Attachable owner (o.number t.slots.size) := by
  obtain ⟨live, fresh, free, -⟩ := h.single
  exact attachable_of_kept rooted rooted' (fun x => h.get?_old) there fresh live free

end Gained

end Tree
end KernelTree
