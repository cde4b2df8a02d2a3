import KernelTree.Proofs.Description
import KernelTree.Proofs.Description.Raising
import KernelTree.Proofs.Tree.Isomorphism
/-! Building a tree from a description. By recursion over it, each statement is built as its
outline says, or the first clash of names is reported. -/
namespace KernelTree

open KernelTree.Tree Outline
open Stmt (Role)

namespace Stmt

/-- The statement with more children and with other names at its level. -/
def fill (ids : List StmtId) (scope : Scope) : Stmt → Stmt :=
  mapBody fun b => { children := b.children ++ ids, scope }

variable {s : Stmt} {id : StmtId} {ids ids' : List StmtId} {scope scope' : Scope}

theorem exists_fill_nil (s : Stmt) : ∃ scope, s.fill [] scope = s := by
  refine ⟨s.scope?.getD .empty, ?_⟩
  cases s <;> simp [fill, mapBody, scope?, body?]

theorem exists_fill_addChild (id : StmtId) (f : Scope → Scope) (s : Stmt) :
    ∃ scope, (s.addChild id).mapScope f = s.fill [id] scope := by
  refine ⟨f (s.scope?.getD .empty), ?_⟩
  cases s <;> rfl

theorem fill_fill : (s.fill ids scope).fill ids' scope' = s.fill (ids ++ ids') scope' := by
  cases s <;> simp [fill, mapBody]

theorem isContainer_of_empty (empty : s.body? = some .empty) : s.kind.isContainer := by
  rw [← isSome_body?, empty, Option.isSome_some]

theorem owned_fill (empty : s.body? = some .empty) (elifs : s.elifs = []) (last : s.last? = none) :
    (s.fill ids scope).owned = s.owned ++ ids := by
  cases s <;> simp_all [body?, Block.empty, Stmt.elifs, Stmt.last?, fill, mapBody, owned, slots,
    children]

theorem places_fill (empty : s.body? = some .empty) (elifs : s.elifs = [])
    (last : s.last? = none) : (s.fill ids scope).places = s.places ++ ids.map (.child, ·) := by
  cases s <;> simp_all [body?, Block.empty, Stmt.elifs, Stmt.last?, fill, mapBody, places, children]

/-- A statement whose block was empty has places for what it was filled with. -/
theorem shape_fill (empty : s.body? = some .empty) (elifs : s.elifs = []) (last : s.last? = none) :
    (s.fill ids scope).shape = s.shape.fill ids := by
  rw [shape, places_fill empty elifs last, List.map_append, Role.map_fst_each, fill, kind_mapBody,
    content_mapBody, Shape.fill, shape]

theorem fill_mapScope (f : Scope → Scope) : (s.mapScope f).fill ids scope = s.fill ids scope := by
  cases s <;> rfl

theorem shape_conditional {condition : StmtId} {b : Block} {elifs : List StmtId}
    {last : Option StmtId} : (conditional condition b elifs last).shape =
      { kind := .conditional
        roles := .condition :: (Role.child.each b.children ++ Role.elif.each elifs ++
          Role.otherwise.each last.toList) } := by
  simp only [shape, places, List.map_cons, List.map_append, Role.map_fst_each]
  rfl

theorem fill_shape_forLoop {α : Type} {init test update : Option StmtId} {held : List α} :
    (forLoop init test update .empty).shape.fill held =
      { kind := .forLoop
        roles := Role.init.each init.toList ++ Role.test.each test.toList ++
          Role.update.each update.toList ++ Role.child.each held } := by
  simp only [Shape.fill, shape, places, List.map_append, Role.map_fst_each, Block.empty,
    List.map_nil, List.append_nil]
  rfl

@[simp] theorem kind_fill : (s.fill ids scope).kind = s.kind := kind_mapBody _ s

theorem level_addChild (container : s.kind.isContainer) :
    (s.addChild id).level = s.level ++ [id] := by
  cases s <;> simp [StmtKind.isContainer, kind] at container <;>
    simp [level, init?, addChild, mapBody, children, body?]

theorem declared_addChild : (s.addChild id).declared = s.declared := by cases s <;> rfl

theorem declared_receive {k : StmtKind} (entry : k.isChainEntry) :
    (receive k id s).declared = s.declared := by
  cases k <;> simp [StmtKind.isChainEntry] at entry <;> cases s <;> rfl

theorem level_receive {k : StmtKind} (entry : k.isChainEntry) :
    (receive k id s).level = s.level := by
  cases k <;> simp [StmtKind.isChainEntry] at entry <;> cases s <;> rfl

/-- A statement that holds nothing yet but what stands in its header. -/
structure Opens (s : Stmt) (ids : List StmtId) : Prop where
  bare : s.Bare
  owned : s.owned = ids
  elifs : s.elifs = []
  last? : s.last? = none

end Stmt

theorem each_numbers {base : Nat} {os : List Outline} (role : Stmt.Role) :
    role.each (numbers base os) = role.each os :=
  role.each_eq_of_length_eq length_numbers

theorem fill_numbers {base : Nat} {os : List Outline} (p : Stmt.Shape) :
    p.fill (numbers base os) = p.fill os := by
  rw [Stmt.Shape.fill, each_numbers, Stmt.Shape.fill]

namespace Build

variable {t t' t₁ t₂ t₃ : Tree} {c id owner : StmtId} {span : Span} {bs bs' : List Binding}
  {o : Outline} {os : List Outline} {s : Stmt} {node : Node}

/-! Steps. -/

/-- The names of a statement are declared at the level where they belong. -/
theorem names_yields {base : Nat} (span : Span) (growing : t.Growing bs)
    (found : t.get? c = some node) (container : node.stmt.kind.isContainer)
    (owned : t.parent? (o.number base) = some c)
    (head : t.line? (o.number base) = some o.head) (others : ∀ x, c ≠ x → t.NamesAt x)
    (inside : o.number base ∈ node.stmt.level)
    (here : ∀ name x, t.named? c name = some x ↔
      x ∈ node.stmt.level ∧ x ≠ o.number base ∧ t.Declares x name) :
    Yields (declareNames c (o.number base) span) t (bs ++ o.bound c base span) fun _ t' =>
      t'.Complete (bs ++ o.bound c base span) ∧
        ∃ f, t.Gained (some (c, node.stmt.mapScope f)) [] t' := by
  obtain ⟨child, there, line⟩ := Option.map_eq_some_iff.mp head
  have stated : t.stmt? (o.number base) = some child.stmt := stmt?_of_get? there
  have declared : child.stmt.declared = o.names := by
    rw [← o.names_head, ← line, Stmt.shape, Stmt.names_content]
  have kind : t.kind? c = some node.stmt.kind := kind?_of_stmt? (stmt?_of_get? found)
  have all := declareNames_yields span growing stated kind container owned
  rw [declared] at all
  apply all.mono
  rintro - t' ⟨growing', rescoped⟩
  refine ⟨⟨growing', ?_⟩, Gained.rescoped found rescoped⟩
  apply namesAt_of_declared growing.toLinked growing growing' rescoped _ others
  · intro s found'
    cases Option.some.inj ((stmt?_of_get? found).symm.trans found')
    exact ⟨inside, here⟩
  · intro name
    rw [← declared]
    constructor
    · rintro ⟨s, stated', member⟩
      cases Option.some.inj (stated.symm.trans stated')
      exact member
    · exact fun member => ⟨_, stated, member⟩

/-- When a child has been given to its container, the names there are those of the others. -/
theorem names_of_appended (complete : t.Complete bs) (fits : t.Attachable owner id)
    (found : t.stmt? owner = some s) (container : s.kind.isContainer) (name : String)
    (x : StmtId) : (t.give owner id (·.addChild id)).named? owner name = some x ↔
      x ∈ (s.addChild id).level ∧ x ≠ id ∧
        (t.give owner id (·.addChild id)).Declares x name := by
  have changed : t.Changed (t.give owner id (·.addChild id)) owner (s.addChild id) :=
    stmt?_give found
  have unlisted : id ∉ s.level := fun member => by
    have owned := s.level_subset member
    rw [← owned_of_stmt? found, complete.mem_owned_iff, fits.free] at owned
    cases owned
  have declares : (t.give owner id (·.addChild id)).Declares x name ↔ t.Declares x name := by
    apply declares_congr
    rw [changed]
    split
    next here => rw [← here, found, Option.map_some, Option.map_some, Stmt.declared_addChild]
    next => rfl
  have same : (t.give owner id (·.addChild id)).named? owner name = t.named? owner name := by
    rw [named?_eq, changed, if_pos rfl, Option.bind_some, Stmt.scope?_addChild, named?_eq, found,
      Option.bind_some]
  rw [same, complete.names owner s found, declares, Stmt.level_addChild container, List.mem_append,
    List.mem_singleton]
  by_cases new : x = id
  · subst new
    simp [unlisted]
  · simp [new]

/-- A container with an empty block and with one statement at its level has none of its names. -/
theorem names_of_bare (found : t.stmt? c = some s) (bare : s.Bare) (only : s.level = [id])
    (name : String) (x : StmtId) :
    t.named? c name = some x ↔ x ∈ s.level ∧ x ≠ id ∧ t.Declares x name := by
  rw [named?_of_bare found bare, only, List.mem_singleton]
  constructor
  · intro named
    cases named
  · rintro ⟨here, other, -⟩
    exact absurd here other

/-- What was built becomes a child of a container, where its names are declared. -/
theorem child_yields {next : BuildM α} {post : α → Tree → Prop} (rooted : t.Rooted)
    (h : t.Gained none [o] t₁) (complete : t₁.Complete bs) (plain : o.Plain)
    (found : t.get? owner = some node) (container : node.stmt.kind.isContainer)
    (longer : bs ++ o.bound owner t.slots.size span <+: bs')
    (later : ∀ t₂ f, t₂.Complete (bs ++ o.bound owner t.slots.size span) →
      t.Gained (some (owner, (node.stmt.addChild (o.number t.slots.size)).mapScope f)) [o] t₂ →
      Yields next t₂ bs' post) :
    Yields (do
      onBehalf span (Tree.append owner (o.number t.slots.size))
      declareNames owner (o.number t.slots.size) span
      next) t₁ bs' post := by
  have there : t.contains owner := by simp [contains, found]
  have stmt : t₁.stmt? owner = some node.stmt := by
    rw [stmt?, h.get?_old there, found, Option.map_some]
  have entry := h.isChainEntry_eq_false plain
  have fits := h.attachable rooted complete.toRooted there
  have run : onBehalf span (Tree.append owner (o.number t.slots.size)) t₁ =
      .ok () (t₁.give owner (o.number t.slots.size) (·.addChild (o.number t.slots.size))) := by
    apply onBehalf_ok
    rw [append_run, checkAppend_ok_iff.mpr ⟨⟨_, kind?_of_stmt? stmt, container⟩, entry, fits⟩]
  have given := h.give (f := (·.addChild (o.number t.slots.size))) found
  obtain ⟨-, -, owned, head⟩ := given.single
  obtain ⟨owning, -, found'⟩ := given.given _ rfl
  apply Yields.step run
  have growing := complete.toGrowing.give fits stmt (gains_addChild container entry)
  apply (names_yields span growing found'
    ((Stmt.kind_addChild ..).symm ▸ container) owned head ?_ ?_
    (names_of_appended complete fits stmt container)).bind longer
  · rintro - t₂ ⟨complete', f, rescoped⟩
    exact later t₂ f complete' (by simpa using given.trans rescoped rfl)
  · intro x apart
    exact namesAt_give complete.toLinked (complete.names x) stmt Stmt.declared_addChild
      fun same => absurd same apart
  · simp [Stmt.level_addChild container]

/-- The statement `c`, which says `s` in `t`, has been filled with what is outlined, and named. -/
structure Filled (t : Tree) (c : StmtId) (s : Stmt) (shape : Stmt.Shape) (os : List Outline)
    (bs : List Binding) (id : StmtId) (t' : Tree) : Prop where
  complete : t'.Complete bs
  gained : ∃ s', s'.shape = shape ∧ s'.owned = s.owned ++ numbers t.slots.size os ∧
    t.Gained (some (c, s')) os t'
  named : id = c

/-- A statement is made around its header and then filled. -/
theorem made_yields {shape : Stmt.Shape} (init header children entries : List Outline)
    {next : StmtId → BuildM StmtId} (rooted : t.Rooted) (growing : t₁.Growing bs)
    (h : t.Gained none (init ++ header) t₁) (plain : ∀ o ∈ init ++ header, o.Plain)
    (opens : s.Opens (numbers t.slots.size (init ++ header)))
    (later : t₁.Addable s → (t₁.extended s span).Growing bs →
      Yields (next t₁.nextId) (t₁.extended s span) bs'
        (Filled (t₁.extended s span) t₁.nextId s shape (children ++ entries) bs')) :
    Yields (Build.add s span >>= next) t₁ bs' fun id t₂ =>
      t₂.Complete bs' ∧ t.Gained none [.node shape span init header children entries] t₂ ∧
        id = (Outline.node shape span init header children entries).number t.slots.size := by
  have fits : t₁.Addable s :=
    h.addable rooted.contains_root plain opens.owned opens.elifs opens.last?
  apply Yields.step (add_ok fits)
  apply (later fits (growing.extended opens.bare fits)).mono
  rintro id t₂ ⟨complete, ⟨s', rfl, owned, filled⟩, rfl⟩
  refine ⟨complete, h.node init (.extended t₁ s span) filled opens.owned owned (by simp), ?_⟩
  rw [Outline.number, nextId, h.size, total_append, Nat.add_assoc]

/-- A described statement is built as its outline says, or the first clash of names is reported. -/
def Makes (m : BuildM StmtId) (o : Outline) : Prop :=
  ∀ (t : Tree) (bs : List Binding), t.Complete bs →
    Yields m t (bs ++ o.bindings t.slots.size) fun id t' =>
      t'.Complete (bs ++ o.bindings t.slots.size) ∧ t.Gained none [o] t' ∧
        id = o.number t.slots.size

/-- Described statements are built and become the children of a container, with their names at its
level, or the first clash of names is reported. -/
def Fills (fill : StmtId → BuildM Unit) (os : List Outline) : Prop :=
  ∀ (t : Tree) (bs : List Binding) (owner : StmtId) (node : Node), t.Complete bs →
    t.get? owner = some node → node.stmt.kind.isContainer →
    Yields (fill owner) t (bs ++ childBindings owner t.slots.size os) fun _ t' =>
      t'.Complete (bs ++ childBindings owner t.slots.size os) ∧
        ∃ scope, t.Gained (some (owner, node.stmt.fill (numbers t.slots.size os) scope)) os t'

/-- A container that was made empty is filled. The names at its level may have been declared in part
by then. -/
theorem filled_yields {s₁ : Stmt} {fill : StmtId → BuildM Unit} (fills : Fills fill os)
    (empty : s.body? = some .empty) (elifs : s.elifs = []) (last : s.last? = none)
    (complete : t₁.Complete bs) (gained : t.Gained (some (c, s₁)) [] t₁)
    (container : s₁.kind = s.kind) (same : ∀ ids scope, s₁.fill ids scope = s.fill ids scope) :
    Yields (do fill c; return c) t₁ (bs ++ childBindings c t.slots.size os)
      (Filled t c s (s.shape.fill os) (os ++ []) (bs ++ childBindings c t.slots.size os)) := by
  obtain ⟨node, -, found⟩ := gained.given _ rfl
  have filled := fills _ _ _ _ complete found (container ▸ Stmt.isContainer_of_empty empty)
  have size : t₁.slots.size = t.slots.size := gained.size
  rw [size] at filled
  apply filled.bind (List.prefix_refl _)
  rintro - t₂ ⟨complete₂, scope, gained₂⟩
  have whole := gained.trans gained₂ rfl
  rw [same, List.nil_append] at whole
  refine .pure ⟨complete₂, ⟨_, ?_, ?_, by rwa [List.append_nil]⟩, rfl⟩
  · rw [Stmt.shape_fill empty elifs last, fill_numbers]
  · rw [Stmt.owned_fill empty elifs last, List.append_nil]

theorem container_yields {shape : Stmt.Shape} {header : List Outline} {fill : StmtId → BuildM Unit}
    (fills : Fills fill os) (rooted : t.Rooted) (complete : t₁.Complete bs)
    (h : t.Gained none header t₁) (plain : ∀ o ∈ header, o.Plain)
    (opens : s.Opens (numbers t.slots.size header)) (init : s.init? = none)
    (empty : s.body? = some .empty) (full : s.shape.fill os = shape)
    (all : bs' = bs ++ childBindings t₁.nextId (t₁.slots.size + 1) os) :
    Yields (do
      let id ← Build.add s span
      fill id
      return id) t₁ bs' fun id t₂ =>
        t₂.Complete bs' ∧ t.Gained none [.node shape span [] header os []] t₂ ∧
          id = (Outline.node shape span [] header os []).number t.slots.size := by
  subst all full
  apply made_yields [] header os [] rooted complete.toGrowing h plain opens
  intro _ growing
  have begun := Begun.extended t₁ s span
  have complete' : (t₁.extended s span).Complete bs :=
    ⟨growing, namesAt_extended span complete.toLinked complete.names opens.bare init⟩
  rw [← begun.size]
  exact filled_yields fills empty opens.elifs opens.last? complete' (.nothing begun.made) rfl
    fun _ _ => rfl

/-- An entry that has just been made around its header is given to its conditional. -/
theorem entry_given {k : StmtKind} {header : List Outline} (rooted : t.Rooted)
    (complete : t₁.Complete bs) (h : t.Gained none header t₁) (fits : t₁.Addable s) (bare : s.Bare)
    (owned : s.owned = numbers t.slots.size header) (init : s.init? = none) (kind : s.kind = k)
    (entry : k.isChainEntry) (found : t.get? owner = some node) (receives : t.Receives k owner) :
    ∃ t₂, attachCopy k owner t₁.nextId (t₁.extended s span) = .ok () t₂ ∧ t₂.Complete bs ∧
      t₁.Begun s span (some (owner, receive k t₁.nextId node.stmt)) t₂ := by
  have there : t.contains owner := by simp [contains, found]
  have unowned {x : StmtId} (live : t.contains x) : x ∉ s.owned := by
    intro member
    simp [(h.fresh (owned ▸ member)).2] at live
  have begun := Begun.extended t₁ s span
  have growing : (t₁.extended s span).Growing bs := complete.toGrowing.extended bare fits
  have names := namesAt_extended span complete.toLinked complete.names bare init
  have kept (x : StmtId) (live : t.contains x) : (t₁.extended s span).get? x = t.get? x := by
    rw [begun.kept x (h.contains live) (unowned live) (by simp), h.get?_old live]
  have stmt : (t₁.extended s span).stmt? owner = some node.stmt := by
    rw [stmt?, kept owner there, found, Option.map_some]
  have made : (t₁.extended s span).stmt? t₁.nextId = some s := stmt?_of_get? begun.made
  have attachable : (t₁.extended s span).Attachable owner t₁.nextId := by
    apply attachable_of_kept rooted growing.toRooted kept there
    · apply Bool.eq_false_iff.mpr
      intro live
      simpa [not_contains_nextId] using h.contains live
    · exact contains_of_stmt? made
    · exact parent?_of_get? begun.made
  have still : (t₁.extended s span).Receives k owner := by
    rw [Receives, kind?_eq, last?, stmt]
    rw [Receives, kind?_eq, last?, stmt?_of_get? found] at receives
    exact receives
  have run := attachCopy_of_receives still (kind?_of_stmt? made ▸ congrArg some kind) attachable
  obtain ⟨e, failed⟩ | ⟨s', -, found', gains, -⟩ :=
    attachCopy_gives k owner t₁.nextId (t₁.extended s span)
  · simp [run] at failed
  cases Option.some.inj (stmt.symm.trans found')
  refine ⟨_, run, ⟨growing.give attachable stmt gains, fun x => ?_⟩, ?_⟩
  · apply namesAt_give growing.toLinked (names x) stmt
    · exact Stmt.declared_receive entry
    · exact fun _ => ⟨Stmt.level_receive entry, gains.scope?⟩
  · exact begun.give (h.get?_old there ▸ found) (unowned there)

/-- An entry of an if-chain is given to its conditional as soon as it has been made, and filled
afterwards. -/
theorem entry_yields {k : StmtKind} {shape : Stmt.Shape} {header : List Outline}
    {fill : StmtId → BuildM Unit} {next : BuildM α} {post : α → Tree → Prop}
    (fills : Fills fill os) (rooted : t.Rooted) (complete : t₁.Complete bs)
    (h : t.Gained none header t₁) (plain : ∀ o ∈ header, o.Plain)
    (opens : s.Opens (numbers t.slots.size header)) (init : s.init? = none)
    (empty : s.body? = some .empty) (full : s.shape.fill os = shape)
    (kind : s.kind = k) (entry : k.isChainEntry) (found : t.get? owner = some node)
    (receives : t.Receives k owner)
    (longer : bs ++ childBindings t₁.nextId (t₁.slots.size + 1) os <+: bs')
    (later : ∀ t₂, t₂.Complete (bs ++ childBindings t₁.nextId (t₁.slots.size + 1) os) →
      t.Gained (some (owner, receive k t₁.nextId node.stmt)) [.node shape span [] header os []] t₂ →
      Yields next t₂ bs' post) :
    Yields (do
      let id ← Build.add s span
      onBehalf span (attachCopy k owner id)
      fill id
      next) t₁ bs' post := by
  have fits : t₁.Addable s :=
    h.addable rooted.contains_root plain opens.owned opens.elifs opens.last?
  obtain ⟨t₂, run, complete₂, begun⟩ :=
    entry_given rooted complete h fits opens.bare opens.owned init kind entry found receives
  apply Yields.step (add_ok fits)
  apply Yields.step (onBehalf_ok run)
  have filled := fills _ _ _ _ complete₂ begun.made (Stmt.isContainer_of_empty empty)
  rw [begun.size] at filled
  apply filled.bind longer
  rintro - t₃ ⟨complete₃, scope, gained⟩
  have shown : (s.fill (numbers (t₁.slots.size + 1) os) scope).shape = shape := by
    rw [Stmt.shape_fill empty opens.elifs opens.last?, fill_numbers, full]
  apply later t₃ complete₃
  rw [← shown]
  apply h.node [] begun (by rwa [List.append_nil]) opens.owned
  · rw [Stmt.owned_fill empty opens.elifs opens.last?, begun.size, List.append_nil]
  · rintro _ ⟨⟩
    simp [contains, found]

/-! The recursion. What each function leaves behind is said for any tree and any names declared so
far, since the functions call each other in the middle of the construction. -/

theorem each_outlines (role : Stmt.Role) (items : List Item) :
    role.each (outlines items) = role.each items := by
  apply role.each_eq_of_length_eq
  induction items with
  | nil => rw [outlines, List.length_nil, List.length_nil]
  | cons i rest ih => rw [outlines, List.length_cons, List.length_cons, ih]

theorem each_armOutlines (role : Stmt.Role) (arms : List Arm) :
    role.each (armOutlines arms) = role.each arms := by
  apply role.each_eq_of_length_eq
  induction arms with
  | nil => rw [armOutlines, List.length_nil, List.length_nil]
  | cons arm rest ih =>
    obtain ⟨⟩ := arm
    rw [armOutlines, List.length_cons, List.length_cons, ih]

theorem each_partOutlines (role : Stmt.Role) (i : Option Item) :
    role.each (partOutlines i) = role.each i.toList := by
  cases i <;> rw [partOutlines] <;> rfl

theorem each_lastOutlines (role : Stmt.Role) (span : Span) (last : Option (List Item)) :
    role.each (lastOutlines span last) = role.each last.toList := by
  cases last <;> rw [lastOutlines] <;> rfl

/-- The statement that is made for a leaf says what the leaf says. -/
theorem shape_toStmt (span : Span) (leaf : Leaf) : (leaf.toStmt span).shape = leaf.shape span := by
  cases leaf <;> rfl

theorem plain_outline (i : Item) : i.outline.Plain := by
  cases i
  case leaf span leaf => cases leaf <;> rfl
  all_goals
    rw [Item.outline]
    rfl

theorem plain_partOutlines (i : Option Item) : ∀ o ∈ partOutlines i, o.Plain := by
  cases i with
  | none => simp [partOutlines]
  | some i => simpa [partOutlines] using plain_outline i

theorem span_outline (i : Item) : i.outline.span = i.span := by
  cases i
  all_goals
    rw [Item.outline]
    rfl

theorem bindings_container {shape : Stmt.Shape} {base : Nat} {header entries : List Outline} :
    (Outline.node shape span [] header os entries).bindings base = bindingsAll base header ++
      childBindings ⟨base + total header⟩ (base + total header + 1) os ++
        bindingsAll (base + total header + 1 + total os) entries := by
  simp [bindings, bindingsAll, boundAll]

/-- A container without a header. -/
theorem makes_of_fills {fill : StmtId → BuildM Unit} (fills : Fills fill os)
    (empty : s.body? = some .empty) (owned : s.owned = []) (entries : s.elifs = [] ∧ s.last? = none)
    (init : s.init? = none) : Makes (do
      let id ← Build.add s span
      fill id
      return id) (.node (s.shape.fill os) span [] [] os []) := by
  intro t bs complete
  apply container_yields fills complete.toRooted complete (.nil t) (by simp)
    ⟨bare_of_empty empty, owned, entries.1, entries.2⟩ init empty rfl
  simp [bindings, bindingsAll, boundAll, nextId]

/-- A container behind its condition. -/
theorem makes_of_condition {test : BuildM StmtId} {stmt : StmtId → Stmt} {shape : Stmt.Shape}
    {fill : StmtId → BuildM Unit} (condition : Makes test o) (plain : o.Plain)
    (fills : Fills fill os) (empty : ∀ id, (stmt id).body? = some .empty)
    (owned : ∀ id, (stmt id).owned = [id])
    (entries : ∀ id, (stmt id).elifs = [] ∧ (stmt id).last? = none)
    (init : ∀ id, (stmt id).init? = none)
    (full : ∀ id, (stmt id).shape.fill os = shape) : Makes (do
      let id ← test
      let id ← Build.add (stmt id) span
      fill id
      return id) (.node shape span [] [o] os []) := by
  intro t bs complete
  apply (condition t bs complete).bind
  · simp [bindings, bindingsAll, boundAll]
  · rintro id t₁ ⟨complete₁, h, rfl⟩
    apply container_yields fills complete.toRooted complete₁ h (by simpa using plain)
      ⟨bare_of_empty (empty _), owned _, (entries _).1, (entries _).2⟩ (init _) (empty _) (full _)
    simp [bindings, bindingsAll, boundAll, nextId, h.size]

/-- Further entries of an if-chain without a last one are built. -/
def Enters (enter : StmtId → BuildM Unit) (os : List Outline) : Prop :=
  ∀ (t : Tree) (bs : List Binding) (owner : StmtId) (node : Node) (condition : StmtId)
    (body : Block) (elifs : List StmtId), t.Complete bs → t.get? owner = some node →
    node.stmt = .conditional condition body elifs none →
    Yields (enter owner) t (bs ++ bindingsAll t.slots.size os) fun _ t' =>
      t'.Complete (bs ++ bindingsAll t.slots.size os) ∧ t.Gained (some (owner,
        .conditional condition body (elifs ++ numbers t.slots.size os) none)) os t'

/-- The last entry of an if-chain is built, if there is one. -/
def Closes (close : StmtId → BuildM Unit) (os : List Outline) : Prop :=
  ∀ (t : Tree) (bs : List Binding) (owner : StmtId) (node : Node) (condition : StmtId)
    (body : Block) (elifs : List StmtId), t.Complete bs → t.get? owner = some node →
    node.stmt = .conditional condition body elifs none →
    Yields (close owner) t (bs ++ bindingsAll t.slots.size os) fun _ t' =>
      t'.Complete (bs ++ bindingsAll t.slots.size os) ∧
        ∃ entry : Option StmtId, entry.toList = numbers t.slots.size os ∧
          t.Gained (some (owner, .conditional condition body elifs entry)) os t'

/-- A part of the header of a loop is built, if there is one. -/
def Offers (offer : BuildM (Option StmtId)) (os : List Outline) : Prop :=
  ∀ (t : Tree) (bs : List Binding), t.Complete bs →
    Yields offer t (bs ++ bindingsAll t.slots.size os) fun entry t' =>
      t'.Complete (bs ++ bindingsAll t.slots.size os) ∧ t.Gained none os t' ∧
        entry.toList = numbers t.slots.size os

theorem listed_cases {entry : Option StmtId} {base : Nat}
    (listed : entry.toList = numbers base os) :
    os = [] ∧ entry = none ∨ ∃ o, os = [o] ∧ entry = some (o.number base) := by
  rcases entry with _ | id <;> rcases os with _ | ⟨o, _ | ⟨o', rest⟩⟩ <;> simp_all [numbers]

theorem each_of_listed {entry : Option StmtId} {base : Nat} (role : Stmt.Role)
    (listed : entry.toList = numbers base os) : role.each entry.toList = role.each os := by
  rw [listed, each_numbers]

/-- A conditional: its condition, its children and the entries of its chain. -/
theorem makes_of_chain {test : BuildM StmtId} {fill enter close : StmtId → BuildM Unit}
    {elifs lasts : List Outline} (condition : Makes test o) (plain : o.Plain)
    (fills : Fills fill os) (enters : Enters enter elifs) (closes : Closes close lasts) : Makes (do
      let test ← test
      let id ← Build.add (.conditional test .empty [] none) span
      fill id
      enter id
      close id
      return id) (.node
        { kind := .conditional
          roles := .condition :: (Role.child.each os ++ Role.elif.each elifs ++
            Role.otherwise.each lasts) }
        span [] [o] os (elifs ++ lasts)) := by
  intro t bs complete
  rw [bindings_container, bindingsAll_append, ← List.append_assoc, ← List.append_assoc,
    ← List.append_assoc, bindingsAll, bindingsAll, List.append_nil]
  apply (condition t bs complete).bind (by simp)
  rintro test t₁ ⟨complete₁, h, rfl⟩
  rw [← h.size]
  apply made_yields [] [o] os (elifs ++ lasts) complete.toRooted complete₁.toGrowing h
    (by simpa using plain) ⟨bare_of_empty rfl, rfl, rfl, rfl⟩
  intro _ growing
  have begun := Begun.extended t₁ (.conditional (o.number t.slots.size) .empty [] none) span
  have complete₂ : Tree.Complete _ _ :=
    ⟨growing, namesAt_extended span complete₁.toLinked complete₁.names (bare_of_empty rfl) rfl⟩
  have filled := fills _ _ _ _ complete₂ begun.made rfl
  rw [begun.size] at filled
  apply filled.bind ((List.prefix_append _ _).trans (List.prefix_append _ _))
  rintro - t₃ ⟨complete₃, scope, gained₃⟩
  obtain ⟨old₃, -, found₃⟩ := gained₃.given _ rfl
  have entered := enters _ _ _ _ _ _ _ complete₃ found₃ rfl
  rw [gained₃.size, begun.size] at entered
  apply entered.bind (List.prefix_append ..)
  rintro - t₄ ⟨complete₄, gained₄⟩
  obtain ⟨old₄, -, found₄⟩ := gained₄.given _ rfl
  have closed := closes _ _ _ _ _ _ _ complete₄ found₄ rfl
  rw [gained₄.size, gained₃.size, begun.size] at closed
  apply closed.bind (List.prefix_refl _)
  rintro - t₅ ⟨complete₅, last, listed, gained₅⟩
  refine .pure ⟨complete₅, ⟨_, ?_, ?_, gained₃.trans (gained₄.trans gained₅ rfl) rfl⟩, rfl⟩
  · rw [Stmt.shape_conditional, each_of_listed .otherwise listed]
    simp [Block.empty, each_numbers]
  · simp [Stmt.owned, listed, numbers_append, Block.empty]

/-- A loop that has just been made around its header takes over the names of the first part. Then
it is filled. -/
theorem loop_yields {first second third : Option StmtId} {init rest : List Outline}
    {fill : StmtId → BuildM Unit} (fills : Fills fill os) (complete : t₁.Complete bs)
    (h : t.Gained none (init ++ rest) t₁) (listed : first.toList = numbers t.slots.size init)
    (loop : s = .forLoop first second third .empty) (fits : t₁.Addable s)
    (growing : (t₁.extended s span).Growing bs)
    (all : bs' = bs ++ boundAll t₁.nextId t.slots.size span init ++
      childBindings t₁.nextId (t₁.extended s span).slots.size os) :
    Yields (do
      if let some first := first then declareNames t₁.nextId first span
      fill t₁.nextId
      return t₁.nextId) (t₁.extended s span) bs'
        (Filled (t₁.extended s span) t₁.nextId s (s.shape.fill os) (os ++ []) bs') := by
  subst all
  have begun := Begun.extended t₁ s span
  have found := begun.made
  have empty : s.body? = some .empty := by rw [loop, Stmt.body?]
  have chain : s.elifs = [] ∧ s.last? = none := by rw [loop]; exact ⟨rfl, rfl⟩
  -- Without a first part the level of the loop is empty. With one, its names are those of the part.
  rcases listed_cases listed with ⟨rfl, rfl⟩ | ⟨o, rfl, rfl⟩
  · have plain : s.init? = none := by rw [loop, Stmt.init?]
    have complete' : (t₁.extended s span).Complete bs :=
      ⟨growing, namesAt_extended span complete.toLinked complete.names (bare_of_empty empty) plain⟩
    rw [boundAll, List.append_nil]
    exact filled_yields fills empty chain.1 chain.2 complete' (.nothing found) rfl fun _ _ => rfl
  · have level : s.level = [o.number t.slots.size] := by rw [loop]; rfl
    have member : o.number t.slots.size ∈ s.owned := by simp [loop, Stmt.owned, Stmt.slots]
    have owned : (t₁.extended s span).parent? (o.number t.slots.size) = some t₁.nextId :=
      (parent?_extended fits).trans (if_pos member)
    have head : t₁.line? (o.number t.slots.size) = some o.head := (List.cons.inj h.heads).1
    have head' := (line?_of_said? (begun.said _ (fits.live _ member) (by simp))).trans head
    have declared := names_yields span growing found (Stmt.isContainer_of_empty empty) owned head'
      (fun x => namesAt_extended_of_ne complete.toLinked complete.names) (by simp [level])
      (names_of_bare (stmt?_of_get? found) (bare_of_empty empty) level)
    rw [boundAll, boundAll, List.append_nil]
    apply declared.bind (List.prefix_append ..)
    rintro - t₂ ⟨complete₂, f, gained⟩
    exact filled_yields fills empty chain.1 chain.2 complete₂ gained (by simp) fun _ _ =>
      Stmt.fill_mapScope f

/-- A loop with up to three parts in its header. The names of the first belong to its level. -/
theorem makes_of_parts {first second third : BuildM (Option StmtId)}
    {init test update : List Outline} {fill : StmtId → BuildM Unit} (offers : Offers first init)
    (offers' : Offers second test) (offers'' : Offers third update)
    (plain : ∀ o ∈ init ++ (test ++ update), o.Plain) (fills : Fills fill os) : Makes (do
      let first ← first
      let second ← second
      let third ← third
      let id ← Build.add (.forLoop first second third .empty) span
      if let some first := first then declareNames id first span
      fill id
      return id) (.node
        { kind := .forLoop
          roles := Role.init.each init ++ Role.test.each test ++ Role.update.each update ++
            Role.child.each os }
        span init (test ++ update) os []) := by
  intro t bs complete
  simp only [bindings, bindingsAll_append, bindingsAll, List.append_nil, ← List.append_assoc,
    total_append]
  apply (offers t bs complete).bind (by simp)
  rintro first t₁ ⟨complete₁, h₁, listed₁⟩
  have tested := offers' t₁ _ complete₁
  rw [h₁.size] at tested
  apply tested.bind (by simp)
  rintro second t₂ ⟨complete₂, h₂, listed₂⟩
  have updated := offers'' t₂ _ complete₂
  rw [h₂.size, h₁.size] at updated
  apply updated.bind (by simp)
  rintro third t₃ ⟨complete₃, h₃, listed₃⟩
  have h := h₁.trans (h₂.trans h₃ rfl) rfl
  have size : t₃.slots.size = t.slots.size + total init + (total test + total update) := by
    rw [h.size, total_append, total_append, Nat.add_assoc]
  rw [← size]
  apply made_yields init (test ++ update) os [] complete.toRooted complete₃.toGrowing h plain
  · refine ⟨bare_of_empty rfl, ?_, rfl, rfl⟩
    simp [Stmt.owned, Stmt.slots, Stmt.children, Stmt.body?, Block.empty, listed₁, listed₂, listed₃,
      numbers_append, Nat.add_assoc]
  intro fits growing
  rw [← each_of_listed .init listed₁, ← each_of_listed .test listed₂,
    ← each_of_listed .update listed₃, ← Stmt.fill_shape_forLoop]
  apply loop_yields fills complete₃ h listed₁ rfl fits growing
  rw [slots_size_extended]
  rfl

mutual

theorem item_makes : ∀ i : Item, Makes (item i) i.outline
  | .leaf span leaf => by
    intro t bs complete
    rw [item, Item.outline, ← bind_pure (Build.add _ _)]
    apply made_yields [] [] [] [] complete.toRooted complete.toGrowing (.nil t) (by simp)
      (by cases leaf <;> exact ⟨nofun, rfl, rfl, rfl⟩)
    intro _ growing
    have made := (Begun.extended t (leaf.toStmt span) span).made
    have names := namesAt_extended span complete.toLinked complete.names
      (bare_leaf span leaf) (by cases leaf <;> rfl)
    refine .pure ⟨?_, ⟨_, shape_toStmt span leaf, ?_, .nothing made⟩, rfl⟩
    · simpa [bindings, bindingsAll, boundAll, childBindings] using ⟨growing, names⟩
    · simp [numbers]
  | .block span body => by
    rw [item, Item.outline, ← each_outlines]
    exact makes_of_fills (children_fills body) rfl rfl ⟨rfl, rfl⟩ rfl
  | .function span sig body => by
    rw [item, Item.outline, ← each_outlines]
    exact makes_of_fills (children_fills body) rfl rfl ⟨rfl, rfl⟩ rfl
  | .namespaceBlock span name body => by
    rw [item, Item.outline, ← each_outlines]
    exact makes_of_fills (children_fills body) rfl rfl ⟨rfl, rfl⟩ rfl
  | .conditional span condition body arms otherwise => by
    rw [item, Item.outline, ← each_outlines .child, ← each_armOutlines,
      ← each_lastOutlines _ span]
    exact makes_of_chain (item_makes condition) (plain_outline condition) (children_fills body)
      (entries_enters arms) (final_closes span otherwise)
  | .forLoop span init test update body => by
    rw [item, Item.outline, ← each_outlines .child, ← each_partOutlines, ← each_partOutlines,
      ← each_partOutlines]
    exact makes_of_parts (part_offers init) (part_offers test) (part_offers update)
      (by simpa only [List.forall_mem_append] using
        ⟨plain_partOutlines init, plain_partOutlines test, plain_partOutlines update⟩)
      (children_fills body)
  | .whileLoop span condition body bodyFirst => by
    rw [item, Item.outline, ← each_outlines]
    exact makes_of_condition (item_makes condition) (plain_outline condition) (children_fills body)
      (fun _ => rfl) (fun _ => rfl) (fun _ => ⟨rfl, rfl⟩) (fun _ => rfl) fun _ => rfl
  | .switch span condition body => by
    rw [item, Item.outline, ← each_outlines]
    exact makes_of_condition (item_makes condition) (plain_outline condition) (children_fills body)
      (fun _ => rfl) (fun _ => rfl) (fun _ => ⟨rfl, rfl⟩) (fun _ => rfl) fun _ => rfl

theorem part_offers : ∀ i : Option Item, Offers (part i) (partOutlines i)
  | none => by
    intro t bs complete
    rw [part, partOutlines, bindingsAll, List.append_nil]
    exact .pure ⟨complete, .nil t, rfl⟩
  | some i => by
    intro t bs complete
    rw [part, partOutlines, bindingsAll, bindingsAll, List.append_nil]
    apply (item_makes i t bs complete).bind (List.prefix_refl _)
    rintro id t₁ ⟨complete₁, h, rfl⟩
    exact .pure ⟨complete₁, h, rfl⟩

theorem children_fills : ∀ items : List Item, Fills (children · items) (outlines items)
  | [] => by
    intro t bs owner node complete found container
    obtain ⟨scope, same⟩ := node.stmt.exists_fill_nil
    simp only [children, outlines, childBindings, List.append_nil]
    exact .pure ⟨complete, scope, by simpa [numbers, same] using Gained.nothing found⟩
  | i :: rest => by
    intro t bs owner node complete found container
    simp only [children, outlines, childBindings, ← List.append_assoc]
    apply (item_makes i t bs complete).bind (by simp)
    rintro id t₁ ⟨complete₁, h, rfl⟩
    apply child_yields complete.toRooted h complete₁ (plain_outline i) found container
    · simp [span_outline]
    · intro t₂ f complete₂ gained
      obtain ⟨scope, filled⟩ :=
        node.stmt.exists_fill_addChild (i.outline.number t.slots.size) f
      rw [filled] at gained
      -- The rest is added to a container that holds this child already.
      obtain ⟨node₂, found', found₂⟩ := gained.given _ rfl
      have later := children_fills rest t₂ _ owner _ complete₂ found₂ (by simpa using container)
      rw [gained.size, ← span_outline] at later
      apply later.mono
      rintro - t₃ ⟨complete₃, scope', gained'⟩
      refine ⟨complete₃, scope', ?_⟩
      rw [Stmt.fill_fill] at gained'
      exact gained.trans gained' rfl

theorem entries_enters : ∀ arms : List Arm, Enters (entries · arms) (armOutlines arms)
  | [] => by
    intro t bs owner old condition body elifs complete found conditional
    simp only [entries, armOutlines, bindingsAll, numbers, List.append_nil]
    exact .pure ⟨complete, conditional ▸ .nothing found⟩
  | .elif test block :: rest => by
    intro t bs owner old condition body elifs complete found conditional
    simp only [entries, armOutlines, span_outline, ← each_outlines, bindingsAll, bindings_container,
      ← List.append_assoc, List.append_nil]
    apply (item_makes test t bs complete).bind (by simp)
    rintro id t₁ ⟨complete₁, h, rfl⟩
    have place : t₁.nextId = ⟨t.slots.size + total [test.outline]⟩ := by rw [nextId, h.size]
    have receives : t.Receives .elif owner := by
      have there := stmt?_of_get? found
      simp [Receives, StmtKind.isChainEntry, kind?_eq, Tree.last?, there, conditional, Stmt.kind,
        Stmt.last?]
    apply entry_yields (k := .elif) (s := .elif _ .empty) (children_fills block) complete.toRooted
      complete₁ h (by simpa using plain_outline test) ⟨bare_of_empty rfl, rfl, rfl, rfl⟩ rfl rfl rfl
      rfl rfl found receives
    · rw [place, h.size]
      exact List.prefix_append ..
    · intro t₂ complete₂ gained
      rw [place, h.size] at complete₂
      obtain ⟨old', _, found₂⟩ := gained.given _ rfl
      have later := entries_enters rest t₂ _ owner _ condition body (elifs ++ [t₁.nextId]) complete₂
        found₂ (by rw [conditional]; rfl)
      rw [gained.size] at later
      apply later.mono
      rintro - t₃ ⟨complete₃, gained'⟩
      refine ⟨complete₃, ?_⟩
      rw [numbers, Outline.number, total_nil, Nat.add_zero, ← place, List.append_cons]
      exact gained.trans gained' rfl

theorem final_closes (span : Span) :
    ∀ last : Option (List Item), Closes (final · span last) (lastOutlines span last)
  | none => by
    intro t bs owner old condition body elifs complete found conditional
    simp only [final, lastOutlines, bindingsAll, List.append_nil]
    exact .pure ⟨complete, none, rfl, conditional ▸ .nothing found⟩
  | some block => by
    intro t bs owner old condition body elifs complete found conditional
    simp only [final, lastOutlines, ← each_outlines, bindingsAll, bindings_container,
      List.append_nil, List.nil_append]
    have receives : t.Receives .otherwise owner := by
      have there := stmt?_of_get? found
      simp [Receives, StmtKind.isChainEntry, kind?_eq, Tree.last?, there, conditional, Stmt.kind,
        Stmt.last?]
    have entry : Yields (do
        let id ← Build.add (.otherwise .empty) span
        onBehalf span (attachCopy .otherwise owner id)
        children id block
        Pure.pure ()) t (bs ++ childBindings t.nextId (t.slots.size + 1) (outlines block))
          fun _ t' => t'.Complete _ ∧ t.Gained (some (owner, receive .otherwise t.nextId old.stmt))
            [.node _ span [] [] (outlines block) []] t' :=
      entry_yields (children_fills block) complete.toRooted complete (.nil t) (by simp)
        ⟨bare_of_empty rfl, rfl, rfl, rfl⟩ rfl rfl rfl rfl rfl found receives (List.prefix_refl _)
        fun t₁ complete₁ gained => .pure ⟨complete₁, gained⟩
    rw [conditional] at entry
    simp only [bind_pure_unit] at entry
    apply entry.mono
    rintro - t₁ ⟨complete₁, gained⟩
    exact ⟨complete₁, some t.nextId, rfl, gained⟩

end

end Build
end KernelTree
