import KernelTree.Proofs.Description.Construction
import KernelTree.Proofs.Tree.Forest
/-! What comes of a description. Its tree holds exactly what the outline lists, in source order, all
of it attached and with the names that are declared there. There is no tree only if a name is
declared twice at some level, and the complaint is about the first such name. -/
namespace KernelTree

open KernelTree.Tree Outline
open Stmt (Role)

namespace Build

/-- From the initial tree, the construction ends with all names declared or with the first clash. -/
theorem description_yields (d : Description) :
    Yields (children root d.statements) initial d.bindings fun _ t =>
      t.Complete d.bindings ∧ ∃ s,
        s.shape = { kind := .block, roles := Role.child.each d.statements } ∧
        s.owned = numbers 1 d.outline ∧ initial.Gained (some (root, s)) d.outline t := by
  have names (c : StmtId) : initial.NamesAt c := by
    intro s found name id
    have bare : s.Bare ∧ s.level = [] := by
      obtain ⟨node, there, rfl⟩ := Option.map_eq_some_iff.mp found
      obtain ⟨index⟩ := c
      cases index with
      | zero =>
        cases there
        exact ⟨bare_of_empty rfl, rfl⟩
      | succ => simp [get?, initial] at there
    simp [named?_of_bare found bare.1, bare.2]
  have filled := children_fills d.statements initial [] root { stmt := .block .empty }
    ⟨growing_initial, names⟩ rfl rfl
  apply filled.mono
  rintro - t ⟨complete, scope, gained⟩
  refine ⟨complete, _, ?_, ?_, gained⟩
  · rw [Stmt.shape_fill rfl rfl rfl, fill_numbers, Stmt.Shape.fill, each_outlines]
    rfl
  · rw [Stmt.owned_fill rfl rfl rfl]
    rfl

end Build

namespace Description

theorem toTree_cases (d : Description) :
    (∃ t, d.toTree = .ok t ∧ t.Complete d.bindings ∧ ∃ s,
      s.shape = { kind := .block, roles := Role.child.each d.statements } ∧
      s.owned = numbers 1 d.outline ∧
      initial.Gained (some (root, s)) d.outline t) ∨
    ∃ e, d.toTree = .error e ∧ FirstClash d.bindings e := by
  have outcome := Build.description_yields d
  rw [Build.Yields] at outcome
  rw [toTree]
  split at outcome
  next run => exact .inl ⟨_, by rw [run], outcome⟩
  next run => exact .inr ⟨_, by rw [run], outcome⟩

/-- A description has no tree exactly if a name is declared twice at one level. The complaint is
about the first such name in the order of the construction, at the place where it is declared
again. -/
theorem toTree_error_iff (d : Description) :
    ((∃ e, d.toTree = .error e) ↔ ∃ level ∈ d.levels, ¬ level.Nodup) ∧
    (∀ e, d.toTree = .error e ↔ FirstClash d.bindings e) ∧
    ∀ cause span, d.toTree = .error { cause, span } →
      ∃ name container decl, cause = .duplicateDeclaration name container decl := by
  have exact_ (e : BuildError) : d.toTree = .error e ↔ FirstClash d.bindings e := by
    obtain ⟨t, built, complete, -⟩ | ⟨e', refused, clash⟩ := d.toTree_cases
    · rw [built]
      exact ⟨nofun, fun clash => absurd complete.distinct clash.not_nodup⟩
    · rw [refused, Except.error.injEq]
      exact ⟨fun same => same ▸ clash, clash.unique⟩
  refine ⟨?_, exact_, ?_⟩
  · have clashing := d.nodup_bindings_iff
    obtain ⟨t, built, complete, -⟩ | ⟨e, refused, clash⟩ := d.toTree_cases
    · have distinct := clashing.mp complete.distinct
      simpa [built] using distinct
    · have repeated := mt clashing.mpr clash.not_nodup
      simpa [refused] using repeated
  · intro cause span refused
    obtain ⟨before, b, after, -, -, earlier, -, -, same⟩ := (exact_ _).mp refused
    cases same
    exact ⟨_, _, _, rfl⟩

/-- The second variable of a loop is declared again in its body, in front of others or behind
them. -/
theorem toTree_error_of_loop :
    let var (name : String) : VarDecl :=
      { name := ⟨.identifier, name, .none⟩, type := { name := "int" } }
    let d (inner : List String) : Description := { statements := [
      .forLoop ⟨0, 1, 9⟩ (some (.leaf .none (.declaration [var "a", var "k"]))) none none
        [.leaf ⟨0, 4, 6⟩ (.declaration (inner.map var))]] }
    let clash : BuildError := { cause := .duplicateDeclaration "k" ⟨2⟩ ⟨1⟩, span := ⟨0, 4, 6⟩ }
    (d ["b", "k"]).toTree = .error clash ∧ (d ["k", "a"]).toTree = .error clash ∧
      ¬ ∃ e, (d ["b", "c"]).toTree = .error e := by
  intro var d clash
  let outer (name : String) : Binding := ⟨⟨2⟩, name, ⟨1⟩, ⟨0, 1, 9⟩⟩
  let inner (name : String) : Binding := ⟨⟨2⟩, name, ⟨3⟩, ⟨0, 4, 6⟩⟩
  refine ⟨((toTree_error_iff _).2.1 _).mpr ?_, ((toTree_error_iff _).2.1 _).mpr ?_, ?_⟩
  · refine ⟨[outer "a", outer "k", inner "b"], inner "k", [], rfl, by decide, outer "k", ?_, rfl,
      rfl⟩
    exact .tail _ (.head _)
  · refine ⟨[outer "a", outer "k"], inner "k", [inner "a"], rfl, by decide, outer "k", ?_, rfl, rfl⟩
    exact .tail _ (.head _)
  · rw [(toTree_error_iff _).1]
    decide +kernel

/-- A tree holds what a description says. -/
structure Holds (d : Description) (t : Tree) : Prop where
  /-- All statements are attached. -/
  count : t.live = (t.preorder root).length
  attached : ∀ x, t.contains x → x ∈ t.preorder root
  links : t.verifyLinks root = .ok ()
  /-- Below the root stand the statements of the description in source order, each with its kind,
  what it says, the places of those that it holds, and where it stands. -/
  lines : (t.preorder root).map t.line? =
    some ({ kind := .block, roles := Role.child.each d.statements }, .none) ::
      (linesAll d.outline).map some
  /-- At the level of each container are the names declared there, each bound to the statement that
  declares it. -/
  names : ∀ c s, t.stmt? c = some s → ∀ name id,
    t.named? c name = some id ↔ id ∈ s.level ∧ t.Declares id name

/-- The tree of a description holds exactly what the description says. -/
theorem holds_of_toTree {d : Description} {t : Tree} (built : d.toTree = .ok t) : d.Holds t := by
  obtain ⟨t', built', complete, s, shape, owned, gained⟩ | ⟨e, refused, -⟩ := d.toTree_cases
  case inr => simp [built] at refused
  cases built.symm.trans built'
  have linked := complete.toLinked
  have live := complete.contains_root
  obtain ⟨node, first, found⟩ := gained.given _ rfl
  cases first
  obtain ⟨order, walk, read, -⟩ := gained.shown
  have whole : t.preorder root = root :: order := by
    apply (linked.walk_preorder live).unique
    apply Walk.visit live
    rw [owned_of_stmt? (stmt?_of_get? found), List.append_nil]
    exact owned ▸ walk
  have lines : (t.preorder root).map t.line? =
      some ({ kind := .block, roles := Role.child.each d.statements }, .none) ::
        (linesAll d.outline).map some := by
    rw [whole, List.map_cons, read, line?, found, Option.map_some, shape]
  have length : (t.preorder root).length = t.slots.size := by
    have counted := congrArg List.length lines
    rw [List.length_map, List.length_cons, List.length_map] at counted
    rw [counted, gained.size, total]
    exact Nat.add_comm ..
  constructor
  case count => rw [complete.full, length]
  case attached =>
    intro x
    have walk := linked.walk_preorder live
    exact mem_of_length_eq_size (linked.nodup_preorder live) (fun _ => walk.contains_of_mem) length
  case links => exact linked.verifyLinks_ok live
  case lines => exact lines
  case names => exact complete.names

/-- A pragma, a loop that declares its variables around a conditional with all its entries, a label
and a `return`. -/
theorem holds_of_loop :
    let name (text : String) : Token := ⟨.identifier, text, .none⟩
    let value (text : String) : Item := .leaf .none (.expression (.ident (name text)))
    let var (text : String) : VarDecl := { name := name text, type := { name := "int" } }
    let d : Description := { statements := [
      .leaf ⟨0, 1, 1⟩ (.pragma " once "),
      .forLoop ⟨0, 2, 9⟩ (some (.leaf .none (.declaration [var "k", var "n"]))) (some (value "c"))
        none
        [.conditional ⟨0, 3, 8⟩ (value "a") [.leaf .none .continueJump]
          [.elif (value "b") [.leaf ⟨0, 5, 5⟩ (.goto (name "out"))]]
          (some [.leaf .none .breakJump])],
      .leaf ⟨1, 0, 4⟩ (.label (name "out")),
      .leaf ⟨1, 5, 9⟩ (.returnJump (some (.ident (name "r"))))] }
    let said (text : String) : Stmt.Shape × Span :=
      ({ kind := .expression, content := { value := Expr.ident (name text) } }, .none)
    let lines : List (Stmt.Shape × Span) := [
      ({ kind := .block, roles := [.child, .child, .child, .child] }, .none),
      ({ kind := .pragma, content := { token := some ⟨.pragma, "once", ⟨0, 1, 1⟩⟩ } }, ⟨0, 1, 1⟩),
      ({ kind := .forLoop, roles := [.init, .test, .child] }, ⟨0, 2, 9⟩),
      ({ kind := .declaration, content := { vars := [var "k", var "n"] } }, .none),
      said "c",
      ({ kind := .conditional, roles := [.condition, .child, .elif, .otherwise] }, ⟨0, 3, 8⟩),
      said "a",
      ({ kind := .continueJump }, .none),
      ({ kind := .elif, roles := [.condition, .child] }, .none),
      said "b",
      ({ kind := .goto, content := { token := name "out" } }, ⟨0, 5, 5⟩),
      ({ kind := .otherwise, roles := [.child] }, ⟨0, 3, 8⟩),
      ({ kind := .breakJump }, .none),
      ({ kind := .label, content := { token := name "out" } }, ⟨1, 0, 4⟩),
      ({ kind := .returnJump, content := { value := Expr.ident (name "r") } }, ⟨1, 5, 9⟩)]
    ∃ t, d.toTree = .ok t ∧ t.live = 15 ∧ t.resolve ⟨12⟩ "k" = some ⟨2⟩ ∧
      t.resolve ⟨10⟩ "n" = some ⟨2⟩ ∧ (t.preorder root).map t.line? = lines.map some ∧
      d.Holds t := by
  intro name value var d said lines
  have seen : d.toTree.toOption.map (fun t => (t.live, t.resolve ⟨12⟩ "k", t.resolve ⟨10⟩ "n")) =
      some (15, some ⟨2⟩, some ⟨2⟩) := by
    decide +kernel
  cases built : d.toTree with
  | error e => simp [built, Except.toOption] at seen
  | ok t =>
    rw [built] at seen
    obtain ⟨count, inBreak, inGoto⟩ :
        t.live = 15 ∧ t.resolve ⟨12⟩ "k" = some ⟨2⟩ ∧ t.resolve ⟨10⟩ "n" = some ⟨2⟩ := by
      simpa [Except.toOption] using seen
    have holds := holds_of_toTree built
    exact ⟨t, rfl, count, inBreak, inGoto, holds.lines.trans (by rfl), holds⟩

end Description
end KernelTree
