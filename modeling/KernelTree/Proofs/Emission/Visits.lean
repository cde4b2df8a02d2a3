import KernelTree.Proofs.Emission.Refinement
import KernelTree.Proofs.Emission.Shown
import KernelTree.Proofs.Tree.Loops
/-! The printer as a loop without a bound. Its stack grows and shrinks by several tasks at a time,
but the visits among the tasks come down the tree, and every statement that is shown is visited
once. -/
namespace KernelTree

/-- The statements that are printed on their own after a statement: its children, and the entries of
its if-chain. -/
def Tree.shownBelow (t : Tree) (x : StmtId) : List StmtId :=
  ((t.stmt? x).map fun s => s.children ++ s.chain).getD []

namespace Emission

variable {t : Tree} {d : Dialect} {o o' : Output} {id : StmtId} {s : Stmt} {ts trace : List Task}
  {ids order : List StmtId}

/-- The printer does the first pending task. A visit gives way to the tasks of its statement. -/
def emitTurn (t : Tree) (d : Dialect) :
    List Task × Output → Option (Task × (List Task × Output))
  | ([], _) => none
  | (.visit id :: rest, o) =>
    some (.visit id, match t.get? id with
      | none => (rest, o)
      | some node => (tasks t d id node.stmt ++ rest, o))
  | (task :: rest, o) => some (task, rest, perform d.style o task)

/-- The statements that tasks visit. -/
def visited (ts : List Task) : List StmtId := ts.filterMap (·.visited?)

@[simp] theorem visited_append (ts us : List Task) :
    visited (ts ++ us) = visited ts ++ visited us :=
  List.filterMap_append

@[simp] theorem visited_visits (ids : List StmtId) : visited (ids.map .visit) = ids := by
  rw [visited, List.filterMap_map]
  exact List.filterMap_some

theorem visited_cons {task : Task} (plain : task.visited? = none) (ts : List Task) :
    visited (task :: ts) = visited ts :=
  List.filterMap_cons_none plain

@[simp] theorem visited_openBrace (style : Style) (header : String) :
    visited (openBrace style header) = [] := by
  unfold openBrace
  split <;> rfl

@[simp] theorem visited_enclosed (ids : List StmtId) (suffix : String) :
    visited (enclosed ids suffix) = ids := by
  rw [enclosed, visited_cons rfl, visited_append, visited_visits]
  exact List.append_nil ids

/-- A statement asks for its children and then for the entries of its chain. -/
theorem visited_tasks (id : StmtId) (s : Stmt) :
    visited (tasks t d id s) = s.children ++ s.chain := by
  cases s
  case block body =>
    by_cases isRoot : id = Tree.root
    · rw [tasks, if_pos isRoot, visited_visits]
      exact (List.append_nil _).symm
    · rw [tasks, if_neg isRoot, visited_cons rfl, visited_enclosed]
      exact (List.append_nil _).symm
  case pragma token =>
    rw [tasks]
    cases d.pragma token.text <;> rfl
  case namespaceBlock name body =>
    rw [tasks]
    cases d.namespaces <;> simp [Stmt.children, Stmt.body?, Stmt.chain, Stmt.elifs, Stmt.last?]
  case conditional condition body elifs last =>
    rw [tasks, visited_append, visited_append, visited_openBrace, visited_enclosed, visited_visits]
    rfl
  case elif condition body =>
    rw [tasks, visited_cons rfl, visited_enclosed]
    exact (List.append_nil _).symm
  case otherwise body =>
    rw [tasks, visited_cons rfl, visited_enclosed]
    exact (List.append_nil _).symm
  case function | forLoop | switch =>
    rw [tasks, visited_append, visited_openBrace, visited_enclosed]
    exact (List.append_nil _).symm
  case whileLoop condition body bodyFirst =>
    cases bodyFirst
    · rw [tasks, visited_append, visited_openBrace, visited_enclosed]
      exact (List.append_nil _).symm
    · simp only [tasks, visited_append, visited_openBrace]
      split
      · rw [visited_append, visited_enclosed]
        rfl
      · rw [visited_enclosed]
        exact (List.append_nil _).symm
  case returnJump value => cases value <;> rfl
  all_goals rfl

/-- The printer ends, having visited those statements, and a bounded run with room for as many
visits gives the same. -/
structure Ends (t : Tree) (d : Dialect) (ts : List Task) (o : Output) (order : List StmtId)
    (o' : Output) : Prop where
  loop : ∃ trace, Loop (emitTurn t d) (ts, o) trace ([], o') ∧ visited trace = order
  run_eq : ∀ visits, order.length ≤ visits → run t d visits ts o = o'

namespace Ends

theorem nil : Ends t d [] o [] o where
  loop := ⟨[], .done rfl, rfl⟩
  run_eq visits _ := by simp [run]

theorem cons {task : Task} (plain : task.visited? = none)
    (rest : Ends t d ts (perform d.style o task) order o') : Ends t d (task :: ts) o order o' where
  loop := by
    obtain ⟨trace, loop, same⟩ := rest.loop
    have first : emitTurn t d (task :: ts, o) = some (task, ts, perform d.style o task) := by
      cases task
      case visit => cases plain
      all_goals rfl
    exact ⟨task :: trace, .turn first loop, (visited_cons plain trace).trans same⟩
  run_eq visits enough := (run_perform plain visits o).trans (rest.run_eq visits enough)

theorem visit {node : Node} (found : t.get? id = some node)
    (rest : Ends t d (tasks t d id node.stmt ++ ts) o order o') :
    Ends t d (.visit id :: ts) o (id :: order) o' where
  loop := by
    obtain ⟨trace, loop, same⟩ := rest.loop
    have first : emitTurn t d (.visit id :: ts, o) =
        some (.visit id, tasks t d id node.stmt ++ ts, o) := by
      simp only [emitTurn, found]
    exact ⟨.visit id :: trace, .turn first loop, congrArg (id :: ·) same⟩
  run_eq visits enough := by
    obtain ⟨visits, rfl⟩ := Nat.exists_eq_add_of_le' enough
    exact (run_visit found _ o).trans (rest.run_eq _ (Nat.le_add_left ..))

theorem skip (gone : t.get? id = none) (rest : Ends t d ts o order o') :
    Ends t d (.visit id :: ts) o (id :: order) o' where
  loop := by
    obtain ⟨trace, loop, same⟩ := rest.loop
    have first : emitTurn t d (.visit id :: ts, o) = some (.visit id, ts, o) := by
      simp only [emitTurn, gone]
    exact ⟨.visit id :: trace, .turn first loop, congrArg (id :: ·) same⟩
  run_eq visits enough := by
    obtain ⟨visits, rfl⟩ := Nat.exists_eq_add_of_le' enough
    rw [List.length_cons, ← Nat.add_assoc, run.eq_def]
    simp only [gone]
    exact rest.run_eq _ (Nat.le_add_left ..)

end Ends

/-- The printer ends if the walk does that takes its visits and goes on with what is shown below. -/
theorem exists_ends (walk : Loop (popTurn t.shownBelow) (visited ts) order []) (o : Output) :
    ∃ o', Ends t d ts o order o' := by
  induction order generalizing ts o with
  | nil =>
    induction ts generalizing o with
    | nil => exact ⟨o, .nil⟩
    | cons task ts ih =>
      cases plain : task.visited? with
      | none =>
        rw [visited_cons plain] at walk
        obtain ⟨o', ends⟩ := ih walk (perform d.style o task)
        exact ⟨o', ends.cons plain⟩
      | some id =>
        cases task <;> cases plain
        cases walk
  | cons x order each =>
    -- Other tasks are done until the first visit comes up.
    induction ts generalizing o with
    | nil =>
      cases walk with
      | turn taken => cases taken
    | cons task ts ih =>
      cases plain : task.visited? with
      | none =>
        rw [visited_cons plain] at walk
        obtain ⟨o', ends⟩ := ih walk (perform d.style o task)
        exact ⟨o', ends.cons plain⟩
      | some id =>
        cases task <;> cases plain
        cases walk with
        | turn taken later => ?_
        cases taken
        cases found : t.get? x with
        | none =>
          have nothing : t.shownBelow x = [] := by simp [Tree.shownBelow, Tree.stmt?, found]
          rw [nothing] at later
          obtain ⟨o', ends⟩ := each later o
          exact ⟨o', ends.skip found⟩
        | some node =>
          have below : t.shownBelow x = visited (tasks t d x node.stmt) := by
            rw [visited_tasks, Tree.shownBelow, Tree.stmt?_of_get? found]
            rfl
          rw [below] at later
          obtain ⟨o', ends⟩ := each (by rwa [visited_append]) o
          exact ⟨o', ends.visit found⟩

/-- Down from a statement the children and the entries of if-chains are the statements shown. -/
theorem reaches_shownBelow : Tree.Reaches t.shownBelow = t.Shown := by
  unfold Tree.Reaches Tree.Shown
  congr 1
  funext p c
  cases found : t.stmt? p <;> simp [Tree.shownBelow, found]

/-- The printer ends at every number, having visited each statement that is shown once. -/
theorem exists_ends_visit (h : t.Rooted) (d : Dialect) (id : StmtId) : ∃ order o,
    Ends t d [.visit id] {} order o ∧ order.Nodup ∧ (∀ x, x ∈ order ↔ t.Shown id x) ∧
      order.length ≤ t.slots.size := by
  have linked := h.toLinked
  rw [← reaches_shownBelow]
  cases live : t.contains id with
  | true =>
    have sublist x : (t.shownBelow x).Sublist (t.owned x) := by
      cases found : t.stmt? x with
      | none => simp [Tree.shownBelow, found]
      | some s =>
        rw [Tree.shownBelow, found, Tree.owned_of_stmt? found]
        exact s.children_chain_sublist
    have part x : t.shownBelow x ⊆ t.owned x := (sublist x).subset
    obtain ⟨order, loop, nodup, met⟩ := linked.exists_order part
      (fun x => (linked.nodup_owned x).sublist (sublist x)) live
    obtain ⟨o, ends⟩ : ∃ o, Ends t d [.visit id] {} order o := exists_ends loop {}
    refine ⟨order, o, ends, nodup, met, Tree.length_le_size nodup fun x member => ?_⟩
    exact (linked.within_of_reaches part ((met x).mp member)).contains live
  | false =>
    have absent : t.get? id = none := by simpa [Tree.contains] using live
    have nothing : t.shownBelow id = [] := by simp [Tree.shownBelow, Tree.stmt?, absent]
    refine ⟨[id], {}, Ends.nil.skip absent, List.nodup_singleton id, fun x => ?_, ?_⟩
    · rw [List.mem_singleton]
      constructor
      · rintro rfl
        exact .refl
      · intro below
        rcases below.cases_head with same | ⟨c, member, -⟩
        · exact same.symm
        · simp [nothing] at member
    · exact Nat.succ_le_of_lt (Nat.zero_lt_of_lt (Tree.index_lt h.contains_root))

/-- Every walk ends, at every number and without a bound. The chain of owners is no longer than the
tree has statements, the walks down take every statement of the subtree off their stack once, and
the printer visits once every statement that it prints. -/
theorem walks_end {admitted : Stmt → Prop} (h : Tree.Reachable admitted t) (d : Dialect)
    (id : StmtId) :
    t.LoopsEnd id ∧ ∃ trace o, Loop (emitTurn t d) ([.visit id], {}) trace ([], o) ∧
      o.text = emit t id d ∧ (visited trace).Nodup ∧ ∀ x, x ∈ visited trace ↔ t.Shown id x := by
  obtain ⟨order, o, ends, nodup, met, room⟩ := exists_ends_visit h.rooted d id
  obtain ⟨trace, loop, rfl⟩ := ends.loop
  refine ⟨h.rooted.loopsEnd id, trace, o, loop, ?_, nodup, met⟩
  rw [emit, ends.run_eq _ room]

/-- A conditional with a condition, a declaration, and an `elif` entry that holds a block. Its
condition could not be detached, and it could not be put into its own block. -/
theorem walks_end_of_branches :
    let calls : List Tree.Change := [
      .addExpr (.ident ⟨.identifier, "a", .none⟩),
      .push Tree.root (.conditional ⟨1⟩ .empty [] none),
      .addExpr (.ident ⟨.identifier, "b", .none⟩), .add (.elif ⟨3⟩ .empty) .none,
      .addElif ⟨2⟩ ⟨4⟩, .push ⟨2⟩ (.declaration []), .push ⟨4⟩ (.block .empty), .detach ⟨1⟩,
      .append ⟨6⟩ ⟨2⟩]
    let t := Tree.initial.run calls
    Tree.Reachable (fun _ => True) t ∧ t.taken ⟨2⟩ = [⟨2⟩, ⟨1⟩, ⟨5⟩, ⟨4⟩, ⟨3⟩, ⟨6⟩] ∧
      t.ancestors ⟨6⟩ = [⟨6⟩, ⟨4⟩, ⟨2⟩, Tree.root] ∧ t.live = 7 ∧ t.LoopsEnd ⟨2⟩ ∧
      ∃ trace o, Loop (emitTurn t .serial) ([.visit ⟨2⟩], {}) trace ([], o) ∧
        (visited trace).Nodup ∧ ⟨4⟩ ∈ visited trace ∧ ⟨1⟩ ∉ visited trace := by
  intro calls t
  have h : Tree.Reachable (fun _ => True) t := Tree.Reachable.initial.run fun _ _ _ _ => trivial
  obtain ⟨loops, trace, o, loop, -, once, shown⟩ := walks_end h .serial ⟨2⟩
  have test : t.stmt? ⟨2⟩ = some (.conditional ⟨1⟩ { children := [⟨5⟩] } [⟨4⟩] none) := by rfl
  refine ⟨h, by decide +kernel, by decide +kernel, by decide +kernel, loops, trace, o, loop, once,
    (shown _).mpr (.single ⟨_, test, by decide⟩), fun visited => ?_⟩
  have linked := h.rooted.toLinked
  exact linked.not_shown_of_header (Tree.contains_of_stmt? test) .refl test List.mem_cons_self
    (.refl ..) ((shown _).mp visited)

end Emission
end KernelTree
