import KernelTree.Emission.Printer
import KernelTree.Proofs.Tree.Linked
import Mathlib.Data.String.Basic
/-! The printer step by step. A step does the first of the pending tasks, and a run is a sequence of
steps. Whatever the tree looks like, the margin is kept in step with the depth, and no level is
closed that was not opened. -/
namespace KernelTree.Emission

variable {t : Tree} {d : Dialect} {style : Style} {o : Output} {n : Nat}

/-- The indentation of a level. -/
def indentation (style : Style) (depth : Nat) : String :=
  String.join (List.replicate depth style.indent)

theorem indentation_succ (style : Style) (depth : Nat) :
    indentation style (depth + 1) = indentation style depth ++ style.indent := by
  simp [indentation, List.replicate_succ', String.join_append]

namespace Output

/-- The margin is the indentation of the depth. -/
def InStep (style : Style) (o : Output) : Prop := o.margin = indentation style o.depth

theorem cutBack_append (s u : String) : cutBack (s ++ u) u.utf8ByteSize = s := by
  have cut := String.extract_of_valid [] s.toList u.toList
  simp only [List.nil_append, String.ofList_append, String.ofList_toList] at cut
  simpa [cutBack] using cut

/-- Cutting the last level off leaves the indentation of the level around, if there is one. -/
theorem cutBack_indentation (style : Style) (depth : Nat) :
    cutBack (indentation style depth) style.indent.utf8ByteSize =
      indentation style (depth - 1) := by
  cases depth with
  | zero => rw [show indentation style 0 = "" from rfl]; simp [cutBack]; rfl
  | succ depth => rw [indentation_succ, cutBack_append, Nat.add_sub_cancel]

theorem opening_eq (header : String) : ∃ text, o.opening style header = { o with text } := by
  unfold opening
  cases style.braceOnNewLine
  · exact ⟨_, rfl⟩
  · exact ⟨_, rfl⟩

/-- A header changes nothing but the text. -/
theorem continuation_eq (header : String) :
    ∃ text, o.continuation style header = { o with text } := by
  unfold continuation
  cases style.cuddleElse && o.text.endsWith "\x7d\n"
  · exact opening_eq header
  · cases style.braceOnNewLine
    · exact ⟨_, rfl⟩
    · exact ⟨_, rfl⟩

theorem InStep.indent (h : o.InStep style) : (o.indent style).InStep style := by
  rw [InStep, Output.indent, indentation_succ, h]

theorem InStep.dedent (h : o.InStep style) : (o.dedent style).InStep style := by
  unfold Output.dedent
  split
  · exact h
  · rw [InStep] at h ⊢
    rw [h, cutBack_indentation]

end Output

/-- The statement that a task asks for. -/
def Task.visited? : Task → Option StmtId
  | .visit id => some id
  | _ => none

/-- A moment of a run: how many statements may still be printed, what is to be done, and what has
been printed. -/
structure Moment where
  visits : Nat
  pending : List Task
  out : Output

/-- The first of the pending tasks is done. -/
inductive Step (t : Tree) (d : Dialect) : Moment → Moment → Prop
  | visit {id : StmtId} {node : Node} {rest : List Task} {n : Nat} {o : Output}
    (found : t.get? id = some node) :
    Step t d ⟨n + 1, .visit id :: rest, o⟩ ⟨n, tasks t d id node.stmt ++ rest, o⟩
  | skip {id : StmtId} {rest : List Task} {n : Nat} {o : Output} (gone : t.get? id = none) :
    Step t d ⟨n + 1, .visit id :: rest, o⟩ ⟨n, rest, o⟩
  | perform {task : Task} {rest : List Task} {n : Nat} {o : Output}
    (plain : task.visited? = none) :
    Step t d ⟨n, task :: rest, o⟩ ⟨n, rest, perform d.style o task⟩

/-- Any number of steps. -/
def Steps (t : Tree) (d : Dialect) : Moment → Moment → Prop := Relation.ReflTransGen (Step t d)

variable {m m' : Moment}

theorem run_visit {id : StmtId} {node : Node} {rest : List Task} (found : t.get? id = some node)
    (bound : Nat) (o : Output) : run t d (bound + 1) (.visit id :: rest) o =
      run t d bound (tasks t d id node.stmt ++ rest) o := by
  rw [run.eq_def]
  simp only [found]

theorem run_perform {task : Task} {rest : List Task} (plain : task.visited? = none) (bound : Nat)
    (o : Output) :
    run t d bound (task :: rest) o = run t d bound rest (perform d.style o task) := by
  rw [run.eq_def]
  cases task <;> first | rfl | cases plain

theorem Step.run_eq (h : Step t d m m') :
    run t d m.visits m.pending m.out = run t d m'.visits m'.pending m'.out := by
  cases h with
  | visit found => exact run_visit found ..
  | skip gone =>
    rw [run.eq_def]
    simp only [gone]
  | perform plain => exact run_perform plain ..

/-- Every moment of a run has the same end before it. -/
theorem Steps.run_eq (h : Steps t d m m') :
    run t d m.visits m.pending m.out = run t d m'.visits m'.pending m'.out := by
  induction h with
  | refl => rfl
  | tail _ step ih => exact ih.trans step.run_eq

/-! Levels. -/

/-- Pending tasks lead from that depth back to the outermost level, and never beyond it. -/
def Closes : Nat → List Task → Prop
  | depth, [] => depth = 0
  | depth, .indent :: rest => Closes (depth + 1) rest
  | depth, .dedent :: rest => 0 < depth ∧ Closes (depth - 1) rest
  | depth, _ :: rest => Closes depth rest

section closes
variable {depth : Nat} {rest : List Task}

@[simp] theorem closes_visits (ids : List StmtId) :
    Closes depth (ids.map .visit ++ rest) ↔ Closes depth rest := by
  induction ids with
  | nil => rfl
  | cons id ids ih => exact ih

@[simp] theorem closes_openBrace (header : String) :
    Closes depth (openBrace style header ++ rest) ↔ Closes depth rest := by
  unfold openBrace
  split <;> rfl

@[simp] theorem closes_enclosed (children : List StmtId) (suffix : String) :
    Closes depth (enclosed children suffix ++ rest) ↔ Closes depth rest := by
  simp [enclosed, Closes]

/-- A statement closes the levels that it opens. -/
theorem closes_tasks (id : StmtId) (s : Stmt) :
    Closes depth (tasks t d id s ++ rest) ↔ Closes depth rest := by
  cases s
  case block body =>
    simp only [tasks]
    split <;> simp [Closes]
  case pragma token =>
    simp only [tasks]
    cases d.pragma token.text <;> simp [Closes]
  case namespaceBlock =>
    simp only [tasks]
    split <;> simp
  case whileLoop condition body bodyFirst =>
    cases bodyFirst <;> simp only [tasks]
    · simp
    · split <;> simp [Closes]
  case returnJump value => cases value <;> simp [tasks, Closes]
  all_goals simp [tasks, Closes]

end closes

/-- The margin is in step with the depth, and the pending tasks close exactly the open levels. -/
structure Orderly (style : Style) (m : Moment) : Prop where
  margin : m.out.InStep style
  closes : Closes m.out.depth m.pending

theorem Step.orderly (h : Orderly d.style m) (step : Step t d m m') : Orderly d.style m' := by
  obtain ⟨margin, closes⟩ := h
  cases step with
  | visit => exact ⟨margin, (closes_tasks ..).mpr closes⟩
  | skip => exact ⟨margin, closes⟩
  | @perform task rest n o plain =>
    cases task with
    | visit => cases plain
    | line content => exact ⟨margin, closes⟩
    | outdented content => exact ⟨margin, closes⟩
    | continuation header =>
      obtain ⟨text, printed⟩ : ∃ text, o.continuation d.style header = { o with text } :=
        Output.continuation_eq header
      rw [Emission.perform, printed]
      exact ⟨margin, closes⟩
    | indent => exact ⟨margin.indent, closes⟩
    | dedent =>
      obtain ⟨inner, closes⟩ := closes
      refine ⟨margin.dedent, ?_⟩
      rwa [Emission.perform, Output.dedent, if_neg (Nat.ne_of_gt inner)]

theorem Steps.orderly (h : Orderly d.style m) (steps : Steps t d m m') : Orderly d.style m' := by
  induction steps with
  | refl => exact h
  | tail _ step ih => exact step.orderly ih

end KernelTree.Emission
