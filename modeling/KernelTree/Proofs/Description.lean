import KernelTree.Description.Build
import KernelTree.Proofs.Tree.Scoping
/-! Trees of descriptions. Building makes every statement with an empty block and fills the block
by operations on the tree, so the result is a tree that operations make. -/
namespace KernelTree

namespace Build

open KernelTree.Tree (Reachable Change)

/-- Success leaves behind a tree that operations make, if there was one before. -/
def Keeps (m : BuildM α) : Prop :=
  ∀ t a t', Reachable Stmt.Bare t → m t = .ok a t' → Reachable Stmt.Bare t'

namespace Keeps

theorem pure (a : α) : Keeps (pure a) := by
  rintro t _ _ h ⟨⟩
  exact h

theorem bind {m : BuildM α} {next : α → BuildM β} (first : Keeps m) (later : ∀ a, Keeps (next a)) :
    Keeps (m >>= next) := by
  intro t b t'' h run
  simp only [Bind.bind, EStateM.bind] at run
  cases step : m t with
  | error e t' => simp [step] at run
  | ok a t' =>
    rw [step] at run
    exact later a t' b t'' (first t a t' h step) run

theorem get : Keeps (MonadState.get : BuildM Tree) := by
  rintro t _ _ h ⟨⟩
  exact h

theorem forM {f : α → BuildM PUnit} (each : ∀ a, Keeps (f a)) (l : List α) : Keeps (l.forM f) := by
  induction l with
  | nil => exact pure _
  | cons a rest ih => exact (each a).bind fun _ => ih

theorem onBehalf {op : TreeM α}
    (keeps : ∀ t, Reachable Stmt.Bare t → Reachable Stmt.Bare (op.after t)) (span : Span) :
    Keeps (Build.onBehalf span op) := by
  intro t a t' h run
  have left := keeps t h
  rw [Build.onBehalf] at run
  cases step : op t with
  | error e t₁ => simp [step] at run
  | ok b t₁ =>
    rw [TreeM.after_ok step] at left
    rw [step] at run
    cases run
    exact left

theorem add {s : Stmt} (bare : s.Bare) (span : Span) : Keeps (Build.add s span) :=
  onBehalf (fun _ h => h.change (.add s span) (by rintro _ ⟨⟩; exact bare)) span

theorem append (span : Span) (owner id : StmtId) :
    Keeps (Build.onBehalf span (Tree.append owner id)) :=
  onBehalf (fun _ h => h.change (.append owner id) nofun) span

theorem addElif (span : Span) (owner id : StmtId) :
    Keeps (Build.onBehalf span (Tree.addElif owner id)) :=
  onBehalf (fun _ h => h.change (.addElif owner id) nofun) span

theorem setElse (span : Span) (owner id : StmtId) :
    Keeps (Build.onBehalf span (Tree.setElse owner id)) :=
  onBehalf (fun _ h => h.change (.setElse owner id) nofun) span

theorem declareNames (container id : StmtId) (span : Span) :
    Keeps (Build.declareNames container id span) := by
  apply get.bind
  intro t
  split
  next =>
    apply forM
    intro d
    exact onBehalf (fun _ h => h.change (.declare container d.name.text id) nofun) span
  next => exact pure _

/-- A container is made empty and filled afterwards. -/
theorem filled {s : Stmt} {fill : StmtId → BuildM Unit} (bare : s.Bare) (span : Span)
    (fills : ∀ id, Keeps (fill id)) : Keeps (do
      let id ← Build.add s span
      fill id
      return id) :=
  (add bare span).bind fun id => (fills id).bind fun _ => pure id

end Keeps

theorem bare_leaf (span : Span) (leaf : Leaf) : (leaf.toStmt span).Bare := by
  cases leaf <;> exact nofun

/-- A container is bare if its block is the empty one. -/
theorem bare_of_empty {s : Stmt} (empty : s.body? = some .empty) : s.Bare := by
  intro body found
  cases Option.some.inj (empty.symm.trans found)
  exact ⟨rfl, rfl⟩

mutual

theorem item_keeps : ∀ i : Item, Keeps (item i)
  | .leaf span leaf => by
    rw [item]
    exact .add (bare_leaf span leaf) span
  | .block span body => by
    rw [item]
    exact .filled (bare_of_empty rfl) span fun id => children_keeps id body
  | .function span sig body => by
    rw [item]
    exact .filled (bare_of_empty rfl) span fun id => children_keeps id body
  | .namespaceBlock span name body => by
    rw [item]
    exact .filled (bare_of_empty rfl) span fun id => children_keeps id body
  | .conditional span condition body arms otherwise => by
    rw [item]
    apply (item_keeps condition).bind
    intro test
    apply (Keeps.add (bare_of_empty rfl) span).bind
    intro id
    exact (children_keeps id body).bind fun _ => (entries_keeps id arms).bind fun _ =>
      (final_keeps id span otherwise).bind fun _ => .pure id
  | .forLoop span init test update body => by
    rw [item]
    refine (part_keeps init).bind fun first => (part_keeps test).bind fun second =>
      (part_keeps update).bind fun third => (Keeps.add (bare_of_empty rfl) span).bind fun id => ?_
    have rest : Keeps (do children id body; return id) :=
      (children_keeps id body).bind fun _ => .pure id
    cases first with
    | none => exact rest
    | some first => exact (Keeps.declareNames id first span).bind fun _ => rest
  | .whileLoop span condition body bodyFirst => by
    rw [item]
    exact (item_keeps condition).bind fun test =>
      .filled (bare_of_empty rfl) span fun id => children_keeps id body
  | .switch span condition body => by
    rw [item]
    exact (item_keeps condition).bind fun test =>
      .filled (bare_of_empty rfl) span fun id => children_keeps id body

theorem part_keeps : ∀ o : Option Item, Keeps (part o)
  | none => by
    rw [part]
    exact .pure none
  | some i => by
    rw [part]
    exact (item_keeps i).bind fun id => .pure (some id)

theorem children_keeps : ∀ (owner : StmtId) (items : List Item), Keeps (children owner items)
  | _, [] => by
    rw [children]
    exact .pure ()
  | owner, i :: rest => by
    rw [children]
    exact (item_keeps i).bind fun id => (Keeps.append i.span owner id).bind fun _ =>
      (Keeps.declareNames owner id i.span).bind fun _ => children_keeps owner rest

theorem entries_keeps : ∀ (owner : StmtId) (arms : List Arm), Keeps (entries owner arms)
  | _, [] => by
    rw [entries]
    exact .pure ()
  | owner, .elif condition body :: rest => by
    rw [entries]
    exact (item_keeps condition).bind fun test =>
      (Keeps.add (bare_of_empty rfl) condition.span).bind fun id =>
      (Keeps.addElif condition.span owner id).bind fun _ =>
      (children_keeps id body).bind fun _ => entries_keeps owner rest

theorem final_keeps : ∀ (owner : StmtId) (span : Span) (body : Option (List Item)),
    Keeps (final owner span body)
  | _, _, none => by
    rw [final]
    exact .pure ()
  | owner, span, some body => by
    rw [final]
    exact (Keeps.add (bare_of_empty rfl) span).bind fun id =>
      (Keeps.setElse span owner id).bind fun _ => children_keeps id body

end

/-- The tree of a description is one that operations make. -/
theorem reachable_of_toTree {d : Description} {t : Tree} (built : d.toTree = .ok t) :
    Reachable Stmt.Bare t := by
  rw [Description.toTree] at built
  cases run : children Tree.root d.statements Tree.initial with
  | error e t' => simp [run] at built
  | ok done t' =>
    rw [run] at built
    cases built
    exact children_keeps Tree.root d.statements _ _ _ .initial run

end Build

/-- What is seen of the tree of a description shows that the description has one. -/
theorem Description.exists_of_seen {d : Description} {p : Tree → Bool}
    (seen : d.toTree.toOption.any p) : ∃ t, d.toTree = .ok t ∧ p t :=
  except_exists_of_any seen

end KernelTree
