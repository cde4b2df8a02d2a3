import KernelTree.Proofs.Description.Growth
/-! The steps of building a tree. A step succeeds, or it reports the first clash of names so far.
Making a statement cannot fail where it fits, and names are declared one after the other. -/
namespace KernelTree

open KernelTree.Tree Outline

namespace Build

variable {t t' : Tree} {c id : StmtId} {span : Span} {bs bs' : List Binding} {s : Stmt}

/-- The step succeeds as `post` says, or it reports the first clash among the names declared until
it ends. -/
def Yields (m : BuildM α) (t : Tree) (bs : List Binding) (post : α → Tree → Prop) : Prop :=
  match m t with
  | .ok a t' => post a t'
  | .error e _ => FirstClash bs e

namespace Yields

theorem pure {post : α → Tree → Prop} {a : α} (h : post a t) :
    Yields (pure a : BuildM α) t bs post := h

theorem mono {m : BuildM α} {post post' : α → Tree → Prop} (h : Yields m t bs post)
    (weaker : ∀ a t', post a t' → post' a t') : Yields m t bs post' := by
  unfold Yields at h ⊢
  split at h
  next run => exact weaker _ _ h
  next => exact h

theorem bind {m : BuildM α} {next : α → BuildM β} {post : α → Tree → Prop}
    {post' : β → Tree → Prop} (first : Yields m t bs post) (longer : bs <+: bs')
    (later : ∀ a t', post a t' → Yields (next a) t' bs' post') :
    Yields (m >>= next) t bs' post' := by
  unfold Yields at first ⊢
  simp only [Bind.bind, EStateM.bind]
  cases run : m t with
  | ok a t' =>
    rw [run] at first
    exact later a t' first
  | error e t' =>
    rw [run] at first
    obtain ⟨more, rfl⟩ := longer
    exact first.append more

/-- A step that cannot fail. -/
theorem step {m : BuildM α} {next : α → BuildM β} {post : β → Tree → Prop} {a : α}
    (run : m t = .ok a t') (later : Yields (next a) t' bs post) :
    Yields (m >>= next) t bs post := by
  unfold Yields
  simp only [Bind.bind, EStateM.bind, run]
  exact later

end Yields

theorem onBehalf_ok {op : TreeM α} {a : α} (run : op t = .ok a t') :
    onBehalf span op t = .ok a t' := by
  rw [onBehalf, run]

theorem onBehalf_error {op : TreeM α} {cause : TreeError} (run : op t = .error cause t') :
    onBehalf span op t = .error { cause, span } t' := by
  rw [onBehalf, run]

theorem add_ok (fits : t.Addable s) : Build.add s span t = .ok t.nextId (t.extended s span) := by
  apply onBehalf_ok
  rw [add_run, checkAdd_ok_iff.mpr fits]

/-! Names. -/

theorem declare_yields {k : StmtKind} {name : String} (growing : t.Growing bs)
    (kind : t.kind? c = some k) (container : k.isContainer) (owned : t.parent? id = some c) :
    Yields (onBehalf span (Tree.declare c name id)) t
      (bs ++ [{ container := c, name, decl := id, span }])
      fun _ t' => t'.Growing (bs ++ [{ container := c, name, decl := id, span }]) ∧
        t.Rescoped c t' := by
  have live := contains_of_parent? owned
  have inside := (growing.isWithin_iff live).mpr (.step owned (.refl ..))
  have run : Tree.declare c name id t = _ := declare_run
  cases bound : t.named? c name with
  | none =>
    rw [checkDeclare_ok_iff.mpr ⟨live, ⟨k, kind, container⟩, inside, bound⟩] at run
    rw [Yields, onBehalf_ok run]
    exact ⟨growing.declare kind container owned bound, .one ..⟩
  | some existing =>
    obtain ⟨earlier, member, key, rfl⟩ := growing.named?_iff.mp bound
    have refused : t.checkDeclare c name id =
        .error (.duplicateDeclaration name c earlier.decl) := by
      obtain ⟨node, found⟩ := Option.isSome_iff_exists.mp live
      have required : (discard (t.require id) : Except TreeError Unit) = .ok () :=
        except_discard_ok.mpr ⟨node, require_ok_iff.mpr found⟩
      have fits := checkContainer_ok_iff.mpr ⟨k, kind, container⟩
      have bound : (t.scope? c).bind (·.get? name) = some earlier.decl := bound
      rw [checkDeclare, required, fits, inside, bound]
      rfl
    rw [refused] at run
    rw [Yields, onBehalf_error run]
    exact ⟨bs, _, [], rfl, growing.distinct, earlier, member, key, rfl⟩

theorem forM_declare_yields {k : StmtKind} (span : Span) (vars : List VarDecl)
    (growing : t.Growing bs) (kind : t.kind? c = some k) (container : k.isContainer)
    (owned : t.parent? id = some c) :
    Yields (vars.forM fun d => onBehalf span (Tree.declare c d.name.text id)) t
      (bs ++ vars.map fun d => { container := c, name := d.name.text, decl := id, span })
      fun _ t' => t'.Growing
        (bs ++ vars.map fun d => { container := c, name := d.name.text, decl := id, span }) ∧
        t.Rescoped c t' := by
  induction vars generalizing t bs with
  | nil =>
    rw [List.map_nil, List.append_nil]
    exact .pure ⟨growing, .refl ..⟩
  | cons d rest ih =>
    rw [List.map_cons, List.append_cons]
    simp only [List.forM_eq_forM, List.forM_cons] at ih ⊢
    apply (declare_yields growing kind container owned).bind (List.prefix_append ..)
    rintro - t₁ ⟨growing₁, rescoped⟩
    have later := ih growing₁ (rescoped.kind?_eq.trans kind) (rescoped.parent?_eq.trans owned)
    exact later.mono fun _ _ ⟨growing₂, rescoped'⟩ => ⟨growing₂, rescoped.trans rescoped'⟩

/-- The names of a statement are declared one after the other, all from the same place. -/
theorem declareNames_yields {k : StmtKind} (span : Span) (growing : t.Growing bs)
    (found : t.stmt? id = some s) (kind : t.kind? c = some k) (container : k.isContainer)
    (owned : t.parent? id = some c) :
    Yields (Build.declareNames c id span) t
      (bs ++ s.declared.map fun name => { container := c, name, decl := id, span })
      fun _ t' => t'.Growing
        (bs ++ s.declared.map fun name => { container := c, name, decl := id, span }) ∧
        t.Rescoped c t' := by
  obtain ⟨node, there, rfl⟩ := Option.map_eq_some_iff.mp found
  obtain ⟨parent, place, stmt⟩ := node
  have read : (get : BuildM Tree) t = .ok t t := rfl
  unfold Build.declareNames
  apply Yields.step read
  simp only [there]
  cases stmt
  case declaration vars =>
    simp only [Stmt.declared, List.map_map, Function.comp_def]
    exact forM_declare_yields span vars growing kind container owned
  all_goals
    simp only [Stmt.declared, List.map_nil, List.append_nil]
    exact .pure ⟨growing, .refl ..⟩

end Build
end KernelTree
