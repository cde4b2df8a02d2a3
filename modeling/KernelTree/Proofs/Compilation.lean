import KernelTree.Compilation
import KernelTree.Proofs.Description
import KernelTree.Proofs.Observation
/-! What compilation gives. Every target is printed from a copy of its own, and yet its text and its
fingerprint are those of the tree that was given. -/
namespace KernelTree

theorem allOrErrors_ok (f : α → β) (l : List α) :
    allOrErrors (ε := ε) (l.map fun a => .ok (f a)) = .ok (l.map f) := by
  induction l with
  | nil => rfl
  | cons a rest ih =>
    rw [List.map_cons, allOrErrors, ih]
    rfl

namespace Tree

variable {t : Tree}

/-- The text for one target, printed from the tree itself. -/
def outputFor (t : Tree) (options : CompileOptions) (d : Dialect) : TargetOutput where
  target := d.name
  extension := d.extension
  source := if options.prelude then Emission.emitProgram t d else Emission.emit t root d
  fingerprint := t.fingerprint root

/-- The copy for a target is never refused and never differs from its source. -/
theorem compileFor_eq (h : t.Rooted) (enclosed : t.Enclosed) (options : CompileOptions)
    (d : Dialect) :
    t.compileFor options (t.fingerprint root) d = .ok (t.outputFor options d) := by
  obtain ⟨copy, forked, -⟩ := enclosed.exists_fork h
  have alike := alike_of_fork h forked
  have program : Emission.emitProgram copy d = Emission.emitProgram t d := by
    rw [Emission.emitProgram, alike.text, Emission.emitProgram]
  rw [compileFor, forked]
  simp only [Except.mapError, outputFor]
  refine except_bind_ok.mpr ⟨_, rfl, ?_⟩
  rw [alike.fingerprint, if_neg (not_not.mpr rfl), program, alike.text]
  rfl

theorem allOrErrors_compileFor (h : t.Rooted) (enclosed : t.Enclosed) (dialects : List Dialect)
    (options : CompileOptions) :
    allOrErrors (dialects.map (t.compileFor options (t.fingerprint root))) =
      .ok (dialects.map (t.outputFor options)) := by
  rw [List.map_congr_left fun d _ => compileFor_eq h enclosed options d]
  exact allOrErrors_ok ..

/-- Whatever a compilation gives is printed from the tree itself. -/
theorem outputs_of_compile (h : Reachable Stmt.Bare t) {dialects : List Dialect}
    {options : CompileOptions} {c : Compilation} (compiled : t.compile dialects options = .ok c) :
    c.outputs = dialects.map (t.outputFor options) := by
  unfold compile at compiled
  simp only [allOrErrors_compileFor h.rooted h.enclosed] at compiled
  generalize (if options.validate then t.validate root else []) = findings at compiled
  split at compiled
  · cases compiled
    rfl
  · cases compiled

/-- A tree in which no error is found has a compilation. -/
theorem exists_compilation (h : Reachable Stmt.Bare t)
    (sound : ∀ finding ∈ t.validate root, finding.isError = false) (dialects : List Dialect)
    (options : CompileOptions) : ∃ c, t.compile dialects options = .ok c := by
  have none : (if options.validate then t.validate root else []).filter (·.isError) = [] := by
    rw [List.filter_eq_nil_iff]
    cases options.validate with
    | false => simp
    | true => simpa using sound
  unfold compile
  simp only [allOrErrors_compileFor h.rooted h.enclosed, none]
  exact ⟨_, rfl⟩

/-- Compilation fails exactly if errors are looked for and there are some, and then with them. Else
it gives the text of the tree in every dialect in turn, and the warnings that were looked for. -/
theorem compile_eq (h : Reachable Stmt.Bare t ∨ ∃ d : Description, d.toTree = .ok t)
    (dialects : List Dialect) (options : CompileOptions) :
    t.compile dialects options =
      if options.validate ∧ ∃ finding ∈ t.validate root, finding.isError then
        .error (((t.validate root).filter (·.isError)).map (·.toDiagnostic))
      else .ok {
        outputs := dialects.map (t.outputFor options)
        warnings := if options.validate then
          ((t.validate root).filter (!·.isError)).map (·.toDiagnostic) else [] } := by
  have reachable : Reachable Stmt.Bare t := by
    rcases h with reachable | ⟨d, built⟩
    · exact reachable
    · exact Build.reachable_of_toTree built
  unfold compile
  simp only [allOrErrors_compileFor reachable.rooted reachable.enclosed]
  cases options.validate with
  | false => rfl
  | true =>
    simp only [if_true, true_and]
    by_cases faulty : ∃ finding ∈ t.validate root, finding.isError
    · have some : ((t.validate root).filter (·.isError)).isEmpty = false := by simpa using faulty
      rw [some, if_pos faulty]
      rfl
    · have none : (t.validate root).filter (·.isError) = [] := by simpa using faulty
      rw [none, if_neg faulty]
      rfl

/-- A tree with an unattached statement, an empty slot and a declared name, in which a jump goes
nowhere. One of its targets is asked for twice. -/
theorem compile_eq_of_leftovers :
    let calls : List Change := [
      .addExpr (.ident ⟨.identifier, "a", .none⟩), .push root (.block .empty),
      .push ⟨2⟩ (.declaration []), .declare root "x" ⟨3⟩,
      .push ⟨2⟩ (.label ⟨.identifier, "end", .none⟩), .remove ⟨4⟩,
      .push ⟨2⟩ (.goto ⟨.identifier, "end", .none⟩)]
    let t := initial.run calls
    let dialects := [Dialect.serial, Dialect.cuda, Dialect.serial]
    (Reachable Stmt.Bare t ∨ ∃ d : Description, d.toTree = .ok t) ∧
      t.validate root = [.undefinedTarget "end" ⟨5⟩ .none] ∧
      t.compile dialects {} = .ok {
        outputs := dialects.map (t.outputFor {})
        warnings := [(Finding.undefinedTarget "end" ⟨5⟩ .none).toDiagnostic] } := by
  intro calls t dialects
  have made : Reachable Stmt.Bare t ∨ ∃ d : Description, d.toTree = .ok t :=
    .inl (Reachable.initial.run (by decide))
  have found : t.validate root = [.undefinedTarget "end" ⟨5⟩ .none] := by decide
  refine ⟨made, found, ?_⟩
  rw [compile_eq made, found]
  rfl

end Tree
end KernelTree
