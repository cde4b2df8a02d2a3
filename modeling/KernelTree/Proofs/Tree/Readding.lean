import KernelTree.Proofs.Tree.Scoping
/-! Statements made of what a live statement is. What owns something is refused a second time; what
owns nothing may still have names of its own, and these stay with the statement they were declared
for. -/
namespace KernelTree.Tree

variable {t : Tree} {s d : StmtId} {p : Stmt} {span : Span}

/-- Names that are declared in a statement which owns nothing are bound to the statement. -/
theorem Enclosed.eq_of_mem_targets (enclosed : t.Enclosed) (h : t.Linked)
    (found : t.stmt? s = some p) (alone : p.owned = []) (bound : d ∈ p.targets) : d = s := by
  rcases (enclosed s p found d bound).cases_tail with same | ⟨child, -, owned⟩
  · exact same.symm
  · have member := h.mem_owned_iff.mpr owned
    rw [owned_of_stmt? found, alone] at member
    cases member

theorem bare_iff_of_owned (alone : p.owned = []) : p.Bare ↔ p.targets = [] := by
  refine ⟨Stmt.targets_of_bare, fun none body there => ?_⟩
  have there := Option.mem_def.mp there
  constructor
  · cases p <;> simp_all [Stmt.owned, Stmt.children, Stmt.body?]
  · simpa [Stmt.targets, there, Scope.targets] using none

/-- The names in a second statement of the same make stay inside it exactly if there are none. -/
theorem Enclosed.extended_iff (enclosed : t.Enclosed) (h : t.Linked) (found : t.stmt? s = some p)
    (alone : p.owned = []) : (t.extended p span).Enclosed ↔ p.targets = [] := by
  have fits : t.Addable p := by constructor <;> simp [alone]
  constructor
  · intro sound
    by_contra named
    obtain ⟨d, bound⟩ := List.exists_mem_of_ne_nil _ named
    have same := enclosed.eq_of_mem_targets h found alone bound
    have inside := sound t.nextId p (by rw [stmt?_extended, if_pos rfl]) d bound
    rcases inside.cases_tail with self | ⟨child, -, owned⟩
    · have live := contains_of_stmt? found
      simp [← same, ← self, not_contains_nextId] at live
    · rw [parent?_extended fits, if_neg (by simp [alone])] at owned
      have live := h.contains_owner owned
      simp [not_contains_nextId] at live
  · intro none
    exact enclosed.extended ((bare_iff_of_owned alone).mpr none) fits

/-- What a live statement is, as a payload. It is refused if it owns something. Else it makes a
statement whose names are bound to the first one, and these are sound only if there are none. -/
theorem Reachable.add_again (h : Reachable Stmt.Bare t) (found : t.stmt? s = some p) (span : Span) :
    (p.owned ≠ [] → ∃ e, add p span t = .error e t) ∧
      (p.owned = [] → add p span t = .ok t.nextId (t.extended p span) ∧
        (t.extended p span).stmt? t.nextId = some p ∧ (∀ d ∈ p.targets, d = s) ∧
        ((t.extended p span).Enclosed ↔ p.targets = [])) := by
  have linked := h.rooted.toLinked
  constructor
  · intro some
    obtain ⟨c, member⟩ := List.exists_mem_of_ne_nil _ some
    have owned := linked.parent?_of_mem found member
    rw [add_run]
    cases checked : t.checkAdd p with
    | error e => exact ⟨e, rfl⟩
    | ok done => cases owned.symm.trans ((checkAdd_ok_iff.mp checked).free c member)
  · intro alone
    have fits : t.Addable p := by constructor <;> simp [alone]
    refine ⟨?_, ?_, fun d => h.enclosed.eq_of_mem_targets linked found alone,
      h.enclosed.extended_iff linked found alone⟩
    · rw [add_run, checkAdd_ok_iff.mpr fits]
    · rw [stmt?_extended, if_pos rfl]

/-- The parameter of a function is bound to the function. The same function, added again, cannot be
copied, and its parameter stands for nothing when the first one has been removed. -/
theorem not_sound_of_add_again :
    let sig : Signature := { name := ⟨.identifier, "f", .none⟩, returns := { name := "void" } }
    let t := initial.run [.push root (.function sig .empty), .declare ⟨1⟩ "n" ⟨1⟩]
    Reachable Stmt.Bare t ∧ ∃ p, t.stmt? ⟨1⟩ = some p ∧
      let again := (add p .none).after t
      let removed := (remove ⟨1⟩).after again
      (∃ left, clone ⟨2⟩ none again = .error (.unsupportedClone ⟨2⟩ ⟨1⟩ .scopeOutside) left) ∧
        removed.resolve ⟨2⟩ "n" = some ⟨1⟩ ∧ removed.contains ⟨1⟩ = false := by
  intro sig t
  have seen : (t.stmt? ⟨1⟩).any fun p =>
      let again := (add p .none).after t
      let removed := (remove ⟨1⟩).after again
      (match clone ⟨2⟩ none again with
        | .error e _ => e = .unsupportedClone ⟨2⟩ ⟨1⟩ .scopeOutside
        | .ok .. => false) &&
        removed.resolve ⟨2⟩ "n" = some ⟨1⟩ && !removed.contains ⟨1⟩ := by decide +kernel
  obtain ⟨p, found, facts⟩ := (Option.any_eq_true ..).mp seen
  simp only [Bool.and_eq_true, decide_eq_true_eq, Bool.not_eq_true'] at facts
  obtain ⟨⟨refused, bound⟩, gone⟩ := facts
  refine ⟨Reachable.initial.run (by decide), p, found, ?_, bound, gone⟩
  split at refused
  next cause left run =>
    rw [decide_eq_true_eq] at refused
    exact ⟨left, refused ▸ run⟩
  next => cases refused

end KernelTree.Tree
