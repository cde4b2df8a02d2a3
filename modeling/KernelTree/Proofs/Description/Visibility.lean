import KernelTree.Proofs.Description.Outcome
import KernelTree.Proofs.Lookup
/-! Which declarations of a description are found, and from where. The names at the level of a
container are those of its body and, for a loop, of the first part of its header. So a declaration
that is a condition, or another part of a header, is found from nowhere, and the names of the body
of a conditional are found from its condition and its other branches as well. -/
namespace KernelTree

open KernelTree.Tree

namespace Tree.Complete

variable {t : Tree} {bs : List Binding} {c p id x y f : StmtId} {s : Stmt} {name : String}
  (complete : t.Complete bs)
include complete

/-- A name stands for a statement of the level at which it is declared. -/
theorem level_of_named? (bound : t.named? c name = some id) :
    ∃ s, t.stmt? c = some s ∧ id ∈ s.level ∧ t.Declares id name := by
  have live : t.contains c := by
    by_contra absent
    rw [named?_of_not_contains (Bool.eq_false_iff.mpr absent)] at bound
    cases bound
  obtain ⟨s, found⟩ := exists_stmt live
  exact ⟨s, found, (complete.names c s found name id).mp bound⟩

theorem owner_of_named? (bound : t.named? c name = some id) : t.parent? id = some c := by
  obtain ⟨s, found, inside, -⟩ := complete.level_of_named? bound
  exact complete.mem_owned_iff.mp (owned_of_stmt? found ▸ s.level_subset inside)

/-- A child and a branch of a conditional are two statements of one owner. -/
theorem branch_apart {condition : StmtId} {body : Block} {elifs : List StmtId}
    {last : Option StmtId} (found : t.stmt? f = some (.conditional condition body elifs last))
    (child : x ∈ body.children) (branch : y ∈ condition :: (elifs ++ last.toList)) :
    t.parent? x = some f ∧ t.parent? y = some f ∧ x ≠ y := by
  have owned : t.owned f = condition :: (body.children ++ elifs ++ last.toList) :=
    owned_of_stmt? found
  have nodup := complete.nodup_owned f
  rw [owned] at nodup
  refine ⟨complete.mem_owned_iff.mp ?_, complete.mem_owned_iff.mp ?_, ?_⟩
  · rw [owned]
    simp [child]
  · rw [owned]
    simp only [List.mem_cons, List.mem_append] at branch ⊢
    tauto
  · rintro rfl
    simp only [List.nodup_cons, List.nodup_append, List.mem_append, List.mem_cons] at nodup branch
    grind

end Tree.Complete

namespace Description

variable {d : Description} {t : Tree}

theorem complete_of_toTree (built : d.toTree = .ok t) : t.Complete d.bindings := by
  obtain ⟨t', built', complete, -⟩ | ⟨e, refused, -⟩ := d.toTree_cases
  · cases built.symm.trans built'
    exact complete
  · cases built.symm.trans refused

section
variable {id p : StmtId} {s : Stmt} {name : String}

/-- A declaration is found from where it stands if it belongs to the level of its owner: if it is a
child or the first part of the header of a loop. Otherwise, as a condition or another part of such
a header, it is found from nowhere. -/
theorem resolve_declaration (built : d.toTree = .ok t) (declares : t.Declares id name)
    (around : t.stmt? p = some s) (owned : id ∈ s.owned) :
    (id ∈ s.children ∨ s.init? = some id → t.resolve id name = some id) ∧
    (id ∉ s.children ∧ s.init? ≠ some id → ∀ start, t.resolve start name ≠ some id) := by
  have complete := complete_of_toTree built
  have owner : t.parent? id = some p := complete.mem_owned_iff.mp (owned_of_stmt? around ▸ owned)
  have level : id ∈ s.level ↔ id ∈ s.children ∨ s.init? = some id := by
    rw [Stmt.level, List.mem_append, Option.mem_toList, or_comm]
  constructor
  · intro inside
    have bound := (complete.names p s around name id).mpr ⟨level.mpr inside, declares⟩
    have free : t.named? id name = none := by
      obtain ⟨own, found, member⟩ := declares
      rw [named?_eq, found]
      cases own <;> first | rfl | cases member
    exact resolve_eq_some_iff.mpr ⟨p, complete.seen_owner owner free, bound⟩
  · rintro ⟨notChild, notFirst⟩ start resolved
    obtain ⟨c, -, bound⟩ := resolve_eq_some_iff.mp resolved
    cases Option.some.inj (owner.symm.trans (complete.owner_of_named? bound))
    obtain ⟨s', found', inside, -⟩ := complete.level_of_named? bound
    cases Option.some.inj (around.symm.trans found')
    exact (level.mp inside).elim notChild notFirst

/-- The first part of the header of a loop declares two names, and its test declares another. -/
theorem resolve_declaration_of_loop :
    let var (name : String) : VarDecl := {
      name := ⟨.identifier, name, .none⟩, type := { name := "int" } }
    let d : Description := { statements := [
      .forLoop .none (some (.leaf .none (.declaration [var "j", var "k"])))
        (some (.leaf .none (.declaration [var "q"]))) none [.leaf .none .breakJump]] }
    ∃ t, d.toTree = .ok t ∧ t.Declares ⟨1⟩ "k" ∧ t.resolve ⟨1⟩ "k" = some ⟨1⟩ ∧
      t.Declares ⟨2⟩ "q" ∧ ∀ start, t.resolve start "q" ≠ some ⟨2⟩ := by
  intro var d
  obtain ⟨t, built, seen⟩ := d.exists_of_seen (p := fun t =>
    (t.stmt? ⟨1⟩).map (·.declared) = some ["j", "k"] &&
    (t.stmt? ⟨2⟩).map (·.declared) = some ["q"] &&
    (t.stmt? ⟨3⟩).map (fun s => (s.owned, s.children, s.init?)) =
      some ([⟨1⟩, ⟨2⟩, ⟨4⟩], [⟨4⟩], some ⟨1⟩)) (by decide +kernel)
  simp only [Bool.and_eq_true, decide_eq_true_eq, Option.map_eq_some_iff, Prod.mk.injEq] at seen
  obtain ⟨⟨⟨s₁, first, names₁⟩, s₂, second, names₂⟩, s, around, owned, children, init⟩ := seen
  have declares₁ : t.Declares ⟨1⟩ "k" := ⟨s₁, first, by simp [names₁]⟩
  have declares₂ : t.Declares ⟨2⟩ "q" := ⟨s₂, second, by simp [names₂]⟩
  exact ⟨t, built, declares₁,
    (resolve_declaration built declares₁ around (by simp [owned])).1 (.inr init), declares₂,
    (resolve_declaration built declares₂ around (by simp [owned])).2 (by simp [children, init])⟩

/-- A declaration that is the condition of a loop is not found from where it stands. -/
theorem not_resolve_declaration :
    ¬ ∀ (d : Description) (t : Tree), d.toTree = .ok t → ∀ (id : StmtId) (name : String),
      t.Declares id name → t.resolve id name = some id := by
  intro found
  let var : VarDecl := { name := ⟨.identifier, "k", .none⟩, type := { name := "int" } }
  let d : Description := { statements := [
    .whileLoop .none (.leaf .none (.declaration [var])) [] false] }
  obtain ⟨t, built, seen⟩ := d.exists_of_seen (p := fun t =>
    (t.stmt? ⟨1⟩).map (·.declared) = some ["k"] && t.resolve ⟨1⟩ "k" = none) (by decide +kernel)
  simp only [Bool.and_eq_true, decide_eq_true_eq, Option.map_eq_some_iff] at seen
  obtain ⟨⟨s, there, names⟩, missing⟩ := seen
  cases missing.symm.trans (found d t built ⟨1⟩ "k" ⟨s, there, by simp [names]⟩)

end

section
variable {f child decl branch start : StmtId} {condition : StmtId} {body : Block}
  {elifs : List StmtId} {last : Option StmtId} {name : String}

/-- From the condition or another branch of a conditional, of all that stands in its body the
declarations of the body itself are found, unless something nearer has the name, and no others. -/
theorem resolve_across_branches (built : d.toTree = .ok t)
    (found : t.stmt? f = some (.conditional condition body elifs last))
    (inside : child ∈ body.children) (below : t.Within decl child)
    (beside : branch ∈ condition :: (elifs ++ last.toList)) (within : t.Within start branch) :
    t.resolve start name = some decl ↔
      decl ∈ body.children ∧ t.Declares decl name ∧ t.Seen start name f := by
  have complete := complete_of_toTree built
  obtain ⟨childOwner, branchOwner, apart⟩ := complete.branch_apart found inside beside
  constructor
  · intro resolved
    obtain ⟨c, seen, bound⟩ := resolve_eq_some_iff.mp resolved
    have owner := complete.owner_of_named? bound
    rcases below.cases with rfl | ⟨c', owner', beneath⟩
    · cases Option.some.inj (owner.symm.trans childOwner)
      obtain ⟨s, found', -, declares⟩ := complete.level_of_named? bound
      exact ⟨inside, declares, seen⟩
    · -- The level is that of a statement inside the child, where nothing of the branch stands.
      cases Option.some.inj (owner.symm.trans owner')
      have live := within.contains (contains_of_parent? branchOwner)
      have around : t.Within start c := (complete.mem_ancestors_iff live).mp seen.around
      exact absurd
        (complete.eq_of_common childOwner branchOwner (around.trans beneath) within) apart
  · rintro ⟨member, declares, seen⟩
    exact resolve_eq_some_iff.mpr
      ⟨f, seen, (complete.names f _ found name decl).mpr ⟨member, declares⟩⟩

/-- The body of a conditional declares a name and, in a block, another one. From the condition of
the further branch the former is found, and the latter is not. -/
theorem resolve_across_branches_of_chain :
    let value : Item := .leaf .none (.expression (.ident ⟨.identifier, "a", .none⟩))
    let var (name : String) : Item := .leaf .none (.declaration [{
      name := ⟨.identifier, name, .none⟩, type := { name := "int" } }])
    let d : Description := { statements := [
      .conditional .none value [var "x", .block .none [var "y"]] [.elif value []] none] }
    ∃ t, d.toTree = .ok t ∧ t.Within ⟨6⟩ ⟨7⟩ ∧ t.resolve ⟨6⟩ "x" = some ⟨3⟩ ∧
      t.Within ⟨5⟩ ⟨4⟩ ∧ t.Declares ⟨5⟩ "y" ∧ t.resolve ⟨6⟩ "y" ≠ some ⟨5⟩ := by
  intro value var d
  obtain ⟨t, built, seen⟩ := d.exists_of_seen (p := fun t =>
    (t.stmt? ⟨2⟩).map (fun s => (s.kind, s.children, s.elifs)) =
      some (.conditional, [⟨3⟩, ⟨4⟩], [⟨7⟩]) &&
    (t.stmt? ⟨3⟩).map (·.declared) = some ["x"] && (t.stmt? ⟨5⟩).map (·.declared) = some ["y"] &&
    t.parent? ⟨5⟩ = some ⟨4⟩ && t.parent? ⟨6⟩ = some ⟨7⟩ &&
    t.ancestors ⟨6⟩ = [⟨6⟩, ⟨7⟩, ⟨2⟩, root] &&
    t.named? ⟨6⟩ "x" = none && t.named? ⟨7⟩ "x" = none) (by decide +kernel)
  simp only [Bool.and_eq_true, decide_eq_true_eq, Option.map_eq_some_iff, Prod.mk.injEq,
    and_assoc] at seen
  obtain ⟨⟨s, found, kind, children, elifs⟩, ⟨s₃, there₃, names₃⟩, ⟨s₅, there₅, names₅⟩, owner₅,
    owner₆, around, free₆, free₇⟩ := seen
  obtain ⟨condition, body, others, last, rfl⟩ :
      ∃ condition body others last, s = .conditional condition body others last := by
    cases s <;> first | exact ⟨_, _, _, _, rfl⟩ | cases kind
  change body.children = [⟨3⟩, ⟨4⟩] at children
  change others = [⟨7⟩] at elifs
  have below : t.Within ⟨5⟩ ⟨4⟩ := .step owner₅ (.refl ..)
  have within : t.Within ⟨6⟩ ⟨7⟩ := .step owner₆ (.refl ..)
  have beside : (⟨7⟩ : StmtId) ∈ condition :: (others ++ last.toList) := by simp [elifs]
  have visible : t.Seen ⟨6⟩ "x" ⟨2⟩ :=
    ⟨[⟨6⟩, ⟨7⟩], [root], around, by simp [free₆, free₇]⟩
  refine ⟨t, built, within, ?_, below, ⟨s₅, there₅, by simp [names₅]⟩, ?_⟩
  · have member : (⟨3⟩ : StmtId) ∈ body.children := by simp [children]
    exact (resolve_across_branches built found member (.refl ..) beside within).mpr
      ⟨member, ⟨s₃, there₃, by simp [names₃]⟩, visible⟩
  · intro resolved
    have member : (⟨4⟩ : StmtId) ∈ body.children := by simp [children]
    have direct := ((resolve_across_branches built found member below beside within).mp
      resolved).1
    simp [children] at direct

/-- A name declared in the body of a conditional is found from a further branch of it. -/
theorem not_resolve_across_branches :
    ¬ ∀ (d : Description) (t : Tree), d.toTree = .ok t → ∀ (f : StmtId) (s : Stmt),
      t.stmt? f = some s → s.kind = .conditional → ∀ child ∈ s.children, ∀ decl,
      t.Within decl child → ∀ branch ∈ s.slots, ∀ start, t.Within start branch → ∀ name,
        t.resolve start name ≠ some decl := by
  intro hidden
  let value : Item := .leaf .none (.expression (.ident ⟨.identifier, "a", .none⟩))
  let var : VarDecl := { name := ⟨.identifier, "x", .none⟩, type := { name := "int" } }
  let d : Description := { statements := [
    .conditional .none value [.leaf .none (.declaration [var])] [] (some [])] }
  obtain ⟨t, built, seen⟩ := d.exists_of_seen (p := fun t =>
    (t.stmt? ⟨2⟩).map (fun s => (s.kind, s.children, s.slots)) =
      some (.conditional, [⟨3⟩], [⟨1⟩, ⟨4⟩]) && t.resolve ⟨4⟩ "x" = some ⟨3⟩) (by decide +kernel)
  simp only [Bool.and_eq_true, decide_eq_true_eq, Option.map_eq_some_iff, Prod.mk.injEq] at seen
  obtain ⟨⟨s, found, kind, children, slots⟩, resolved⟩ := seen
  exact hidden d t built ⟨2⟩ s found kind ⟨3⟩ (by simp [children]) ⟨3⟩ (.refl ..) ⟨4⟩
    (by simp [slots]) ⟨4⟩ (.refl ..) "x" resolved

end

end Description
end KernelTree
