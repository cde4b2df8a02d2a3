import KernelTree.Proofs.Tree.Isomorphism
import Mathlib.Data.Set.Function
/-! Forks as canonical forms. The numbers in a fork are places in the preorder of what was forked,
so nothing is left in it of how a tree was built. Trees have the same fork when they say the same
beneath their roots. -/
namespace KernelTree.Tree

variable {t t' t₁ t₂ t₃ f f₁ f₂ : Tree} {x : StmtId} {ρ σ : StmtId → StmtId}

/-- What is reachable from the roots of two trees is the same up to the numbers of statements. Along
the preorder, where `ρ` leads from one tree to the other, the statements say the same and have the
same spans. -/
structure Corresponds (t₁ : Tree) (ρ : StmtId → StmtId) (t₂ : Tree) : Prop where
  preorder : t₂.preorder root = (t₁.preorder root).map ρ
  stmt? : ∀ x ∈ t₁.preorder root, t₂.stmt? (ρ x) = (t₁.stmt? x).map (Stmt.map ρ)
  span? : ∀ x ∈ t₁.preorder root, (t₂.get? (ρ x)).map Node.span = (t₁.get? x).map Node.span

/-- Two trees are the same beneath their roots, however they came about. -/
def Congruent (t₁ t₂ : Tree) : Prop := ∃ ρ, Corresponds t₁ ρ t₂

/-- All that is mentioned beneath the root lies beneath the root. -/
theorem Reachable.mentioned (h : Reachable Stmt.Bare t) (member : x ∈ t.preorder root)
    (found : t.stmt? x = some s) : s.owned ++ s.targets ⊆ t.preorder root := by
  have linked := h.rooted.toLinked
  have live := h.rooted.contains_root
  apply List.append_subset.mpr
  constructor
  · rw [← owned_of_stmt? found]
    exact (linked.walk_preorder live).owned_subset member
  · exact h.enclosed.closed linked live x member s found

theorem Reachable.nodup_preorder_root (h : Reachable Stmt.Bare t) : (t.preorder root).Nodup :=
  h.rooted.nodup_preorder h.rooted.contains_root

namespace Corresponds

variable (same : Corresponds t₁ ρ t₂)
include same

theorem mem_image (member : x ∈ t₁.preorder root) : ρ x ∈ t₂.preorder root :=
  same.preorder ▸ List.mem_map_of_mem member

theorem injOn (h₂ : Reachable Stmt.Bare t₂) : Set.InjOn ρ {x | x ∈ t₁.preorder root} :=
  fun _ member _ member' => List.inj_on_of_nodup_map (same.preorder ▸ h₂.nodup_preorder_root)
    member member'

theorem trans (next : Corresponds t₂ σ t₃) : Corresponds t₁ (σ ∘ ρ) t₃ where
  preorder := by rw [next.preorder, same.preorder, List.map_map]
  stmt? x member := by
    rw [Function.comp_apply, next.stmt? _ (same.mem_image member), same.stmt? x member,
      Option.map_map]
    congr 1
    funext s
    exact Stmt.map_map ρ σ s
  span? x member := (next.span? _ (same.mem_image member)).trans (same.span? x member)

variable (h₁ : Reachable Stmt.Bare t₁) (h₂ : Reachable Stmt.Bare t₂)
include h₁ h₂

/-- Each statement has been reached from one, to which a way leads back. -/
theorem symm : Congruent t₂ t₁ := by
  let σ := Function.invFunOn ρ {x | x ∈ t₁.preorder root}
  have back (x : StmtId) (member : x ∈ t₁.preorder root) : σ (ρ x) = x :=
    (same.injOn h₂).leftInvOn_invFunOn member
  refine ⟨σ, ?_, ?_, ?_⟩
  · rw [same.preorder, List.map_map]
    exact (List.map_id _).symm.trans (List.map_congr_left fun x member => (back x member).symm)
  · rw [same.preorder, List.forall_mem_map]
    intro x member
    rw [back x member, same.stmt? x member]
    cases found : t₁.stmt? x with
    | none => rfl
    | some s =>
      have fixed : s.map (σ ∘ ρ) = s.map fun x => x :=
        Stmt.map_congr fun y mentioned => back y (h₁.mentioned member found mentioned)
      simp [fixed]
  · rw [same.preorder, List.forall_mem_map]
    intro x member
    rw [back x member, same.span? x member]

theorem top : ρ root = root := by
  have listed := same.preorder
  rw [h₁.rooted.preorder_eq h₁.rooted.contains_root,
    h₂.rooted.preorder_eq h₂.rooted.contains_root, List.map_cons] at listed
  exact (List.cons.inj listed).1.symm

theorem top_iff (member : x ∈ t₁.preorder root) : ρ x = root ↔ x = root := by
  have first := same.top h₁ h₂
  constructor
  · intro here
    have below : root ∈ t₁.preorder root :=
      h₁.rooted.mem_preorder_self h₁.rooted.contains_root
    exact same.injOn h₂ member below (here.trans first.symm)
  · rintro rfl
    exact first

/-- Statements that correspond have the same place, and so the same number in copies. -/
theorem image_eq {base : Nat} (member : x ∈ t₁.preorder root) :
    t₂.image root base (ρ x) = t₁.image root base x := by
  obtain ⟨i, bound, rfl⟩ := List.getElem_of_mem member
  have bound₂ : i < (t₂.preorder root).length := by rwa [same.preorder, List.length_map]
  have place : ρ (t₁.preorder root)[i] = (t₂.preorder root)[i] := by simp [same.preorder]
  rw [place, h₁.rooted.image_getElem h₁.rooted.contains_root,
    h₂.rooted.image_getElem h₂.rooted.contains_root]

theorem parent?_eq (member : x ∈ t₁.preorder root) (beneath : x ≠ root) :
    t₂.parent? (ρ x) = (t₁.parent? x).map ρ := by
  have linked := h₁.rooted.toLinked
  have inside := fun {x} => linked.mem_preorder_iff (x := x) h₁.rooted.contains_root
  rcases (inside.mp member).cases with here | ⟨p, owned, within⟩
  · exact absurd here beneath
  · rw [owned, Option.map_some, ← h₂.rooted.mem_owned_iff, owned_eq,
      same.stmt? p (inside.mpr within)]
    have listed := linked.mem_owned_iff.mpr owned
    rw [owned_eq] at listed
    cases found : t₁.stmt? p with
    | none => simp [found] at listed
    | some s =>
      rw [found] at listed
      simpa using List.mem_map_of_mem listed

theorem image_parent? {base : Nat} (member : x ∈ t₁.preorder root) (beneath : x ≠ root) :
    (t₂.parent? (ρ x)).map (t₂.image root base) = (t₁.parent? x).map (t₁.image root base) := by
  have inside := fun {x} => h₁.rooted.mem_preorder_iff (x := x) h₁.rooted.contains_root
  rcases (inside.mp member).cases with here | ⟨p, owned, within⟩
  · exact absurd here beneath
  · rw [same.parent?_eq h₁ h₂ member beneath, owned, Option.map_some, Option.map_some,
      Option.map_some, same.image_eq h₁ h₂ (inside.mpr within)]

/-- Statements that correspond have the same copies. -/
theorem node_image (member : x ∈ t₁.preorder root) :
    (t₂.get? (ρ x)).map (Node.image (t₂.image root 0) root (ρ x)) =
      (t₁.get? x).map (Node.image (t₁.image root 0) root x) := by
  have walk := h₁.rooted.walk_preorder h₁.rooted.contains_root
  have live := walk.contains_of_mem member
  obtain ⟨node, found⟩ := Option.isSome_iff_exists.mp live
  obtain ⟨node', found', stmt⟩ : ∃ node', t₂.get? (ρ x) = some node' ∧
      node'.stmt = node.stmt.map ρ := by
    have there := same.stmt? x member
    rw [stmt?_of_get? found] at there
    exact Option.map_eq_some_iff.mp there
  have span : node'.span = node.span := by simpa [found, found'] using same.span? x member
  have renamed : node'.stmt.map (t₂.image root 0) = node.stmt.map (t₁.image root 0) := by
    rw [stmt, Stmt.map_map]
    apply Stmt.map_congr
    intro y mentioned
    exact same.image_eq h₁ h₂ (h₁.mentioned member (stmt?_of_get? found) mentioned)
  have owner : (if ρ x = root then none else node'.parent.map (t₂.image root 0)) =
      if x = root then none else node.parent.map (t₁.image root 0) := by
    simp only [same.top_iff h₁ h₂ member]
    split
    next => rfl
    next beneath =>
      rw [← parent?_of_get? found, ← parent?_of_get? found']
      exact same.image_parent? h₁ h₂ member beneath
  rw [found, found', Option.map_some, Option.map_some, Node.image, Node.image, owner, span, renamed]

end Corresponds

/-- Every tree corresponds to its fork, by the numbers that the copies have. -/
theorem corresponds_of_fork (h : Reachable Stmt.Bare t) (made : t.fork = .ok f) :
    Corresponds t (t.image root 0) f := by
  have linked := h.rooted.toLinked
  have live := h.rooted.contains_root
  have copied := copied_of_fork linked live made
  have first : t.image root 0 root = root := linked.image_self live
  constructor
  case preorder =>
    have listed := copied.mirrors.preorder_image linked live (h.fork made).rooted.toLinked
      (linked.mem_preorder_self live)
    rwa [first] at listed
  case stmt? => exact fun _ => copied.stmt?_image
  case span? =>
    intro x member
    rw [copied.new x member, Option.map_map]
    rfl

/-- Trees that correspond have the same fork. -/
theorem Corresponds.fork_eq (same : Corresponds t₁ ρ t₂) (h₁ : Reachable Stmt.Bare t₁)
    (h₂ : Reachable Stmt.Bare t₂) (made₁ : t₁.fork = .ok f₁) (made₂ : t₂.fork = .ok f₂) :
    f₁ = f₂ := by
  have linked₁ := h₁.rooted.toLinked
  have linked₂ := h₂.rooted.toLinked
  have copied₁ := copied_of_fork linked₁ h₁.rooted.contains_root made₁
  have copied₂ := copied_of_fork linked₂ h₂.rooted.contains_root made₂
  have length : (t₂.preorder root).length = (t₁.preorder root).length := by
    rw [same.preorder, List.length_map]
  apply eq_of_get?
  case size => rw [copied₁.size, copied₂.size, length]
  case live => rw [copied₁.live, copied₂.live, length]
  case same =>
    intro i bound
    have bound : i < (t₁.preorder root).length := by simpa [copied₁.size, void] using bound
    have member := List.getElem_mem bound
    have place : (⟨i⟩ : StmtId) = t₁.image root 0 (t₁.preorder root)[i] := by
      rw [linked₁.image_getElem h₁.rooted.contains_root, Nat.zero_add]
    rw [place, copied₁.new _ member, ← same.image_eq h₁ h₂ member,
      copied₂.new _ (same.mem_image member)]
    exact (same.node_image h₁ h₂ member).symm

/-- The fork of a tree. Its slots are filled in preorder, and nothing else is in them. -/
structure Compact (t f : Tree) : Prop where
  size : f.slots.size = (t.preorder root).length
  live : f.live = f.slots.size
  full : ∀ i < f.slots.size, f.contains ⟨i⟩
  /-- The number of each statement is its place, the root being the first. -/
  preorder : f.preorder root = (List.range f.slots.size).map StmtId.mk
  attached : ∀ x, f.contains x → x ∈ f.preorder root
  /-- The statement in each slot is the one at that place of the original. -/
  image : ∀ i (bound : i < (t.preorder root).length), t.image root 0 (t.preorder root)[i] = ⟨i⟩
  corresponds : Corresponds t (t.image root 0) f

theorem compact_of_fork (h : Reachable Stmt.Bare t) (made : t.fork = .ok f) : Compact t f := by
  have linked := h.rooted.toLinked
  have live := h.rooted.contains_root
  have copied := copied_of_fork linked live made
  have same := corresponds_of_fork h made
  have size : f.slots.size = (t.preorder root).length := by simpa [void] using copied.size
  have image (i : Nat) (bound : i < (t.preorder root).length) :
      t.image root 0 (t.preorder root)[i] = ⟨i⟩ := by
    rw [linked.image_getElem live, Nat.zero_add]
  have preorder : f.preorder root = (List.range f.slots.size).map StmtId.mk := by
    rw [same.preorder, size]
    apply List.ext_getElem
    · simp
    · intro i bound _
      rw [List.length_map] at bound
      simp [image i bound]
  have linked' := (h.fork made).rooted.toLinked
  have walk := linked'.walk_preorder (h.fork made).rooted.contains_root
  have full (x : StmtId) (inside : x.index < f.slots.size) : x ∈ f.preorder root := by
    rw [preorder]
    exact List.mem_map.mpr ⟨x.index, List.mem_range.mpr inside, rfl⟩
  constructor
  case size => exact size
  case live => simpa [void, size] using copied.live
  case full => exact fun i inside => walk.contains_of_mem (full ⟨i⟩ inside)
  case preorder => exact preorder
  case attached => exact fun x there => full x (index_lt there)
  case image => exact image
  case corresponds => exact same

/-- Forks are canonical forms. A fork holds what is reachable from the root, by places, and is its
own fork. Two trees have the same fork exactly where they say the same beneath their roots. -/
theorem Reachable.fork_canonical (h₁ : Reachable Stmt.Bare t₁) (h₂ : Reachable Stmt.Bare t₂) :
    ∃ f₁ f₂, t₁.fork = .ok f₁ ∧ t₂.fork = .ok f₂ ∧ Compact t₁ f₁ ∧ f₁.fork = .ok f₁ ∧
      (f₁ = f₂ ↔ Congruent t₁ t₂) := by
  obtain ⟨f₁, made₁, -⟩ := h₁.enclosed.exists_fork h₁.rooted
  obtain ⟨f₂, made₂, -⟩ := h₂.enclosed.exists_fork h₂.rooted
  have same₁ := corresponds_of_fork h₁ made₁
  have same₂ := corresponds_of_fork h₂ made₂
  have reachable := h₁.fork made₁
  refine ⟨f₁, f₂, made₁, made₂, compact_of_fork h₁ made₁, ?_, ?_, ?_⟩
  · obtain ⟨f, again, -⟩ := reachable.enclosed.exists_fork reachable.rooted
    rw [again, ← same₁.fork_eq h₁ reachable made₁ again]
  · rintro rfl
    obtain ⟨σ, back⟩ := same₂.symm h₂ reachable
    exact ⟨σ ∘ t₁.image root 0, same₁.trans back⟩
  · rintro ⟨ρ, same⟩
    exact same.fork_eq h₁ h₂ made₁ made₂

/-- A block with a declaration in it, built from the outside and from the inside. The second tree
also has a statement that nobody owns, and one was removed from it. In the third the name is
missing. -/
theorem fork_canonical_of_histories :
    let outside : List Change := [.push root (.block .empty), .push ⟨1⟩ (.declaration [])]
    let inside : List Change := [
      .add (.declaration []) .none, .push root .breakJump, .push root (.block .empty),
      .append ⟨3⟩ ⟨1⟩, .declare ⟨3⟩ "x" ⟨1⟩, .remove ⟨2⟩, .add .breakJump .none]
    let t₁ := initial.run (outside ++ [.declare ⟨1⟩ "x" ⟨2⟩])
    let t₂ := initial.run inside
    let t₃ := initial.run outside
    Reachable Stmt.Bare t₁ ∧ Reachable Stmt.Bare t₂ ∧ Reachable Stmt.Bare t₃ ∧
      t₁.preorder root = [root, ⟨1⟩, ⟨2⟩] ∧ t₂.preorder root = [root, ⟨3⟩, ⟨1⟩] ∧
      t₃.preorder root = [root, ⟨1⟩, ⟨2⟩] ∧ t₁.fork = .ok t₁ ∧ t₂.fork = .ok t₁ ∧ Compact t₂ t₁ ∧
      Congruent t₂ t₁ ∧ ¬ Congruent t₂ t₃ := by
  intro outside inside t₁ t₂ t₃
  have h₁ : Reachable Stmt.Bare t₁ := Reachable.initial.run (by decide)
  have h₂ : Reachable Stmt.Bare t₂ := Reachable.initial.run (by decide)
  have h₃ : Reachable Stmt.Bare t₃ := Reachable.initial.run (by decide)
  have made₁ : t₁.fork = .ok t₁ := by rfl
  have made₂ : t₂.fork = .ok t₁ := by rfl
  have made₃ : t₃.fork = .ok t₃ := by rfl
  obtain ⟨f₂, f₁, forked₂, forked₁, compact, -, same_iff⟩ := h₂.fork_canonical h₁
  obtain ⟨g₂, g₃, forked₂', forked₃, -, -, other_iff⟩ := h₂.fork_canonical h₃
  cases Except.ok.inj (forked₂.symm.trans made₂)
  cases Except.ok.inj (forked₁.symm.trans made₁)
  cases Except.ok.inj (forked₂'.symm.trans made₂)
  cases Except.ok.inj (forked₃.symm.trans made₃)
  have other : t₁ ≠ t₃ := by
    intro equal
    have resolved : t₁.resolve ⟨2⟩ "x" = t₃.resolve ⟨2⟩ "x" := by rw [equal]
    exact absurd resolved (by decide)
  exact ⟨h₁, h₂, h₃, by decide, by decide, by decide, made₁, made₂, compact, same_iff.mp rfl,
    mt other_iff.mpr other⟩

end KernelTree.Tree
