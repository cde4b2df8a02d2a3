import KernelTree.Proofs.Statement.Shape
/-! The ways to look at a statement agree. It owns what stands in its slots and among its children,
it has a block exactly if it is of a container's kind, and renumbering keeps all that it says or
names a statement for which there is no other number. -/
namespace KernelTree

variable {f : StmtId → Option StmtId} {id : StmtId}

theorem Scope.unmapped_of_renumber {s : Scope} (refused : s.renumber f = .error id) :
    id ∈ s.targets ∧ f id = none := by
  have entries {l : List (String × StmtId)} (refused : renumberEntries f l = .error id) :
      id ∈ l.map Prod.snd ∧ f id = none := by
    induction l with
    | nil => cases refused
    | cons e rest ih =>
      obtain ⟨name, bound⟩ := e
      rw [renumberEntries] at refused
      cases new : f bound with
      | none =>
        rw [new] at refused
        cases refused
        exact ⟨List.mem_cons_self, new⟩
      | some place =>
        cases later : renumberEntries f rest with
        | ok _ => simp [new, later, Except.map] at refused
        | error stray =>
          simp only [new, later, Except.map, Except.error.injEq] at refused
          obtain ⟨inside, unmapped⟩ := ih (refused ▸ later)
          exact ⟨.tail _ inside, unmapped⟩
  unfold renumber at refused
  split at refused
  next found =>
    cases refused
    exact entries found
  next => cases refused

namespace Stmt

open renumber (one)

theorem one_error_iff {x : StmtId} : one f x = .error id ↔ x = id ∧ f x = none := by
  unfold one
  cases f x <;> simp

theorem unmapped_of_mapM {ids : List StmtId} (refused : ids.mapM (one f) = .error id) :
    id ∈ ids ∧ f id = none := by
  induction ids with
  | nil => cases refused
  | cons x rest ih =>
    rw [List.mapM_cons, except_bind_error] at refused
    rcases refused with first | ⟨new, -, later⟩
    · obtain ⟨rfl, unmapped⟩ := one_error_iff.mp first
      exact ⟨List.mem_cons_self, unmapped⟩
    · rcases except_bind_error.mp later with later | ⟨_, -, done⟩
      · exact (ih later).imp_left (.tail _)
      · cases done

theorem unmapped_of_optionMapM {o : Option StmtId} (refused : o.mapM (one f) = .error id) :
    id ∈ o.toList ∧ f id = none := by
  cases o with
  | none => cases refused
  | some x =>
    have mapped : (some x).mapM (one f) = (one f x).map some := rfl
    rw [mapped] at refused
    cases new : one f x with
    | ok _ => simp [new, Except.map] at refused
    | error stray =>
      simp only [new, Except.map, Except.error.injEq] at refused
      obtain ⟨rfl, unmapped⟩ := one_error_iff.mp (refused ▸ new)
      exact ⟨List.mem_singleton_self x, unmapped⟩

theorem unmapped_of_block {b : Block} (refused : b.renumber f = .error id) :
    id ∈ b.children ++ b.scope.targets ∧ f id = none := by
  rw [Block.renumber, except_bind_error] at refused
  rcases refused with children | ⟨_, -, later⟩
  · exact (unmapped_of_mapM children).imp_left (List.mem_append_left _)
  · rcases except_bind_error.mp later with scope | ⟨_, -, done⟩
    · exact (Scope.unmapped_of_renumber scope).imp_left (List.mem_append_right _)
    · cases done

/-- Renumbering is refused for a statement that is mentioned and has no other number. -/
theorem unmapped_of_renumber {s : Stmt} (refused : s.renumber f = .error id) :
    id ∈ s.owned ++ s.targets ∧ f id = none := by
  have condition {x : StmtId} (refused : one f x = .error id) : id = x ∧ f id = none := by
    obtain ⟨rfl, unmapped⟩ := one_error_iff.mp refused
    exact ⟨rfl, unmapped⟩
  have part {o : Option StmtId} : o.mapM (one f) = .error id → _ := unmapped_of_optionMapM
  have entries {ids : List StmtId} : ids.mapM (one f) = .error id → _ := unmapped_of_mapM
  have body {b : Block} : b.renumber f = .error id → _ := unmapped_of_block
  have done {s : Stmt} : (pure s : Except StmtId Stmt) ≠ .error id := nofun
  cases s
  all_goals
    simp only [renumber, except_bind_error, owned, targets, slots, children, body?, Option.map_some,
      Option.map_none, Option.getD_some, Option.getD_none, List.nil_append, List.mem_append,
      List.mem_cons] at refused body ⊢
  all_goals grind

section
variable (s : Stmt)

@[simp] theorem places_map (ρ : StmtId → StmtId) :
    (s.map ρ).places = s.places.map fun p => (p.1, ρ p.2) := by
  cases s <;>
    simp [map, places, Block.map, Option.toList_map, children, body?, Function.comp_def]

@[simp] theorem scope?_map (ρ : StmtId → StmtId) :
    (s.map ρ).scope? = s.scope?.map (Scope.map ρ) := by
  cases s <;> rfl

end

/-- A statement is no more than its kind, its content, what it owns in which place, and its
names. -/
theorem eq_of_parts {s s' : Stmt} (kind : s.kind = s'.kind) (content : s.content = s'.content)
    (places : s.places = s'.places) (scope : s.scope? = s'.scope?) : s = s' := by
  have held (role : Role) : s.held role = s'.held role := by rw [Stmt.held, Stmt.held, places]
  have condition := held .condition
  have init := held .init
  have test := held .test
  have update := held .update
  have child := held .child
  have elifs := held .elif
  have last := held .otherwise
  have slot {o o' : Option StmtId} : o.toList = o'.toList ↔ o = o' := by
    cases o <;> cases o' <;> simp
  have block {b b' : Block} : b = b' ↔ b.children = b'.children ∧ b.scope = b'.scope := by
    cases b
    cases b'
    simp
  clear held places
  cases s <;> cases s' <;> try cases kind
  all_goals
    simp_all [Stmt.held, Stmt.places, Stmt.children, scope?, body?, Stmt.content, List.filter_map,
      Function.comp_def]

/-- The statement that is left when every number is replaced: the same in kind, content and names,
with the other numbers in the same places. -/
structure Renumbered (f : StmtId → Option StmtId) (s r : Stmt) : Prop where
  kind : r.kind = s.kind
  content : r.content = s.content
  owned : r.owned.map some = s.owned.map f
  slots : r.slots.map some = s.slots.map f
  places : r.places.map (fun p => (p.1, some p.2)) = s.places.map fun p => (p.1, f p.2)
  names : r.scope?.map (fun b => b.entries.map fun e => (e.1, some e.2)) =
    s.scope?.map fun b => b.entries.map fun e => (e.1, f e.2)

namespace Renumbered

variable {s r r' : Stmt}

theorem of_map {ρ : StmtId → StmtId} (same : ∀ id ∈ s.owned ++ s.targets, f id = some (ρ id)) :
    Renumbered f s (s.map ρ) := by
  obtain ⟨owned, targets⟩ := List.forall_mem_append.mp same
  have slots : ∀ id ∈ s.slots, f id = some (ρ id) := fun id inside =>
    owned id (s.owned_perm.mem_iff.mpr (List.mem_append_left _ inside))
  have places : ∀ p ∈ s.places, f p.2 = some (ρ p.2) := fun p inside =>
    owned p.2 (s.map_snd_places ▸ List.mem_map_of_mem inside)
  have names : ∀ b ∈ s.scope?, ∀ e ∈ b.entries, f e.2 = some (ρ e.2) := by
    intro b there e inside
    refine targets e.2 ?_
    rw [targets_eq, Option.mem_def.mp there]
    exact List.mem_map_of_mem inside
  constructor
  case kind => exact kind_map ρ s
  case content => exact content_map s ρ
  case owned => rw [owned_map, List.map_map, List.map_congr_left owned]; rfl
  case slots => rw [slots_map, List.map_map, List.map_congr_left slots]; rfl
  case places =>
    rw [places_map, List.map_map]
    exact List.map_congr_left fun p inside => congrArg (Prod.mk p.1) (places p inside).symm
  case names =>
    rw [scope?_map, Option.map_map]
    refine Option.map_congr fun b there => ?_
    rw [Function.comp_apply, Scope.map, List.map_map]
    exact List.map_congr_left fun e inside => congrArg (Prod.mk e.1) (names b there e inside).symm

/-- The parts of a statement fix it, so there is no other result. -/
theorem unique (h : Renumbered f s r) (h' : Renumbered f s r') : r = r' := by
  have pairs {α : Type} : Function.Injective fun p : α × StmtId => (p.1, some p.2) := by
    rintro ⟨a, id⟩ ⟨a', id'⟩ same
    cases same
    rfl
  refine eq_of_parts (h.kind.trans h'.kind.symm) (h.content.trans h'.content.symm) ?_ ?_
  · exact List.map_injective_iff.mpr pairs (h.places.trans h'.places.symm)
  · refine Option.map_injective ?_ (h.names.trans h'.names.symm)
    exact fun b b' same => Scope.ext (List.map_injective_iff.mpr pairs same)

theorem isSome (h : Renumbered f s r) : ∀ id ∈ s.owned ++ s.targets, (f id).isSome := by
  intro id inside
  rcases List.mem_append.mp inside with owned | target
  · have image : f id ∈ s.owned.map f := List.mem_map_of_mem owned
    obtain ⟨new, -, same⟩ := List.mem_map.mp (h.owned ▸ image)
    simp [← same]
  · rw [targets_eq] at target
    cases there : s.scope? with
    | none => simp [there] at target
    | some b =>
      have names := h.names
      rw [there, Option.map_some, Option.map_eq_some_iff] at names
      obtain ⟨b', -, same⟩ := names
      rw [there] at target
      obtain ⟨e, entry, rfl⟩ := List.mem_map.mp target
      have image : (e.1, f e.2) ∈ b.entries.map fun e => (e.1, f e.2) := List.mem_map_of_mem entry
      obtain ⟨e', -, same⟩ := List.mem_map.mp (same ▸ image)
      simp [← (Prod.mk.inj same).2]

end Renumbered

/-- Renumbering yields the statement that has the other numbers in the same places, and no other. -/
theorem renumber_ok_iff_renumbered {s r : Stmt} : s.renumber f = .ok r ↔ Renumbered f s r := by
  have total (defined : ∀ id ∈ s.owned ++ s.targets, (f id).isSome) :
      s.renumber f = .ok (s.map fun id => (f id).getD id) ∧
        Renumbered f s (s.map fun id => (f id).getD id) := by
    refine ⟨renumber_ok_iff.mpr ⟨defined, rfl⟩, .of_map fun id inside => ?_⟩
    obtain ⟨new, known⟩ := Option.isSome_iff_exists.mp (defined id inside)
    simp [known]
  constructor
  · intro done
    obtain ⟨defined, rfl⟩ := renumber_ok_iff.mp done
    exact (total defined).2
  · intro h
    obtain ⟨done, h'⟩ := total h.isSome
    rw [done, h.unique h']

/-- The accessors of a statement agree with its kind and with each other. Renumbering keeps all but
the numbers; it is refused exactly if one of them has no other, and names such a one. -/
theorem accessors_agree (s : Stmt) (f : StmtId → Option StmtId) :
    s.owned.Perm (s.slots ++ s.children) ∧
    s.body?.isSome = s.kind.isContainer ∧
    (∀ g, (s.mapBody g).body? = s.body?.map g ∧ (s.mapBody g).kind = s.kind ∧
      (s.mapBody g).content = s.content ∧ (s.mapBody g).slots = s.slots) ∧
    ((∀ id ∈ s.owned ++ s.targets, (f id).isSome) →
      ∃ r, s.renumber f = .ok r ∧ Renumbered f s r) ∧
    (∀ r, Renumbered f s r → s.renumber f = .ok r) ∧
    ((∃ id, s.renumber f = .error id) ↔ ∃ id ∈ s.owned ++ s.targets, f id = none) ∧
    ∀ id, s.renumber f = .error id → id ∈ s.owned ++ s.targets ∧ f id = none := by
  refine ⟨s.owned_perm, s.isSome_body?, fun g => ?_, fun defined => ?_,
    fun r => renumber_ok_iff_renumbered.mpr, ⟨?_, ?_⟩, fun id => unmapped_of_renumber⟩
  · exact ⟨s.body?_mapBody g, s.kind_mapBody g, s.content_mapBody g, s.slots_mapBody g⟩
  · have done := renumber_ok_iff.mpr ⟨defined, rfl⟩
    exact ⟨_, done, renumber_ok_iff_renumbered.mp done⟩
  · rintro ⟨id, refused⟩
    exact ⟨id, unmapped_of_renumber refused⟩
  · rintro ⟨id, inside, unmapped⟩
    cases done : s.renumber f with
    | error stray => exact ⟨stray, rfl⟩
    | ok r =>
      have mapped := (renumber_ok_iff.mp done).1 id inside
      simp [unmapped] at mapped

/-- A conditional with a further condition and an `else`, and a loop with a name for a statement
that has no other number. -/
theorem accessors_agree_of_conditional :
    let f (id : StmtId) : Option StmtId := if id.index < 9 then some ⟨id.index + 10⟩ else none
    let named (id : StmtId) : Scope := { entries := [("n", id)], sorted := .cons nofun .nil }
    let body : Block := { children := [⟨2⟩], scope := named ⟨2⟩ }
    let s := conditional ⟨1⟩ body [⟨3⟩] (some ⟨4⟩)
    let stray := whileLoop ⟨1⟩ { children := [], scope := named ⟨9⟩ } true
    s.owned.Perm ([⟨1⟩, ⟨3⟩, ⟨4⟩] ++ [⟨2⟩]) ∧
    (∃ r, s.renumber f = .ok r ∧ r.kind = .conditional ∧
      r.owned.map some = [some ⟨11⟩, some ⟨12⟩, some ⟨13⟩, some ⟨14⟩]) ∧
    stray.renumber f = .error ⟨9⟩ ∧ (⟨9⟩ : StmtId) ∈ stray.owned ++ stray.targets := by
  intro f named body s stray
  obtain ⟨owned, -, -, succeeds, -⟩ := accessors_agree s f
  obtain ⟨-, -, -, -, -, -, strays⟩ := accessors_agree stray f
  obtain ⟨r, done, renumbered⟩ := succeeds (by decide)
  have refused : stray.renumber f = .error ⟨9⟩ := rfl
  exact ⟨owned, ⟨r, done, renumbered.kind, renumbered.owned⟩, refused, (strays _ refused).1⟩

end Stmt
end KernelTree
