import KernelTree.Proofs.Statement.Ownership
/-! The places in which a statement owns others. Whatever is taken away leaves its own place and no
other, and only the condition of a statement cannot be taken. An entry that was just given to a
statement leaves it as it was. -/
namespace KernelTree.Stmt

/-- What an owned statement is to its owner. -/
inductive Role where
  | condition
  | init
  | test
  | update
  | child
  | elif
  | otherwise
deriving DecidableEq, Repr

/-- The owned statements in source order, each with its place. -/
def places : Stmt → List (Role × StmtId)
  | conditional condition body elifs last =>
    (.condition, condition) :: (body.children.map (.child, ·) ++ elifs.map (.elif, ·) ++
      last.toList.map (.otherwise, ·))
  | elif condition body | whileLoop condition body _ | switch condition body =>
    (.condition, condition) :: body.children.map (.child, ·)
  | forLoop init test update body =>
    init.toList.map (.init, ·) ++ test.toList.map (.test, ·) ++ update.toList.map (.update, ·) ++
      body.children.map (.child, ·)
  | s => s.children.map (.child, ·)

theorem map_snd_places (s : Stmt) : s.places.map Prod.snd = s.owned := by
  have same (role : Role) (ids : List StmtId) : (ids.map (role, ·)).map Prod.snd = ids := by
    simp [Function.comp_def]
  cases s <;> simp only [places, owned, slots, List.map_append, List.map_cons, same] <;> rfl

@[simp] theorem places_mapScope (f : Scope → Scope) (s : Stmt) :
    (s.mapScope f).places = s.places := by
  cases s <;> rfl

/-- The condition without which a statement cannot be. -/
def condition? : Stmt → Option StmtId
  | conditional condition _ _ _ | elif condition _ | whileLoop condition _ _
  | switch condition _ => some condition
  | _ => none

/-- The statement without one that it owns otherwise than as its condition. -/
def without (id : StmtId) : Stmt → Stmt
  | conditional condition body elifs last =>
    conditional condition { body with children := body.children.erase id } (elifs.erase id)
      (last.filter (· ≠ id))
  | forLoop init test update body =>
    forLoop (init.filter (· ≠ id)) (test.filter (· ≠ id)) (update.filter (· ≠ id))
      { body with children := body.children.erase id }
  | s => s.withoutChild id

@[simp] theorem scope?_without (id : StmtId) (s : Stmt) : (s.without id).scope? = s.scope? := by
  cases s <;> rfl

variable {id : StmtId} {s : Stmt}

theorem filter_of_ne {o : Option StmtId} (other : o ≠ some id) : o.filter (· ≠ id) = o := by
  cases o <;> simp_all [Option.filter]

/-- Nothing is owned twice, so the condition stands in no place from which it could be taken. -/
theorem unlink_of_condition? (nodup : s.owned.Nodup) (held : s.condition? = some id) :
    s.unlink id = (s, false) := by
  cases s
  case conditional condition body elifs last =>
    cases held
    simp only [owned, List.nodup_cons, List.mem_append, Option.mem_toList, not_or] at nodup
    obtain ⟨⟨⟨notChild, notElif⟩, notLast⟩, -⟩ := nodup
    have notChild : id ∉ (conditional id body elifs last).children := notChild
    simp only [unlink, if_neg notElif, if_neg notLast, unlink.fromBody, if_neg notChild]
  case elif | whileLoop | switch =>
    cases held
    simp only [owned, slots, List.singleton_append, List.nodup_cons] at nodup
    simp only [unlink, unlink.fromBody, if_neg nodup.1]
  all_goals cases held

theorem unlink_of_mem (nodup : s.owned.Nodup) (owned : id ∈ s.owned)
    (free : s.condition? ≠ some id) : s.unlink id = (s.without id, true) := by
  cases s
  case conditional condition body elifs last =>
    simp only [Stmt.owned, List.nodup_cons, List.nodup_append, List.mem_append] at nodup
    simp only [Stmt.owned, List.mem_cons, List.mem_append, Option.mem_toList] at owned
    simp only [condition?, ne_eq, Option.some.injEq] at free
    simp only [unlink, without]
    split
    next inElifs =>
      have notChild : id ∉ body.children := by grind
      have notLast : last ≠ some id := by grind
      rw [List.erase_of_not_mem notChild, filter_of_ne notLast]
    next notElif =>
      rw [List.erase_of_not_mem notElif]
      split
      next isLast =>
        have notChild : id ∉ body.children := by grind
        rw [List.erase_of_not_mem notChild, isLast]
        simp [Option.filter]
      next notLast =>
        have child : id ∈ (conditional condition body elifs last).children := by
          rcases owned with same | (child | inElifs) | isLast
          · exact absurd same.symm free
          · exact child
          · exact absurd inElifs notElif
          · exact absurd isLast notLast
        rw [filter_of_ne notLast]
        exact fromBody_eq_iff.mpr ⟨child, rfl⟩
  case forLoop init test update body =>
    simp only [Stmt.owned, slots, List.mem_append, Option.mem_toList] at owned
    simp only [unlink, without]
    split
    next inHeader =>
      have notChild : id ∉ body.children := by
        simp only [Stmt.owned, slots, List.nodup_append, List.mem_append,
          Option.mem_toList] at nodup
        intro child
        have apart := nodup.2.2 id
        exact apart (by tauto) id child rfl
      rw [List.erase_of_not_mem notChild]
    next notHeader =>
      have child : id ∈ (forLoop init test update body).children := by tauto
      exact fromBody_eq_iff.mpr ⟨child, rfl⟩
  all_goals
    have child := owned
    simp only [Stmt.owned, slots, List.nil_append, List.singleton_append, List.mem_cons] at child
    simp only [condition?, ne_eq, Option.some.injEq, reduceCtorEq, not_false_eq_true] at free
    first
      | exact fromBody_eq_iff.mpr ⟨child, rfl⟩
      | exact fromBody_eq_iff.mpr ⟨child.resolve_left (Ne.symm free), rfl⟩

/-- The others keep their places and their order. -/
theorem places_without (nodup : s.owned.Nodup) (free : s.condition? ≠ some id) :
    (s.without id).places = s.places.filter (·.2 ≠ id) := by
  have listed (role : Role) {ids : List StmtId} (nodup : ids.Nodup) :
      (ids.erase id).map (role, ·) = (ids.map (role, ·)).filter (·.2 ≠ id) := by
    rw [nodup.erase_eq_filter, List.filter_map]
    apply congrArg
    apply List.filter_congr
    intro x _
    by_cases same : x = id <;> simp [same]
  have slot (role : Role) (o : Option StmtId) :
      (o.filter (· ≠ id)).toList.map (role, ·) = (o.toList.map (role, ·)).filter (·.2 ≠ id) := by
    cases o with
    | none => rfl
    | some other => by_cases same : other = id <;> simp [Option.filter, same]
  cases s
  case conditional condition body elifs last =>
    simp only [owned, List.nodup_cons, List.nodup_append] at nodup
    simp only [condition?, ne_eq, Option.some.injEq] at free
    rw [without, places, places, List.filter_cons_of_pos (by simpa using free), List.filter_append,
      List.filter_append, listed _ nodup.2.1.1, listed _ nodup.2.1.2.1, slot]
  case forLoop init test update body =>
    simp only [owned, slots, List.nodup_append] at nodup
    have children : body.children.Nodup := nodup.2.1
    simp only [without, places, List.filter_append, listed _ children, slot]
  case elif condition body | whileLoop condition body _ | switch condition body =>
    simp only [owned, slots, List.singleton_append, List.nodup_cons] at nodup
    simp only [condition?, ne_eq, Option.some.injEq] at free
    have children : body.children.Nodup := nodup.2
    simp only [without, withoutChild, mapBody, places]
    rw [List.filter_cons_of_pos (by simpa using free), listed _ children]
  all_goals
    simp only [owned, slots, List.nil_append] at nodup
    simp only [without, withoutChild, mapBody, places]
    rw [← listed _ nodup]
    rfl

@[simp] theorem condition?_without (other : StmtId) (s : Stmt) :
    (s.without other).condition? = s.condition? := by
  cases s <;> rfl

theorem mem_owned_of_condition? (held : s.condition? = some id) : id ∈ s.owned := by
  cases s <;> cases held <;> simp [owned, slots]

/-! Giving a statement an entry and taking it away again. -/

theorem mapBody_eq_self {f : Block → Block} (same : ∀ body ∈ s.body?, f body = body) :
    s.mapBody f = s := by
  cases s <;> first | rfl | simp only [mapBody, same _ rfl]

theorem erase_append_of_fresh {ids : List StmtId} (fresh : id ∉ ids) :
    (ids ++ [id]).erase id = ids := by
  rw [List.erase_append_right _ fresh, List.erase_cons_head, List.append_nil]

theorem withoutChild_addChild (fresh : id ∉ s.children) : (s.addChild id).withoutChild id = s := by
  have twice : (s.addChild id).withoutChild id =
      s.mapBody fun b => { b with children := (b.children ++ [id]).erase id } := by
    cases s <;> rfl
  rw [twice]
  apply mapBody_eq_self
  intro body there
  rw [erase_append_of_fresh]
  simpa [children, Option.mem_def.mp there] using fresh

theorem without_addChild (fresh : id ∉ s.owned) : (s.addChild id).without id = s := by
  have notChild : id ∉ s.children := fun inside => fresh (s.children_sublist.subset inside)
  cases s
  case conditional condition body elifs last =>
    simp only [owned, List.mem_cons, List.mem_append, Option.mem_toList, not_or] at fresh
    obtain ⟨-, ⟨notChild, notElif⟩, notLast⟩ := fresh
    simp only [addChild, mapBody, without]
    rw [erase_append_of_fresh notChild, List.erase_of_not_mem notElif, filter_of_ne notLast]
  case forLoop init test update body =>
    simp only [owned, slots, List.mem_append, Option.mem_toList, not_or] at fresh
    obtain ⟨⟨⟨notInit, notTest⟩, notUpdate⟩, -⟩ := fresh
    have notChild : id ∉ body.children := notChild
    simp only [addChild, mapBody, without]
    rw [erase_append_of_fresh notChild, filter_of_ne notInit, filter_of_ne notTest,
      filter_of_ne notUpdate]
  all_goals exact withoutChild_addChild notChild

theorem without_addElif (fresh : id ∉ s.owned) (conditional : s.kind = .conditional) :
    (s.addElif id).without id = s := by
  cases s <;> try cases conditional
  case conditional condition body elifs last =>
    simp only [owned, List.mem_cons, List.mem_append, Option.mem_toList, not_or] at fresh
    obtain ⟨-, ⟨notChild, notElif⟩, notLast⟩ := fresh
    simp only [addElif, without]
    rw [List.erase_of_not_mem notChild, erase_append_of_fresh notElif, filter_of_ne notLast]

theorem without_setElse (fresh : id ∉ s.owned) (conditional : s.kind = .conditional)
    (opened : s.last? = none) : (s.setElse id).without id = s := by
  cases s <;> try cases conditional
  case conditional condition body elifs last =>
    cases opened
    simp only [owned, List.mem_cons, List.mem_append, Option.mem_toList, not_or] at fresh
    obtain ⟨-, ⟨notChild, notElif⟩, -⟩ := fresh
    simp only [setElse, without]
    rw [List.erase_of_not_mem notChild, List.erase_of_not_mem notElif]
    simp [Option.filter]

/-- The owned statements in the places of one role, in order. -/
def held (role : Role) (s : Stmt) : List StmtId :=
  (s.places.filter (·.1 = role)).map Prod.snd

/-- The statement with one more in a place of that role, behind those that stand there. -/
structure Entered (s : Stmt) (role : Role) (id : StmtId) (s' : Stmt) : Prop where
  held : ∀ place, s'.held place = s.held place ++ if place = role then [id] else []
  /-- There is one `else` entry at most. -/
  sole : role = .otherwise → s.held role = []
  /-- Nothing else about the statement has changed. -/
  without : s'.without id = s

theorem entered_addChild (fresh : id ∉ s.owned) (container : s.kind.isContainer) :
    s.Entered .child id (s.addChild id) where
  held := by
    cases s <;> try cases container
    all_goals
      intro place
      cases place <;>
        simp [Stmt.held, places, addChild, mapBody, children, body?, List.filter_map,
          Function.comp_def]
  sole := nofun
  without := without_addChild fresh

theorem entered_addElif (fresh : id ∉ s.owned) (conditional : s.kind = .conditional) :
    s.Entered .elif id (s.addElif id) where
  held := by
    cases s <;> try cases conditional
    intro place
    cases place <;> simp [Stmt.held, places, addElif, List.filter_map, Function.comp_def]
  sole := nofun
  without := without_addElif fresh conditional

theorem entered_setElse (fresh : id ∉ s.owned) (conditional : s.kind = .conditional)
    (opened : s.last? = none) : s.Entered .otherwise id (s.setElse id) where
  held := by
    cases s <;> try cases conditional
    cases opened
    intro place
    cases place <;> simp [Stmt.held, places, setElse, List.filter_map, Function.comp_def]
  sole := by
    cases s <;> try cases conditional
    cases opened
    simp [Stmt.held, places, List.filter_map, Function.comp_def]
  without := without_setElse fresh conditional opened

end KernelTree.Stmt
