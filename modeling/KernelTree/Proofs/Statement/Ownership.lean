import KernelTree.Tree.Removal
import Mathlib.Data.List.Nodup
/-! What a statement owns and in which place, and how giving it an entry and taking one away change
that. -/
namespace KernelTree.Stmt

variable {id : StmtId}

/-- The further conditions of a conditional. -/
def elifs : Stmt → List StmtId
  | conditional _ _ elifs _ => elifs
  | _ => []

/-- The last entry of a conditional. -/
def last? : Stmt → Option StmtId
  | conditional _ _ _ last => last
  | _ => none

/-- The owned statements that are no entries of an if-chain by their place. -/
def plain : Stmt → List StmtId
  | conditional condition body _ _ => condition :: body.children
  | s => s.slots ++ s.children

/-- What is owned is what stands in the slots and among the children. -/
theorem owned_perm (s : Stmt) : s.owned.Perm (s.slots ++ s.children) := by
  cases s
  case conditional condition body elifs last =>
    rw [owned, slots, List.append_assoc]
    exact (List.perm_append_comm).cons condition
  all_goals exact .refl _

theorem elifs_subset (s : Stmt) : s.elifs ⊆ s.owned := by
  cases s <;> simp only [elifs, List.nil_subset]
  intro id member
  simp [owned, member]

theorem mem_owned_of_last? {s : Stmt} (h : s.last? = some id) : id ∈ s.owned := by
  cases s <;> simp_all [last?, owned]

theorem children_sublist (s : Stmt) : s.children.Sublist s.owned := by
  cases s
  case conditional =>
    simp only [children, body?, Option.map_some, Option.getD_some, owned, List.append_assoc]
    exact (List.sublist_append_left _ _).cons _
  all_goals exact List.sublist_append_right _ _

/-- The entries of the if-chain of a conditional. -/
def chain (s : Stmt) : List StmtId := s.elifs ++ s.last?.toList

theorem children_chain_sublist (s : Stmt) : (s.children ++ s.chain).Sublist s.owned := by
  cases s
  case conditional => simp [children, body?, chain, elifs, last?, owned]
  all_goals
    simp only [chain, elifs, last?, Option.toList_none, List.append_nil]
    exact children_sublist _

theorem owned_eq_plain (s : Stmt) : s.owned = s.plain ++ s.elifs ++ s.last?.toList := by
  cases s <;> simp [owned, plain, elifs, last?]

theorem kind_of_mem_elifs {s : Stmt} (h : id ∈ s.elifs) : s.kind = .conditional := by
  cases s <;> simp_all [elifs, kind]

theorem kind_of_last? {s : Stmt} (h : s.last? = some id) : s.kind = .conditional := by
  cases s <;> simp_all [last?, kind]

/-- The names declared at the level of a container. -/
def scope? (s : Stmt) : Option Scope := s.body?.map (·.scope)

/-- Changes the names declared at the level of a container. -/
def mapScope (f : Scope → Scope) : Stmt → Stmt :=
  mapBody fun b => { b with scope := f b.scope }

section mapScope
variable (f : Scope → Scope) (s : Stmt)

@[simp] theorem kind_mapScope : (s.mapScope f).kind = s.kind := kind_mapBody _ s

@[simp] theorem owned_mapScope : (s.mapScope f).owned = s.owned := by cases s <;> rfl

@[simp] theorem elifs_mapScope : (s.mapScope f).elifs = s.elifs := by cases s <;> rfl

@[simp] theorem last?_mapScope : (s.mapScope f).last? = s.last? := by cases s <;> rfl

@[simp] theorem scope?_mapScope : (s.mapScope f).scope? = s.scope?.map f := by cases s <;> rfl

end mapScope

section addChild
variable (child : StmtId) (s : Stmt)

@[simp] theorem kind_addChild : (s.addChild child).kind = s.kind := kind_mapBody _ s

@[simp] theorem elifs_addChild : (s.addChild child).elifs = s.elifs := by cases s <;> rfl

@[simp] theorem last?_addChild : (s.addChild child).last? = s.last? := by cases s <;> rfl

@[simp] theorem scope?_addChild : (s.addChild child).scope? = s.scope? := by cases s <;> rfl

theorem owned_addChild {s : Stmt} (container : s.kind.isContainer) :
    (s.addChild child).owned.Perm (child :: s.owned) := by
  cases s <;> simp [StmtKind.isContainer, kind] at container
  case conditional condition body elifs last =>
    simp only [addChild, mapBody, owned, List.append_assoc, List.singleton_append]
    exact (List.perm_middle.cons _).trans (.swap ..)
  all_goals
    simp only [addChild, mapBody, owned, slots, children, body?, Option.map_some, Option.getD_some,
      ← List.append_assoc]
    exact List.perm_append_singleton _ _

end addChild

section entries
variable (entry : StmtId) (s : Stmt)

@[simp] theorem kind_addElif : (s.addElif entry).kind = s.kind := by cases s <;> rfl

@[simp] theorem kind_setElse : (s.setElse entry).kind = s.kind := by cases s <;> rfl

@[simp] theorem last?_addElif : (s.addElif entry).last? = s.last? := by cases s <;> rfl

@[simp] theorem elifs_setElse : (s.setElse entry).elifs = s.elifs := by cases s <;> rfl

@[simp] theorem scope?_addElif : (s.addElif entry).scope? = s.scope? := by cases s <;> rfl

@[simp] theorem scope?_setElse : (s.setElse entry).scope? = s.scope? := by cases s <;> rfl

variable {s : Stmt}

theorem elifs_addElif (conditional : s.kind = .conditional) :
    (s.addElif entry).elifs = s.elifs ++ [entry] := by
  cases s <;> first | rfl | cases conditional

theorem last?_setElse (conditional : s.kind = .conditional) :
    (s.setElse entry).last? = some entry := by
  cases s <;> first | rfl | cases conditional

theorem owned_addElif (conditional : s.kind = .conditional) :
    (s.addElif entry).owned.Perm (entry :: s.owned) := by
  cases s <;> try cases conditional
  case conditional condition body elifs last =>
    simp only [addElif, owned, List.append_assoc, List.singleton_append]
    rw [← List.append_assoc, ← List.append_assoc body.children]
    exact (List.perm_middle.cons _).trans (.swap ..)

theorem owned_setElse (conditional : s.kind = .conditional) (open_ : s.last? = none) :
    (s.setElse entry).owned.Perm (entry :: s.owned) := by
  cases s <;> try cases conditional
  case conditional condition body elifs last =>
    cases open_
    simp only [setElse, owned, Option.toList_some, Option.toList_none, List.append_nil,
      ← List.cons_append]
    exact List.perm_append_singleton _ _

end entries

/-- What is left of a statement from which an owned one was taken. Only that one is missing, and
only from its own place. -/
structure Released (s : Stmt) (id : StmtId) (rest : Stmt) : Prop where
  member : id ∈ s.owned
  kind : rest.kind = s.kind
  owned : rest.owned = s.owned.erase id
  elifs : rest.elifs = s.elifs.erase id
  last? : rest.last? = s.last?.filter (· ≠ id)
  scope? : rest.scope? = s.scope?

/-- The statement without one of its children. -/
def withoutChild (id : StmtId) (s : Stmt) : Stmt :=
  s.mapBody fun b => { b with children := b.children.erase id }

section withoutChild
variable (s : Stmt)

@[simp] theorem kind_withoutChild : (s.withoutChild id).kind = s.kind := kind_mapBody _ s

@[simp] theorem slots_withoutChild : (s.withoutChild id).slots = s.slots := slots_mapBody _ s

@[simp] theorem children_withoutChild : (s.withoutChild id).children = s.children.erase id := by
  cases s <;> rfl

@[simp] theorem elifs_withoutChild : (s.withoutChild id).elifs = s.elifs := by cases s <;> rfl

@[simp] theorem last?_withoutChild : (s.withoutChild id).last? = s.last? := by cases s <;> rfl

@[simp] theorem scope?_withoutChild : (s.withoutChild id).scope? = s.scope? := by cases s <;> rfl

end withoutChild

theorem fromBody_eq_iff {s rest : Stmt} : unlink.fromBody id s = (rest, true) ↔
    id ∈ s.children ∧ rest = s.withoutChild id := by
  unfold unlink.fromBody
  split <;> simp_all [withoutChild, eq_comm (b := rest)]

theorem fromBody_eq_self {s : Stmt} (missed : (unlink.fromBody id s).2 = false) :
    (unlink.fromBody id s).1 = s := by
  unfold unlink.fromBody at missed ⊢
  split
  next inside => simp [inside] at missed
  next => rfl

/-- A statement that is in no part of the header is looked for among the children, with the header
as it was. -/
theorem unlink_forLoop {init test update : Option StmtId} {body : Block}
    (notHeader : ¬ (init = some id ∨ test = some id ∨ update = some id)) :
    (forLoop init test update body).unlink id =
      unlink.fromBody id (forLoop init test update body) := by
  have kept (o : Option StmtId) (other : o ≠ some id) : o.filter (· ≠ id) = o := by
    cases o <;> simp_all [Option.filter]
  simp only [unlink, if_neg notHeader]
  simp only [not_or] at notHeader
  rw [kept init notHeader.1, kept test notHeader.2.1, kept update notHeader.2.2]

/-- Where there is nothing to take, nothing changes. -/
theorem unlink_eq_self {s : Stmt} (missed : (s.unlink id).2 = false) : (s.unlink id).1 = s := by
  cases s
  case conditional condition body elifs last =>
    simp only [unlink] at missed ⊢
    split
    next inElifs => simp [inElifs] at missed
    next notElif =>
      rw [if_neg notElif] at missed
      split
      next isLast => simp [isLast] at missed
      next notLast =>
        rw [if_neg notLast] at missed
        exact fromBody_eq_self missed
  case forLoop init test update body =>
    by_cases inHeader : init = some id ∨ test = some id ∨ update = some id
    · simp [unlink, inHeader] at missed
    · rw [unlink_forLoop inHeader] at missed ⊢
      exact fromBody_eq_self missed
  all_goals exact fromBody_eq_self missed

theorem released_conditional {condition : StmtId} {body : Block} {elifs : List StmtId}
    {last : Option StmtId} (nodup : (conditional condition body elifs last).owned.Nodup)
    (h : (conditional condition body elifs last).unlink id = (rest, true)) :
    (conditional condition body elifs last).Released id rest := by
  -- No statement is owned twice, so the place in which it is found is its only one.
  simp only [owned, List.nodup_cons, List.nodup_append, List.mem_append] at nodup
  simp only [unlink] at h
  split at h
  next inElifs =>
    cases h
    have notChild : id ∉ body.children := by grind
    have notCondition : condition ≠ id := by grind
    have notLast : last ≠ some id := by grind
    refine ⟨by simp [owned, inElifs], rfl, ?_, rfl, ?_, rfl⟩
    · simp [owned, List.erase_append_right, List.erase_append_left, inElifs, notChild,
        List.erase_cons_tail, notCondition]
    · cases last <;> simp_all [Option.filter, last?]
  next notElif =>
    split at h
    next isLast =>
      cases h
      subst isLast
      have notChild : id ∉ body.children := by grind
      have notCondition : condition ≠ id := by grind
      refine ⟨by simp [owned], rfl, ?_, (List.erase_of_not_mem notElif).symm, ?_, rfl⟩
      · simp [owned, List.erase_append_right, notElif, notChild, List.erase_cons_tail, notCondition]
      · simp [last?, Option.filter]
    next notLast =>
      obtain ⟨child, rfl⟩ := fromBody_eq_iff.mp h
      change id ∈ body.children at child
      have notCondition : condition ≠ id := by grind
      refine ⟨by simp [owned, child], rfl, ?_, (List.erase_of_not_mem notElif).symm, ?_, rfl⟩
      · simp [withoutChild, mapBody, owned, List.erase_append_left, child, List.erase_cons_tail,
          notCondition]
      · rw [last?_withoutChild]
        cases last <;> simp_all [Option.filter, last?]

theorem released_child {s : Stmt} (nodup : s.owned.Nodup) (plain : s.kind ≠ .conditional)
    (h : unlink.fromBody id s = (rest, true)) : s.Released id rest := by
  obtain ⟨child, rfl⟩ := fromBody_eq_iff.mp h
  have whole (t : Stmt) (h : t.kind ≠ .conditional) : t.owned = t.slots ++ t.children := by
    cases t <;> first | rfl | exact absurd rfl h
  rw [whole s plain] at nodup
  have notSlot : id ∉ s.slots := fun member => List.disjoint_of_nodup_append nodup member child
  constructor
  case member => simp [whole s plain, child]
  case kind => simp
  case owned =>
    rw [whole s plain, whole _ (by simpa using plain), List.erase_append_right _ notSlot,
      slots_withoutChild, children_withoutChild]
  case elifs =>
    rw [elifs_withoutChild, List.erase_of_not_mem]
    exact fun entry => plain (kind_of_mem_elifs entry)
  case last? =>
    rw [last?_withoutChild]
    cases last : s.last? with
    | none => rfl
    | some entry => exact absurd (kind_of_last? last) plain
  case scope? => simp

theorem released_forLoop {init test update : Option StmtId} {body : Block}
    (nodup : (forLoop init test update body).owned.Nodup)
    (h : (forLoop init test update body).unlink id = (rest, true)) :
    (forLoop init test update body).Released id rest := by
  by_cases inHeader : init = some id ∨ test = some id ∨ update = some id
  · simp only [unlink, if_pos inHeader] at h
    cases h
    have erased := nodup.erase_eq_filter id
    simp only [owned, slots, children, body?, Option.map_some, Option.getD_some,
      List.nodup_append, List.mem_append, Option.mem_toList] at nodup
    have notChild : ∀ c ∈ body.children, c ≠ id := by grind
    have kept (o : Option StmtId) : o.toList.filter (· != id) = (o.filter (· ≠ id)).toList := by
      cases o <;> simp [Option.filter, List.filter_cons]
      split <;> simp_all
    refine ⟨by simp [owned, slots, children, body?]; grind, rfl, ?_, rfl, rfl, rfl⟩
    rw [erased]
    simp only [owned, slots, children, body?, Option.map_some, Option.getD_some,
      List.filter_append, kept]
    rw [List.filter_eq_self.mpr (by simpa using notChild)]
  · rw [unlink_forLoop inHeader] at h
    exact released_child nodup nofun h

theorem released_of_unlink {s : Stmt} (nodup : s.owned.Nodup) (h : s.unlink id = (rest, true)) :
    s.Released id rest := by
  cases s
  case conditional => exact released_conditional nodup h
  case forLoop => exact released_forLoop nodup h
  all_goals exact released_child nodup nofun h

end KernelTree.Stmt
