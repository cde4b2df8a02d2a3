import KernelTree.Proofs.Statement.Renumbering
/-! Statements that say the same, each in a tree of its own. What they own corresponds by one
relation, in the same roles, and what their names stand for by another. Expressions, declarations
and signatures are compared as plain C has them. -/
namespace KernelTree

variable {R R' S : StmtId → StmtId → Prop}

/-- Pairs of appended lists are pairs of their parts, if the first parts are equally long. -/
theorem forall₂_of_append {P : α → β → Prop} {l m : List α} {l' m' : List β}
    (lengths : l.length = l'.length) (pairs : List.Forall₂ P (l ++ m) (l' ++ m')) :
    List.Forall₂ P l l' ∧ List.Forall₂ P m m' := by
  have front := List.forall₂_take_append _ _ _ pairs
  have back := List.forall₂_drop_append _ _ _ pairs
  rw [← lengths, List.take_left] at front
  rw [← lengths, List.drop_left] at back
  exact ⟨front, back⟩

theorem forall₂_toList_iff {P : α → β → Prop} {o : Option α} {o' : Option β} :
    List.Forall₂ P o.toList o'.toList ↔ Option.Rel P o o' := by
  cases o <;> cases o' <;> constructor <;> intro h <;> cases h
  case some.some.mp.cons first _ => exact .some first
  case some.some.mpr.some first => exact .cons first .nil
  all_goals constructor

/-- The children correspond in order, and so do the statements that the same names stand for. -/
structure Block.Agrees (R S : StmtId → StmtId → Prop) (b b' : Block) : Prop where
  children : List.Forall₂ R b.children b'.children
  scope : List.Forall₂ (fun e e' => e.1 = e'.1 ∧ S e.2 e'.2) b.scope.entries b'.scope.entries

/-- Functions of one kind with the same head in plain C. -/
structure Signature.Agrees (sig sig' : Signature) : Prop where
  kind : sig.kind = sig'.kind
  text : sig.render .plain = sig'.render .plain

namespace Stmt

/-- Statements of one kind that say the same, apart from the numbers in them. -/
inductive Agrees (R S : StmtId → StmtId → Prop) : Stmt → Stmt → Prop
  | block (body : b.Agrees R S b') : Agrees R S (.block b) (.block b')
  | pragma (text : a.text = a'.text) : Agrees R S (.pragma a) (.pragma a')
  | prototype (sig : f.Agrees f') : Agrees R S (.prototype f) (.prototype f')
  | function (sig : f.Agrees f') (body : b.Agrees R S b') :
    Agrees R S (.function f b) (.function f' b')
  | access {level : Access} : Agrees R S (.access level) (.access level)
  | expression (value : e.render .plain = e'.render .plain) :
    Agrees R S (.expression e) (.expression e')
  | declaration (vars : List.Forall₂ (fun d d' => d.render .plain = d'.render .plain) l l') :
    Agrees R S (.declaration l) (.declaration l')
  | goto (target : a.text = a'.text) : Agrees R S (.goto a) (.goto a')
  | label (name : a.text = a'.text) : Agrees R S (.label a) (.label a')
  | namespaceBlock (name : a.text = a'.text) (body : b.Agrees R S b') :
    Agrees R S (.namespaceBlock a b) (.namespaceBlock a' b')
  | conditional (condition : R c c') (body : b.Agrees R S b') (elifs : List.Forall₂ R ids ids')
    (last : Option.Rel R o o') : Agrees R S (.conditional c b ids o) (.conditional c' b' ids' o')
  | elif (condition : R c c') (body : b.Agrees R S b') : Agrees R S (.elif c b) (.elif c' b')
  | otherwise (body : b.Agrees R S b') : Agrees R S (.otherwise b) (.otherwise b')
  | forLoop (init : Option.Rel R i i') (test : Option.Rel R c c') (update : Option.Rel R u u')
    (body : b.Agrees R S b') : Agrees R S (.forLoop i c u b) (.forLoop i' c' u' b')
  | whileLoop {bodyFirst : Bool} (condition : R c c') (body : b.Agrees R S b') :
    Agrees R S (.whileLoop c b bodyFirst) (.whileLoop c' b' bodyFirst)
  | switch (condition : R c c') (body : b.Agrees R S b') : Agrees R S (.switch c b) (.switch c' b')
  | caseLabel (value : e.render .plain = e'.render .plain) :
    Agrees R S (.caseLabel e) (.caseLabel e')
  | defaultLabel : Agrees R S .defaultLabel .defaultLabel
  | continueJump : Agrees R S .continueJump .continueJump
  | breakJump : Agrees R S .breakJump .breakJump
  | returnJump (value : Option.Rel (fun e e' => e.render .plain = e'.render .plain) v v') :
    Agrees R S (.returnJump v) (.returnJump v')

variable {s s' : Stmt}

namespace Agrees

theorem kind (agrees : Agrees R S s s') : s.kind = s'.kind := by
  cases agrees <;> rfl

/-- What the statements own corresponds in source order. -/
theorem owned (agrees : Agrees R S s s') : List.Forall₂ R s.owned s'.owned := by
  cases agrees
  all_goals
    simp only [Stmt.owned, slots, Stmt.children, body?, Option.map_some, Option.map_none,
      Option.getD_some, Option.getD_none, List.append_nil, List.nil_append, List.cons_append]
  case conditional condition body elifs last =>
    exact .cons condition
      (List.rel_append (List.rel_append body.children elifs) (forall₂_toList_iff.mpr last))
  case forLoop init test update body =>
    exact List.rel_append (List.rel_append (List.rel_append (forall₂_toList_iff.mpr init)
      (forall₂_toList_iff.mpr test)) (forall₂_toList_iff.mpr update)) body.children
  case block body | otherwise body | function body | namespaceBlock body => exact body.children
  case elif condition body | whileLoop condition body | switch condition body =>
    exact .cons condition body.children
  all_goals exact .nil

/-- Statements that agree but for what they own agree altogether if that corresponds as well. -/
theorem refine (agrees : Agrees R S s s') (owned : List.Forall₂ R' s.owned s'.owned) :
    Agrees R' S s s' := by
  have header {P : StmtId → StmtId → Prop} {x x' : StmtId} {l l' : List StmtId}
      (pairs : List.Forall₂ P (x :: l) (x' :: l')) : P x x' ∧ List.Forall₂ P l l' :=
    List.forall₂_cons.mp pairs
  have optional {o o' : Option StmtId} (rel : Option.Rel R o o') :
      o.toList.length = o'.toList.length := (forall₂_toList_iff.mpr rel).length_eq
  cases agrees
  all_goals
    simp only [Stmt.owned, slots, Stmt.children, body?, Option.map_some, Option.map_none,
      Option.getD_some, Option.getD_none, List.append_nil, List.nil_append,
      List.cons_append] at owned
  case block body => exact .block ⟨owned, body.scope⟩
  case otherwise body => exact .otherwise ⟨owned, body.scope⟩
  case function sig body => exact .function sig ⟨owned, body.scope⟩
  case namespaceBlock name body => exact .namespaceBlock name ⟨owned, body.scope⟩
  case elif condition body =>
    obtain ⟨first, rest⟩ := header owned
    exact .elif first ⟨rest, body.scope⟩
  case whileLoop condition body =>
    obtain ⟨first, rest⟩ := header owned
    exact .whileLoop first ⟨rest, body.scope⟩
  case switch condition body =>
    obtain ⟨first, rest⟩ := header owned
    exact .switch first ⟨rest, body.scope⟩
  case conditional condition body elifs last =>
    obtain ⟨first, rest⟩ := header owned
    obtain ⟨front, final⟩ := forall₂_of_append
      (by rw [List.length_append, List.length_append, body.children.length_eq, elifs.length_eq])
      rest
    obtain ⟨inside, entries⟩ := forall₂_of_append body.children.length_eq front
    exact .conditional first ⟨inside, body.scope⟩ entries (forall₂_toList_iff.mp final)
  case forLoop init test update body =>
    have first := optional init
    have second := optional test
    have third := optional update
    obtain ⟨parts, inside⟩ := forall₂_of_append (by simp only [List.length_append]; omega) owned
    obtain ⟨two, three⟩ := forall₂_of_append (by simp only [List.length_append]; omega) parts
    obtain ⟨one, two⟩ := forall₂_of_append first two
    exact .forLoop (forall₂_toList_iff.mp one) (forall₂_toList_iff.mp two)
      (forall₂_toList_iff.mp three) ⟨inside, body.scope⟩
  case pragma text => exact .pragma text
  case prototype sig => exact .prototype sig
  case access => exact .access
  case expression value => exact .expression value
  case declaration vars => exact .declaration vars
  case goto target => exact .goto target
  case label name => exact .label name
  case caseLabel value => exact .caseLabel value
  case defaultLabel => exact .defaultLabel
  case continueJump => exact .continueJump
  case breakJump => exact .breakJump
  case returnJump value => exact .returnJump value

end Agrees
end Stmt
end KernelTree
