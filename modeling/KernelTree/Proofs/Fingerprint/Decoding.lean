import KernelTree.Proofs.Observation
import KernelTree.Proofs.Statement.Agreement
/-! What the bytes of a subtree determine. Behind the code of its kind, the data of a statement
says by itself where it ends, and the counts in it say how many statements follow that belong to
it. So equal bytes come from subtrees that agree place by place. -/
namespace KernelTree

/-- The texts that enter the bytes of a statement, names of its scope apart. -/
def Stmt.words : Stmt → List String
  | .pragma token | .goto token | .label token | .namespaceBlock token _ => [token.text]
  | .prototype sig | .function sig _ => [sig.render .plain]
  | .access level => [level.word]
  | .expression value | .caseLabel value | .returnJump (some value) => [value.render .plain]
  | .declaration vars => vars.map (·.render .plain)
  | _ => []

/-- The counts of a block and the lengths of its names fit into four bytes. -/
structure Block.Short (b : Block) : Prop where
  children : b.children.length < 2 ^ 32
  size : b.scope.entries.length < 2 ^ 32
  names : ∀ e ∈ b.scope.entries, e.1.utf8ByteSize < 2 ^ 32

/-- The counts and the lengths of texts that enter the bytes of a statement fit into four bytes. -/
structure Stmt.Short (s : Stmt) : Prop where
  body : ∀ b ∈ s.body?, b.Short
  elifs : s.elifs.length < 2 ^ 32
  count : s.words.length < 2 ^ 32
  words : ∀ w ∈ s.words, w.utf8ByteSize < 2 ^ 32

instance (b : Block) : Decidable b.Short :=
  decidable_of_iff (b.children.length < 2 ^ 32 ∧ b.scope.entries.length < 2 ^ 32 ∧
    ∀ e ∈ b.scope.entries, e.1.utf8ByteSize < 2 ^ 32)
    ⟨fun ⟨children, size, names⟩ => ⟨children, size, names⟩,
      fun ⟨children, size, names⟩ => ⟨children, size, names⟩⟩

instance (s : Stmt) : Decidable s.Short :=
  decidable_of_iff ((∀ b ∈ s.body?, b.Short) ∧ s.elifs.length < 2 ^ 32 ∧
    s.words.length < 2 ^ 32 ∧ ∀ w ∈ s.words, w.utf8ByteSize < 2 ^ 32)
    ⟨fun ⟨body, elifs, count, words⟩ => ⟨body, elifs, count, words⟩,
      fun ⟨body, elifs, count, words⟩ => ⟨body, elifs, count, words⟩⟩

/-- Codes fit into one byte and differ for different kinds. -/
theorem StmtKind.eq_of_code {k k' : StmtKind} (same : k.code.toUInt8 = k'.code.toUInt8) :
    k = k' := by
  have bound (k : StmtKind) : k.code.toUInt8.toNat = k.code := by cases k <;> rfl
  have codes : k.code = k'.code := by rw [← bound k, same, bound k']
  exact Option.some.inj (by rw [← ofCode?_code k, codes, ofCode?_code])

namespace Fingerprint

variable {order order' : List StmtId} {u v : List UInt8}

/-- Two statements stand at the same place of two orders, or outside of both. -/
def SamePlace (order order' : List StmtId) (x y : StmtId) : Prop :=
  order.idxOf? x = order'.idxOf? y

/-! Pieces of the format. Each is determined, and so is its end, whatever follows it. -/

theorem length_littleEndian (n value : Nat) : (littleEndian n value).length = n := by
  induction n generalizing value with
  | zero => rfl
  | succ n ih => simp [littleEndian, ih]

theorem count_cut {a b : Nat} (small : a < 2 ^ 32) (small' : b < 2 ^ 32)
    (same : count a ++ u = count b ++ v) : a = b ∧ u = v := by
  obtain ⟨front, rest⟩ := List.append_inj same (by simp [count, length_littleEndian])
  exact ⟨littleEndian_inj (by omega) (by omega) front, rest⟩

theorem text_cut {s s' : String} (short : s.utf8ByteSize < 2 ^ 32)
    (short' : s'.utf8ByteSize < 2 ^ 32) (same : text s ++ u = text s' ++ v) : s = s' ∧ u = v := by
  have size (s : String) : s.toUTF8.data.toList.length = s.utf8ByteSize := by simp
  simp only [text, List.append_assoc, size] at same
  obtain ⟨lengths, behind⟩ := count_cut short short' same
  obtain ⟨bytes, rest⟩ := List.append_inj behind (by rw [size, size, lengths])
  refine ⟨?_, rest⟩
  apply String.toByteArray_inj.mp
  exact ByteArray.ext (Array.toList_inj.mp bytes)

/-- No place of a short order is taken for the mark of what is outside. -/
theorem position_cut {x y : StmtId} (short : order.length < 2 ^ 32)
    (short' : order'.length < 2 ^ 32) (same : position order x ++ u = position order' y ++ v) :
    SamePlace order order' x y ∧ u = v := by
  have bound {order : List StmtId} {x : StmtId} (short : order.length < 2 ^ 32) :
      ∀ i ∈ order.idxOf? x, i < outside := by
    intro i found
    have := (List.findIdx?_eq_some_iff_findIdx_eq.mp found).1
    simp only [outside]
    omega
  have first := bound (x := x) short
  have second := bound (x := y) short'
  have small {o : Option Nat} (below : ∀ i ∈ o, i < outside) : o.getD outside < 2 ^ 32 := by
    cases o with
    | none => decide
    | some i =>
      have := below i rfl
      simp only [outside, Option.getD_some] at this ⊢
      omega
  obtain ⟨places, rest⟩ := count_cut (small first) (small second) same
  refine ⟨?_, rest⟩
  rw [SamePlace]
  cases found : order.idxOf? x <;> cases found' : order'.idxOf? y
  · rfl
  · have := second _ found'
    simp only [found, found', Option.getD_none, Option.getD_some] at places
    omega
  · have := first _ found
    simp only [found, found', Option.getD_none, Option.getD_some] at places
    omega
  · simpa [found, found'] using places

/-- As many pieces on either side, one behind the other. -/
theorem flatMap_cut {f : α → List UInt8} {g : β → List UInt8} {P : α → β → Prop} {l : List α}
    {l' : List β} (lengths : l.length = l'.length)
    (piece : ∀ a ∈ l, ∀ b ∈ l', ∀ u v, f a ++ u = g b ++ v → P a b ∧ u = v)
    (same : l.flatMap f ++ u = l'.flatMap g ++ v) : List.Forall₂ P l l' ∧ u = v := by
  induction l generalizing l' with
  | nil =>
    cases l' with
    | nil => exact ⟨.nil, same⟩
    | cons => cases lengths
  | cons a l ih =>
    cases l' with
    | nil => cases lengths
    | cons b l' =>
      simp only [List.flatMap_cons, List.append_assoc] at same
      obtain ⟨first, behind⟩ := piece a List.mem_cons_self b List.mem_cons_self _ _ same
      obtain ⟨others, rest⟩ := ih (Nat.succ.inj lengths)
        (fun a inside b inside' => piece a (.tail _ inside) b (.tail _ inside')) behind
      exact ⟨.cons first others, rest⟩

theorem block_cut {b b' : Block} (short : b.Short) (short' : b'.Short)
    (places : order.length < 2 ^ 32) (places' : order'.length < 2 ^ 32)
    (same : block order b ++ u = block order' b' ++ v) :
    b.Agrees (fun _ _ => True) (SamePlace order order') b' ∧ u = v := by
  simp only [block, List.append_assoc] at same
  obtain ⟨children, behind⟩ := count_cut short.children short'.children same
  obtain ⟨names, behind⟩ := count_cut short.size short'.size behind
  have entry (e : String × StmtId) (inside : e ∈ b.scope.entries) (e' : String × StmtId)
      (inside' : e' ∈ b'.scope.entries) (u v : List UInt8)
      (same : (text e.1 ++ position order e.2) ++ u = (text e'.1 ++ position order' e'.2) ++ v) :
      (e.1 = e'.1 ∧ SamePlace order order' e.2 e'.2) ∧ u = v := by
    simp only [List.append_assoc] at same
    obtain ⟨name, behind⟩ := text_cut (short.names e inside) (short'.names e' inside') same
    obtain ⟨place, rest⟩ := position_cut places places' behind
    exact ⟨⟨name, place⟩, rest⟩
  obtain ⟨scope, rest⟩ := flatMap_cut names entry behind
  exact ⟨⟨List.forall₂_iff_zip.mpr ⟨children, fun _ => trivial⟩, scope⟩, rest⟩

theorem signature_cut {f f' : Signature} (short : (f.render .plain).utf8ByteSize < 2 ^ 32)
    (short' : (f'.render .plain).utf8ByteSize < 2 ^ 32)
    (same : signature f ++ u = signature f' ++ v) : f.Agrees f' ∧ u = v := by
  obtain ⟨code, behind⟩ := List.cons.inj same
  obtain ⟨text, rest⟩ := text_cut short short' behind
  refine ⟨⟨?_, text⟩, rest⟩
  revert code
  cases f.kind <;> cases f'.kind <;> decide

theorem flag_inj {b b' : Bool} (same : flag b = flag b') : b = b' := by
  revert same
  cases b <;> cases b' <;> decide

/-- The byte in front of a `for` loop says which parts of its header there are. -/
theorem parts_inj {a b c a' b' c' : Bool}
    (same : flag a + 2 * flag b + 4 * flag c = flag a' + 2 * flag b' + 4 * flag c') :
    a = a' ∧ b = b' ∧ c = c' := by
  revert a b c a' b' c'
  decide

theorem rel_of_isSome {o o' : Option StmtId} (same : o.isSome = o'.isSome) :
    Option.Rel (fun _ _ => True) o o' := by
  cases o <;> cases o'
  case none.none => exact .none
  case some.some => exact .some trivial
  all_goals cases same

theorem statement_cut {s s' : Stmt} (short : s.Short) (short' : s'.Short)
    (places : order.length < 2 ^ 32) (places' : order'.length < 2 ^ 32)
    (whole : statement order s ++ u = statement order' s' ++ v) :
    s.Agrees (fun _ _ => True) (SamePlace order order') s' ∧ u = v := by
  have kind : s.kind = s'.kind := StmtKind.eq_of_code (List.cons.inj whole).1
  have same : payload order s ++ u = payload order' s' ++ v := (List.cons.inj whole).2
  have blocks {b b' : Block} (inside : b ∈ s.body?) (inside' : b' ∈ s'.body?) {u v : List UInt8}
      (same : block order b ++ u = block order' b' ++ v) :=
    block_cut (short.body b inside) (short'.body b' inside') places places' same
  have texts {w w' : String} (inside : w ∈ s.words) (inside' : w' ∈ s'.words) {u v : List UInt8}
      (same : text w ++ u = text w' ++ v) :=
    text_cut (short.words w inside) (short'.words w' inside') same
  have heads {f f' : Signature} (inside : f.render .plain ∈ s.words)
      (inside' : f'.render .plain ∈ s'.words) {u v : List UInt8}
      (same : signature f ++ u = signature f' ++ v) :=
    signature_cut (short.words _ inside) (short'.words _ inside') same
  cases s <;> cases s' <;> try cases kind
  all_goals
    simp only [payload, expr, List.append_assoc, List.cons_append, List.nil_append] at same
  case block.block | otherwise.otherwise =>
    obtain ⟨body, rest⟩ := blocks rfl rfl same
    exact ⟨by constructor; exact body, rest⟩
  case pragma.pragma | goto.goto | label.label | expression.expression | caseLabel.caseLabel =>
    obtain ⟨text, rest⟩ := texts (by simp [Stmt.words]) (by simp [Stmt.words]) same
    exact ⟨by constructor; exact text, rest⟩
  case prototype.prototype =>
    obtain ⟨sig, rest⟩ := heads (by simp [Stmt.words]) (by simp [Stmt.words]) same
    exact ⟨.prototype sig, rest⟩
  case function.function =>
    obtain ⟨sig, behind⟩ := heads (by simp [Stmt.words]) (by simp [Stmt.words]) same
    obtain ⟨body, rest⟩ := blocks rfl rfl behind
    exact ⟨.function sig body, rest⟩
  case namespaceBlock.namespaceBlock =>
    obtain ⟨name, behind⟩ := texts (by simp [Stmt.words]) (by simp [Stmt.words]) same
    obtain ⟨body, rest⟩ := blocks rfl rfl behind
    exact ⟨.namespaceBlock name body, rest⟩
  case access.access level level' =>
    obtain ⟨word, rest⟩ := texts (by simp [Stmt.words]) (by simp [Stmt.words]) same
    have levels : level = level' := by
      revert word
      cases level <;> cases level' <;> decide
    exact ⟨levels ▸ .access, rest⟩
  case declaration.declaration vars vars' =>
    obtain ⟨lengths, behind⟩ := count_cut (by simpa [Stmt.words] using short.count)
      (by simpa [Stmt.words] using short'.count) same
    obtain ⟨vars, rest⟩ := flatMap_cut lengths (fun d inside d' inside' u v =>
      texts (List.mem_map_of_mem inside) (List.mem_map_of_mem inside')) behind
    exact ⟨.declaration vars, rest⟩
  case conditional.conditional condition body elifs last condition' body' elifs' last' =>
    obtain ⟨body, behind⟩ := blocks rfl rfl same
    obtain ⟨entries, behind⟩ := count_cut short.elifs short'.elifs behind
    obtain ⟨final, rest⟩ := List.cons.inj behind
    exact ⟨.conditional trivial body (List.forall₂_iff_zip.mpr ⟨entries, fun _ => trivial⟩)
      (rel_of_isSome (flag_inj final)), rest⟩
  case elif.elif =>
    obtain ⟨body, rest⟩ := blocks rfl rfl same
    exact ⟨.elif trivial body, rest⟩
  case switch.switch =>
    obtain ⟨body, rest⟩ := blocks rfl rfl same
    exact ⟨.switch trivial body, rest⟩
  case forLoop.forLoop =>
    obtain ⟨header, behind⟩ := List.cons.inj same
    obtain ⟨init, test, update⟩ := parts_inj header
    obtain ⟨body, rest⟩ := blocks rfl rfl behind
    exact ⟨.forLoop (rel_of_isSome init) (rel_of_isSome test) (rel_of_isSome update) body, rest⟩
  case whileLoop.whileLoop =>
    obtain ⟨first, behind⟩ := List.cons.inj same
    obtain ⟨body, rest⟩ := blocks rfl rfl behind
    exact ⟨flag_inj first ▸ .whileLoop trivial body, rest⟩
  case returnJump.returnJump value value' =>
    cases value <;> cases value'
    case none.none => exact ⟨.returnJump .none, (List.cons.inj same).2⟩
    case some.some =>
      obtain ⟨text, rest⟩ := texts (by simp [Stmt.words]) (by simp [Stmt.words])
        (List.cons.inj same).2
      exact ⟨.returnJump (.some text), rest⟩
    all_goals exact absurd (List.cons.inj same).1 (by decide)
  case defaultLabel.defaultLabel => exact ⟨.defaultLabel, same⟩
  case continueJump.continueJump => exact ⟨.continueJump, same⟩
  case breakJump.breakJump => exact ⟨.breakJump, same⟩

/-! Bytes of statements that agree. -/

theorem flatMap_eq_of_forall₂ {f : α → List UInt8} {g : β → List UInt8} {P : α → β → Prop}
    {l : List α} {l' : List β} (piece : ∀ {a b}, P a b → f a = g b)
    (pairs : List.Forall₂ P l l') : l.flatMap f = l'.flatMap g := by
  induction pairs with
  | nil => rfl
  | cons first _ ih => rw [List.flatMap_cons, List.flatMap_cons, piece first, ih]

theorem block_eq {R : StmtId → StmtId → Prop} {b b' : Block}
    (agrees : b.Agrees R (SamePlace order order') b') : block order b = block order' b' := by
  have entries : b.scope.entries.flatMap (fun e => text e.1 ++ position order e.2) =
      b'.scope.entries.flatMap fun e => text e.1 ++ position order' e.2 := by
    apply flatMap_eq_of_forall₂ ?_ agrees.scope
    rintro ⟨name, x⟩ ⟨name', y⟩ ⟨rfl, place⟩
    rw [position, position, show order.idxOf? x = order'.idxOf? y from place]
  rw [block, block, agrees.children.length_eq, Scope.size, Scope.size, agrees.scope.length_eq,
    entries]

theorem statement_eq {R : StmtId → StmtId → Prop} {s s' : Stmt}
    (agrees : s.Agrees R (SamePlace order order') s') :
    statement order s = statement order' s' := by
  have present {o o' : Option StmtId} (rel : Option.Rel R o o') : o.isSome = o'.isSome := by
    cases rel <;> rfl
  rw [statement, statement, agrees.kind]
  apply congrArg
  cases agrees
  case prototype sig => rw [payload, payload, signature, signature, sig.kind, sig.text]
  case function sig body =>
    rw [payload, payload, signature, signature, sig.kind, sig.text, block_eq body]
  case declaration vars =>
    rw [payload, payload, vars.length_eq,
      flatMap_eq_of_forall₂ (fun same => congrArg text same) vars]
  case conditional condition body elifs last =>
    rw [payload, payload, block_eq body, elifs.length_eq, present last]
  case forLoop init test update body =>
    rw [payload, payload, present init, present test, present update, block_eq body]
  case returnJump value =>
    cases value with
    | none => rfl
    | some value => rw [payload, payload, expr, expr, value]
  case namespaceBlock name body => rw [payload, payload, name, block_eq body]
  case block body | otherwise body | elif body | whileLoop body | switch body =>
    rw [payload, payload, block_eq body]
  all_goals simp only [payload, expr, *]

end Fingerprint

namespace Tree
open Fingerprint

variable {admitted admitted' : Stmt → Prop} {t t' : Tree} {r r' x y : StmtId}
  {order order' ids ids' : List StmtId}

/-- Two subtrees say the same, place by place. They have equally many statements, and statements
met at the same time are of one kind and say the same; what they own stands at the same places in
the same roles, and the names of their scopes stand for statements at the same places. -/
def Parallel (t : Tree) (r : StmtId) (t' : Tree) (r' : StmtId) : Prop :=
  let same := SamePlace (t.preorder r) (t'.preorder r')
  List.Forall₂ (fun x y => ∃ s s', t.stmt? x = some s ∧ t'.stmt? y = some s' ∧
    s.Agrees same same s') (t.preorder r) (t'.preorder r')

/-- All counts and lengths of texts that enter the bytes of a subtree fit into four bytes. -/
structure FitsStream (t : Tree) (r : StmtId) : Prop where
  size : (t.preorder r).length < 2 ^ 32
  short : ∀ x ∈ t.preorder r, ∀ s ∈ t.stmt? x, s.Short

/-- Two walks on which statements own equally many others meet, at the same time, what these own. -/
theorem Walk.pairs (walk : t.Walk ids order) (walk' : t'.Walk ids' order')
    (lengths : ids.length = ids'.length)
    (owned : List.Forall₂ (fun x y => (t.owned x).length = (t'.owned y).length) order order') :
    List.Forall₂ (fun x y => (x, y) ∈ order.zip order') ids ids' ∧
      ∀ x y, (x, y) ∈ order.zip order' →
        List.Forall₂ (fun x y => (x, y) ∈ order.zip order') (t.owned x) (t'.owned y) := by
  induction walk generalizing ids' order' with
  | done =>
    cases ids' with
    | nil => exact ⟨.nil, by simp⟩
    | cons => cases lengths
  | @visit id pending order live rest ih =>
    cases walk' with
    | done => cases lengths
    | @visit id' pending' order' live' rest' =>
      obtain ⟨first, owned⟩ := List.forall₂_cons.mp owned
      obtain ⟨next, inner⟩ := ih rest'
        (by rw [List.length_append, List.length_append, first, Nat.succ.inj lengths]) owned
      have later {x y : StmtId} (member : (x, y) ∈ order.zip order') :
          (x, y) ∈ (id :: order).zip (id' :: order') := List.mem_cons_of_mem _ member
      obtain ⟨here, waiting⟩ := forall₂_of_append first next
      refine ⟨.cons List.mem_cons_self (waiting.imp fun _ _ => later), ?_⟩
      intro x y member
      rcases List.mem_cons.mp member with same | member
      · cases same
        exact here.imp fun _ _ => later
      · exact (inner x y member).imp fun _ _ => later

theorem samePlace_of_zip (nodup : order.Nodup) (nodup' : order'.Nodup)
    (member : (x, y) ∈ order.zip order') : SamePlace order order' x y := by
  obtain ⟨i, bound, here⟩ := List.getElem_of_mem member
  rw [List.getElem_zip] at here
  obtain ⟨rfl, rfl⟩ := Prod.mk.inj here
  rw [SamePlace, idxOf?_of_mem (List.getElem_mem _), idxOf?_of_mem (List.getElem_mem _),
    nodup.idxOf_getElem, nodup'.idxOf_getElem]

namespace Linked
variable (h : t.Linked) (h' : t'.Linked) (live : t.contains r) (live' : t'.contains r')
include h h' live live'

/-- Equal bytes come from subtrees that say the same. -/
theorem parallel_of_stream (fits : t.FitsStream r) (fits' : t'.FitsStream r')
    (same : stream t r = stream t' r') : t.Parallel r t' r' := by
  have walk := h.walk_preorder live
  have walk' := h'.walk_preorder live'
  obtain ⟨lengths, behind⟩ := count_cut fits.size fits'.size same
  have statements : List.Forall₂ (fun x y => ∃ s s', t.stmt? x = some s ∧ t'.stmt? y = some s' ∧
      s.Agrees (fun _ _ => True) (SamePlace (t.preorder r) (t'.preorder r')) s')
      (t.preorder r) (t'.preorder r') := by
    refine (flatMap_cut (u := []) (v := []) lengths ?_ (by simpa using behind)).1
    intro x inside y inside' u v same
    obtain ⟨node, found⟩ := Option.isSome_iff_exists.mp (walk.contains_of_mem inside)
    obtain ⟨node', found'⟩ := Option.isSome_iff_exists.mp (walk'.contains_of_mem inside')
    rw [found, found'] at same
    have stmt := stmt?_of_get? found
    have stmt' := stmt?_of_get? found'
    obtain ⟨agrees, rest⟩ := statement_cut (fits.short x inside _ stmt)
      (fits'.short y inside' _ stmt') fits.size fits'.size same
    exact ⟨⟨_, _, stmt, stmt', agrees⟩, rest⟩
  have pairs := (walk.pairs walk' rfl (statements.imp fun x y ⟨s, s', found, found', agrees⟩ => by
    rw [owned_of_stmt? found, owned_of_stmt? found']
    exact agrees.owned.length_eq)).2
  obtain ⟨-, agree⟩ := List.forall₂_iff_zip.mp statements
  refine List.forall₂_iff_zip.mpr ⟨lengths, fun {x y} member => ?_⟩
  obtain ⟨s, s', found, found', agrees⟩ := agree member
  have owned := pairs x y member
  rw [owned_of_stmt? found, owned_of_stmt? found'] at owned
  exact ⟨s, s', found, found', agrees.refine (owned.imp fun _ _ =>
    samePlace_of_zip (h.nodup_preorder live) (h'.nodup_preorder live'))⟩

end Linked

/-- Subtrees that say the same have the same bytes. -/
theorem Parallel.stream_eq (parallel : t.Parallel r t' r') : stream t r = stream t' r' := by
  rw [stream, stream, List.Forall₂.length_eq parallel]
  apply congrArg
  apply flatMap_eq_of_forall₂ ?_ parallel
  rintro x y ⟨s, s', found, found', agrees⟩
  obtain ⟨node, there, rfl⟩ := Option.map_eq_some_iff.mp found
  obtain ⟨node', there', rfl⟩ := Option.map_eq_some_iff.mp found'
  rw [there, there']
  exact statement_eq agrees

/-- The bytes of a subtree tell it from all others that say anything else. -/
theorem Reachable.stream_eq_iff (h : Reachable admitted t) (h' : Reachable admitted' t')
    (live : t.contains r) (live' : t'.contains r') (fits : t.FitsStream r)
    (fits' : t'.FitsStream r') :
    stream t r = stream t' r' ↔ t.Parallel r t' r' := by
  constructor
  · exact h.rooted.toLinked.parallel_of_stream h'.rooted.toLinked live live' fits fits'
  · exact Parallel.stream_eq

/-- A loop with a declaration in its header is built in two trees, in one of them behind a statement
that has been removed and in another order. -/
theorem stream_eq_iff_of_loops :
    let variable_ : Stmt := .declaration [{
      name := ⟨.identifier, "i", .none⟩, type := .named "int",
      init := some (.literal ⟨.literal, "0", .none⟩) }]
    let test : Expr := .ident ⟨.identifier, "i", .none⟩
    let t := initial.run [
      .add variable_ .none, .addExpr test, .push root (.forLoop (some ⟨1⟩) (some ⟨2⟩) none .empty),
      .declare ⟨3⟩ "i" ⟨1⟩, .push ⟨3⟩ .continueJump]
    let t' := initial.run [
      .push root .breakJump, .remove ⟨1⟩, .addExpr test, .add variable_ ⟨0, 4, 9⟩,
      .push root (.forLoop (some ⟨3⟩) (some ⟨2⟩) none .empty), .push ⟨4⟩ .continueJump,
      .declare ⟨4⟩ "i" ⟨3⟩]
    Reachable (fun _ => True) t ∧ Reachable (fun _ => True) t' ∧ t.contains ⟨3⟩ ∧ t'.contains ⟨4⟩ ∧
      t.FitsStream ⟨3⟩ ∧ t'.FitsStream ⟨4⟩ ∧ stream t ⟨3⟩ = stream t' ⟨4⟩ ∧
      t.Parallel ⟨3⟩ t' ⟨4⟩ := by
  intro variable_ test t t'
  have reachable : Reachable (fun _ => True) t := Reachable.initial.run fun _ _ _ _ => trivial
  have reachable' : Reachable (fun _ => True) t' := Reachable.initial.run fun _ _ _ _ => trivial
  have live : t.contains ⟨3⟩ := by decide +kernel
  have live' : t'.contains ⟨4⟩ := by decide +kernel
  have fits : t.FitsStream ⟨3⟩ := ⟨by decide +kernel, by decide +kernel⟩
  have fits' : t'.FitsStream ⟨4⟩ := ⟨by decide +kernel, by decide +kernel⟩
  have same : stream t ⟨3⟩ = stream t' ⟨4⟩ := by decide +kernel
  exact ⟨reachable, reachable', live, live', fits, fits', same,
    (reachable.stream_eq_iff reachable' live live' fits fits').mp same⟩

end Tree
end KernelTree
