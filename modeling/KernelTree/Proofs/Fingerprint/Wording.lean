import KernelTree.Dialect.Builtin
import KernelTree.Proofs.Fingerprint.Decoding
import KernelTree.Proofs.Fingerprint.Payload
/-! What the bytes of a tree leave open about its text. They hold expressions, declarations and
signatures as plain C has them, so words that only a dialect has, such as those for address
spaces, do not enter them. Trees with equal bytes have equal texts in every dialect that words both
alike. -/
namespace KernelTree

variable {R S : StmtId → StmtId → Prop} {t t' : Tree} {d : Dialect} {s s' : Stmt}
  {id id' x y r r' : StmtId} {place : Emission.Place} {depth : Nat}

namespace Stmt

/-- The text of the expression, the declarations or the signature of a statement in a dialect. -/
def wording (d : Dialect) : Stmt → String
  | prototype sig | function sig _ => Emission.signatureText d sig
  | expression value | caseLabel value | returnJump (some value) => value.render d.toSpelling
  | declaration vars => VarDecl.renderGroup d.toSpelling vars
  | _ => ""

section spelt
variable {sp : Spelling} (same : s.content.spelt sp = s'.content.spelt sp)
include same

theorem token_of_spelt : s.content.token.map (·.text) = s'.content.token.map (·.text) := by
  have token := congrArg (fun c => c.token.map (·.text)) same
  simpa [Content.spelt, Function.comp_def, Token.identifier] using token

theorem signature_of_spelt : s.content.signature.map (fun f => (f.kind, f.render sp)) =
    s'.content.signature.map fun f => (f.kind, f.render sp) := by
  have signature := congrArg (fun c => c.signature.map fun f => (f.kind, f.render sp)) same
  have kind (f : Signature) : (f.spelt sp).kind = f.kind := rfl
  simpa [Content.spelt, Function.comp_def, kind] using signature

theorem value_of_spelt :
    s.content.value.map (·.render sp) = s'.content.value.map (·.render sp) := by
  have value := congrArg (fun c => c.value.map (·.render sp)) same
  simpa [Content.spelt, Function.comp_def] using value

theorem vars_of_spelt : s.content.vars.map (·.render sp) = s'.content.vars.map (·.render sp) ∧
    VarDecl.renderGroup sp s.content.vars = VarDecl.renderGroup sp s'.content.vars := by
  have vars : s.content.vars.map (VarDecl.spelt sp) = s'.content.vars.map (VarDecl.spelt sp) :=
    congrArg Content.vars same
  constructor
  · simpa [Function.comp_def] using congrArg (List.map (VarDecl.render sp)) vars
  · rw [← VarDecl.renderGroup_spelt, vars, VarDecl.renderGroup_spelt]

end spelt

/-- The bytes of a statement tell no more than its payload with the words of plain C in place. They
miss the address spaces of its types, which have no words there, and whether a name is a name or a
literal. -/
theorem words_eq_of_spelt (kinds : s.kind = s'.kind)
    (same : s.content.spelt .plain = s'.content.spelt .plain) : s.words = s'.words := by
  have token := token_of_spelt same
  have signature := signature_of_spelt same
  have access : s.content.access = s'.content.access := (congrArg Content.access same :)
  have value := value_of_spelt same
  have vars := (vars_of_spelt same).1
  clear same
  cases s <;> cases s' <;> try cases kinds
  all_goals simp_all [words, content]
  case returnJump v v' => cases v <;> cases v' <;> simp_all

/-- A dialect words statements alike if their payloads are the same with its words in place. -/
theorem wording_eq_of_spelt (kinds : s.kind = s'.kind)
    (same : s.content.spelt d.toSpelling = s'.content.spelt d.toSpelling) :
    s.wording d = s'.wording d := by
  have signature := signature_of_spelt same
  have value := value_of_spelt same
  have vars := (vars_of_spelt same).2
  clear same
  cases s <;> cases s' <;> try cases kinds
  all_goals simp_all [wording, content, Emission.signatureText]
  case returnJump v v' => cases v <;> cases v' <;> simp_all

/-- The name of a coordinate and a literal that reads like it have the same bytes, but CUDA has a
word for the name. -/
example :
    let name : Stmt := .expression (.ident ⟨.identifier, "inner_id0", .none⟩)
    let literal : Stmt := .expression (.literal ⟨.literal, "inner_id0", .none⟩)
    name.words = literal.words ∧ name.wording .cuda = "threadIdx.x" ∧
      literal.wording .cuda = "inner_id0" :=
  ⟨words_eq_of_spelt rfl rfl, by decide, by decide⟩

theorem Agrees.children (agrees : Agrees R S s s') : List.Forall₂ R s.children s'.children := by
  cases agrees
  case block body | otherwise body | function body | namespaceBlock body | conditional body _ _
      | elif body | forLoop body | whileLoop body | switch body => exact body.children
  all_goals exact .nil

theorem Agrees.chain (agrees : Agrees R S s s') : List.Forall₂ R s.chain s'.chain := by
  cases agrees
  case conditional elifs last => exact List.rel_append elifs (forall₂_toList_iff.mpr last)
  all_goals exact .nil

end Stmt

namespace Emission

theorem inlineText_agrees (found : t.stmt? x = some s) (found' : t'.stmt? y = some s')
    (agrees : s.Agrees R S s') (worded : s.wording d = s'.wording d) :
    inlineText t d x = inlineText t' d y := by
  obtain ⟨⟨_, _, _⟩, there, rfl⟩ := Option.map_eq_some_iff.mp found
  obtain ⟨⟨_, _, _⟩, there', rfl⟩ := Option.map_eq_some_iff.mp found'
  rw [inlineText, there, inlineText, there']
  cases agrees
  case expression | declaration => exact worded
  all_goals rfl

/-- Statements that agree and are worded alike are printed alike around the same texts. -/
theorem frame_agrees {children : Nat → String} {entries : String} (agrees : s.Agrees R S s')
    (worded : s.wording d = s'.wording d) (top : id = Tree.root ↔ id' = Tree.root)
    (inline : List.Forall₂ (fun x y => inlineText t d x = inlineText t' d y) s.owned s'.owned) :
    Layout.frame t d place depth id children entries s =
      Layout.frame t' d place depth id' children entries s' := by
  -- Each statement mentioned in a header has the same text in both trees.
  have mentioned := agrees.refine inline
  have headed (word : String) {x y : StmtId} (same : inlineText t d x = inlineText t' d y) :
      Layout.frame.headed t d word x = Layout.frame.headed t' d word y := by
    rw [Layout.frame.headed, same, Layout.frame.headed]
  have part {o o' : Option StmtId}
      (same : Option.Rel (fun x y => inlineText t d x = inlineText t' d y) o o') :
      Layout.frame.part t d o = Layout.frame.part t' d o' := by
    cases same with
    | none => rfl
    | some same => exact same
  cases mentioned
  case block body => simp only [Layout.frame, top]
  case pragma text => simp only [Layout.frame, text]
  case prototype sig | function sig body | expression value | caseLabel value | declaration vars =>
    simp only [Stmt.wording] at worded
    simp only [Layout.frame, worded]
  case goto text | label text => simp only [Layout.frame, text]
  case namespaceBlock name body => simp only [Layout.frame, name]
  case conditional condition body elifs last => simp only [Layout.frame, headed _ condition]
  case elif condition body => simp only [Layout.frame, headed _ condition]
  case switch condition body => simp only [Layout.frame, headed _ condition]
  case whileLoop bodyFirst condition body =>
    cases bodyFirst <;> simp only [Layout.frame, headed _ condition]
  case forLoop init test update body =>
    simp only [Layout.frame, part init, part test, part update]
  case returnJump value =>
    cases value with
    | none => rfl
    | some =>
      simp only [Stmt.wording] at worded
      simp only [Layout.frame, worded]
  all_goals rfl

theorem zip_of_samePlace {order order' : List StmtId} (inside : x ∈ order)
    (same : Fingerprint.SamePlace order order' x y) : (x, y) ∈ order.zip order' := by
  rw [Fingerprint.SamePlace, Tree.idxOf?_of_mem inside, eq_comm] at same
  obtain ⟨bound, here, -⟩ := List.findIdx?_eq_some_iff_getElem.mp same
  apply List.mem_of_getElem? (i := order.idxOf x)
  rw [List.getElem?_zip_eq_some]
  refine ⟨?_, ?_⟩
  · exact List.getElem?_idxOf inside
  · rw [List.getElem?_eq_getElem bound]
    simpa using here

section
variable (parallel : t.Parallel r t' r') (live : t.contains r)
  (worded : ∀ x y, (x, y) ∈ (t.preorder r).zip (t'.preorder r') → ∀ s ∈ t.stmt? x,
    ∀ s' ∈ t'.stmt? y, s.wording d = s'.wording d)
  (top : ∀ x y, (x, y) ∈ (t.preorder r).zip (t'.preorder r') → (x = Tree.root ↔ y = Tree.root))
include parallel live worded top

theorem layout_parallel {h : t.Linked} {h' : t'.Linked}
    (member : (x, y) ∈ (t.preorder r).zip (t'.preorder r')) (place : Place) (depth : Nat) :
    layout h d place depth x = layout h' d place depth y := by
  have walk := h.walk_preorder live
  obtain ⟨-, pairs⟩ := List.forall₂_iff_zip.mp parallel
  refine h.descending (motive := fun x => ∀ y, (x, y) ∈ (t.preorder r).zip (t'.preorder r') →
    ∀ place depth, layout h d place depth x = layout h' d place depth y) ?_
    (walk.contains_of_mem (List.of_mem_zip member).1) y member place depth
  intro x alive ih y member place depth
  obtain ⟨s, s', found, found', agrees⟩ := pairs member
  have owned : s.owned ⊆ t.preorder r := by
    rw [← Tree.owned_of_stmt? found]
    exact walk.owned_subset (List.of_mem_zip member).1
  have within := s.children_chain_sublist.subset
  have parts {ids ids' : List StmtId} (inside : ∀ c ∈ ids, c ∈ s.owned)
      (same : List.Forall₂ (Fingerprint.SamePlace (t.preorder r) (t'.preorder r')) ids ids')
      (place : Place) (depth : Nat) :
      layouts h d place depth ids = layouts h' d place depth ids' := by
    induction same with
    | nil => rfl
    | @cons c c' ids ids' first _ rest =>
      have below := inside c List.mem_cons_self
      rw [layouts_cons, layouts_cons, rest fun c later => inside c (.tail _ later),
        ih c (Tree.owned_of_stmt? found ▸ below) c' (zip_of_samePlace (owned below) first)]
  have children (depth : Nat) : layouts h d .alone depth s.children =
      layouts h' d .alone depth s'.children :=
    parts (fun c below => within (List.mem_append_left _ below)) agrees.children .alone depth
  have entries : layouts h d .chained depth s.chain = layouts h' d .chained depth s'.chain :=
    parts (fun c below => within (List.mem_append_right _ below)) agrees.chain .chained depth
  have inline : List.Forall₂ (fun x y => inlineText t d x = inlineText t' d y)
      s.owned s'.owned := by
    obtain ⟨lengths, same⟩ := List.forall₂_iff_zip.mp agrees.owned
    refine List.forall₂_iff_zip.mpr ⟨lengths, fun {c c'} mentioned => ?_⟩
    have pair := zip_of_samePlace (owned (List.of_mem_zip mentioned).1) (same mentioned)
    obtain ⟨u, u', there, there', alike⟩ := pairs pair
    exact inlineText_agrees there there' alike (worded c c' pair u there u' there')
  rw [layout_of_stmt? found, layout_of_stmt? found', entries, funext children]
  exact frame_agrees agrees (worded x y member s found s' found') (top x y member) inline

end

end Emission

namespace Tree

variable {admitted admitted' : Stmt → Prop}

/-- Trees with equal bytes that a dialect words alike have the same text in it. By
`Stmt.wording_eq_of_spelt` it does so for payloads that are the same with its words in place, while
the bytes see no more of them than plain C has words for: an address space that the dialect names,
and a name that it respells against a literal of the same text, are what they miss. -/
theorem Reachable.emit_eq_of_stream (h : Reachable admitted t) (h' : Reachable admitted' t')
    (fits : t.FitsStream root) (fits' : t'.FitsStream root)
    (same : Fingerprint.stream t root = Fingerprint.stream t' root)
    (worded : ∀ x y, (x, y) ∈ (t.preorder root).zip (t'.preorder root) → ∀ s ∈ t.stmt? x,
      ∀ s' ∈ t'.stmt? y, s.wording d = s'.wording d) :
    Emission.emit t root d = Emission.emit t' root d := by
  have rooted := h.rooted
  have rooted' := h'.rooted
  have live := rooted.contains_root
  have live' := rooted'.contains_root
  have parallel := rooted.toLinked.parallel_of_stream rooted'.toLinked live live' fits fits' same
  -- The root comes first in both orders, and only there.
  have first {t : Tree} (linked : t.Linked) (live : t.contains root) :
      ∃ rest, t.preorder root = root :: rest ∧ root ∉ rest := by
    have order := linked.preorder_eq live
    have nodup := linked.nodup_preorder live
    rw [order] at nodup
    exact ⟨_, order, (List.nodup_cons.mp nodup).1⟩
  obtain ⟨rest, order, once⟩ := first rooted.toLinked live
  obtain ⟨rest', order', once'⟩ := first rooted'.toLinked live'
  have front : (root, root) ∈ (t.preorder root).zip (t'.preorder root) := by
    rw [order, order']
    exact List.mem_cons_self
  have top : ∀ x y, (x, y) ∈ (t.preorder root).zip (t'.preorder root) → (x = root ↔ y = root) := by
    intro x y member
    rw [order, order', List.zip_cons_cons] at member
    rcases List.mem_cons.mp member with same | later
    · cases same
      exact iff_of_true rfl rfl
    · obtain ⟨inside, inside'⟩ := List.of_mem_zip later
      refine iff_of_false ?_ ?_ <;> rintro rfl
      · exact once inside
      · exact once' inside'
  rw [Emission.emit_eq h.rooted.toLinked, Emission.emit_eq h'.rooted.toLinked]
  exact Emission.layout_parallel parallel live worded top front .alone 0

/-- A variable in the memory of a work group is declared in two trees, in one of them behind a
statement that has been removed. The text follows from the bytes, as CUDA words both alike. -/
theorem emit_eq_of_stream_of_shared :
    let shared (span : Span) : Stmt := .declaration
      [{ name := ⟨.identifier, "x", span⟩, type := { name := "float", qualifiers := [.shared] } }]
    let t := initial.run [.push root (shared .none)]
    let t' := initial.run [.push root .breakJump, .remove ⟨1⟩, .push root (shared ⟨0, 4, 9⟩)]
    Reachable (fun _ => True) t ∧ Reachable (fun _ => True) t' ∧ t.FitsStream root ∧
      t'.FitsStream root ∧ Fingerprint.stream t root = Fingerprint.stream t' root ∧
      (∀ x y, (x, y) ∈ (t.preorder root).zip (t'.preorder root) → ∀ s ∈ t.stmt? x,
        ∀ s' ∈ t'.stmt? y, s.wording .cuda = s'.wording .cuda) ∧
      Emission.emit t root .cuda = Emission.emit t' root .cuda := by
  intro shared t t'
  have reachable : Reachable (fun _ => True) t := Reachable.initial.run fun _ _ _ _ => trivial
  have reachable' : Reachable (fun _ => True) t' := Reachable.initial.run fun _ _ _ _ => trivial
  have fits : t.FitsStream root := ⟨by decide +kernel, by decide +kernel⟩
  have fits' : t'.FitsStream root := ⟨by decide +kernel, by decide +kernel⟩
  have same : Fingerprint.stream t root = Fingerprint.stream t' root := by decide +kernel
  have pairs : (t.preorder root).zip (t'.preorder root) = [(root, root), (⟨1⟩, ⟨2⟩)] := by
    decide +kernel
  have worded : ∀ x y, (x, y) ∈ (t.preorder root).zip (t'.preorder root) → ∀ s ∈ t.stmt? x,
      ∀ s' ∈ t'.stmt? y, s.wording .cuda = s'.wording .cuda := by
    intro x y member s found s' found'
    rw [pairs, List.mem_cons, List.mem_singleton] at member
    rcases member with top | declared
    · cases top
      cases found
      cases found'
      exact Stmt.wording_eq_of_spelt rfl rfl
    · cases declared
      cases found
      cases found'
      exact Stmt.wording_eq_of_spelt rfl rfl
  exact ⟨reachable, reachable', fits, fits', same, worded,
    reachable.emit_eq_of_stream reachable' fits fits' same worded⟩

/-- The bytes do not settle the text: a variable in the memory of a work group and one without an
address space have equal bytes, and CUDA has a word for the one. -/
theorem not_emit_eq_of_stream :
    ¬ ∀ t t' : Tree, Reachable (fun _ => True) t → Reachable (fun _ => True) t' →
      Fingerprint.stream t root = Fingerprint.stream t' root →
      ∀ d ∈ Dialect.builtins, Emission.emit t root d = Emission.emit t' root d := by
  intro settles
  let var (qualifiers : List Qualifier) : VarDecl :=
    { name := .identifier "x", type := { name := "float", qualifiers } }
  let declared (qualifiers : List Qualifier) : Tree :=
    initial.run [.push root (.declaration [var qualifiers])]
  have reachable (qualifiers : List Qualifier) : Reachable (fun _ => True) (declared qualifiers) :=
    Reachable.initial.run fun _ _ _ _ => trivial
  have same : Fingerprint.stream (declared [.shared]) root =
      Fingerprint.stream (declared []) root := by decide +kernel
  have text (qualifiers : List Qualifier) : Emission.emit (declared qualifiers) root .cuda =
      Emission.Layout.line Dialect.cuda.style 0
        (VarDecl.renderGroup Dialect.cuda.toSpelling [var qualifiers] ++ ";") := by
    have top : (declared qualifiers).stmt? root = some (.block { children := [⟨1⟩] }) := rfl
    have only : (declared qualifiers).stmt? ⟨1⟩ = some (.declaration [var qualifiers]) := rfl
    rw [Emission.emit_eq (reachable qualifiers).rooted.toLinked, Emission.layout_of_stmt? top]
    simp [Emission.Layout.frame, Emission.layout_of_stmt? only, Stmt.children, Stmt.body?]
  have shared := text [.shared]
  rw [settles _ _ (reachable _) (reachable []) same .cuda (.tail _ (.head _)), text []] at shared
  revert shared
  decide +kernel

end Tree
end KernelTree
