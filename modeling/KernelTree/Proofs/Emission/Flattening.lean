import KernelTree.Proofs.Emission.Presence
import KernelTree.Proofs.Tree.Dissolving
/-! What a dialect leaves out of a body can as well be edited away beforehand: a pragma that it
drops is removed, and a namespace that it does not know gives way to its own children. -/
namespace KernelTree

/-- What a dialect has no words for owns children and nothing else. -/
theorem Stmt.slots_of_omitted {d : Dialect} (s : Stmt) (omitted : s.omitted d) : s.slots = [] := by
  cases s
  case pragma | namespaceBlock => rfl
  all_goals cases omitted

theorem Stmt.omitted_mapBody {d : Dialect} {f : Block → Block} (s : Stmt) :
    (s.mapBody f).omitted d = s.omitted d := by
  cases s <;> rfl

namespace Emission

open Layout

variable {t t' : Tree} {h : t.Linked} {h' : t'.Linked} {d : Dialect} {place : Place} {depth : Nat}
  {id x : StmtId} {s : Stmt} {skip : Stmt → Bool}

/-- A statement without words of its own leaves its children as they would stand without it. -/
theorem layout_of_omitted (found : t.stmt? id = some s) (omitted : s.omitted d) :
    layout h d place depth id = layouts h d .alone depth s.children := by
  rw [layout_of_stmt? found]
  cases s
  case pragma token =>
    rw [frame, Option.isNone_iff_eq_none.mp omitted]
    rfl
  case namespaceBlock name body =>
    rw [frame, if_neg (by simpa [Stmt.omitted] using omitted)]
  all_goals cases omitted

/-- What a statement prints around its children depends on its header and not on its body. -/
theorem frame_mapBody {children : Nat → String} {entries : String} (f : Block → Block)
    (inline : ∀ x ∈ s.slots, inlineText t' d x = inlineText t d x) :
    frame t' d place depth id children entries (s.mapBody f) =
      frame t d place depth id children entries s := by
  have headed (word : String) {x : StmtId} (slot : x ∈ s.slots) :
      frame.headed t' d word x = frame.headed t d word x := by
    rw [frame.headed, inline x slot, frame.headed]
  have part {o : Option StmtId} (slots : ∀ x ∈ o, x ∈ s.slots) :
      frame.part t' d o = frame.part t d o := by
    cases o with
    | none => rfl
    | some x => exact inline x (slots x rfl)
  cases s
  case conditional condition _ _ _ | elif condition _ | switch condition _ =>
    simp only [frame, Stmt.mapBody, headed _ (x := condition) List.mem_cons_self]
  case whileLoop condition body bodyFirst =>
    cases bodyFirst <;>
      simp only [frame, Stmt.mapBody, headed _ (x := condition) List.mem_cons_self]
  case forLoop init test update body =>
    have first := part (o := init) fun x slot => by simp [Stmt.slots, Option.mem_def.mp slot]
    have second := part (o := test) fun x slot => by simp [Stmt.slots, Option.mem_def.mp slot]
    have third := part (o := update) fun x slot => by simp [Stmt.slots, Option.mem_def.mp slot]
    simp only [frame, Stmt.mapBody, first, second, third]
  case returnJump value => cases value <;> rfl
  all_goals rfl

theorem inlineText_of_mapBody {f : Block → Block} (found : t.stmt? x = some s)
    (found' : t'.stmt? x = some (s.mapBody f)) : inlineText t' d x = inlineText t d x := by
  obtain ⟨⟨_, _, before⟩, there, rfl⟩ := Option.map_eq_some_iff.mp found
  obtain ⟨⟨_, _, after⟩, there', same⟩ := Option.map_eq_some_iff.mp found'
  cases (same : after = before.mapBody f)
  rw [inlineText, there', inlineText, there]
  cases before <;> rfl

theorem layouts_append (ids ids' : List StmtId) : layouts h d place depth (ids ++ ids') =
    layouts h d place depth ids ++ layouts h d place depth ids' := by
  simp [layouts]

/-- Whatever comes to stand in the places of some statements is printed as they are. -/
theorem layouts_flatMap {ids : List StmtId} {f : StmtId → List StmtId}
    (each : ∀ x ∈ ids, layouts h' d .alone depth (f x) = layout h d .alone depth x) :
    layouts h' d .alone depth (ids.flatMap f) = layouts h d .alone depth ids := by
  induction ids with
  | nil => rfl
  | cons x rest ih =>
    rw [List.flatMap_cons, layouts_append, layouts_cons, each x List.mem_cons_self,
      ih fun y later => each y (.tail _ later)]

theorem layouts_congr {ids : List StmtId}
    (each : ∀ x ∈ ids, layout h' d place depth x = layout h d place depth x) :
    layouts h' d place depth ids = layouts h d place depth ids :=
  congrArg String.join (List.map_congr_left each)

/-- A tree from which what the dialect leaves out of bodies has been edited away: the pragmas that
it drops are gone, and in the place of each namespace that it does not know stands what has come to
stand in the places of its children. Otherwise the statements are as they were. -/
structure Edited (h : t.Linked) (d : Dialect) (t' : Tree) : Prop where
  linked : t'.Linked
  contains : ∀ x, t'.contains x = (t.contains x && !t.dissolves (Stmt.omitted d) x)
  stmt? : ∀ x s, t'.contains x → t.stmt? x = some s → ∃ f, t'.stmt? x = some (s.mapBody f)
  children : ∀ p, t'.contains p →
    t'.children p = (t.children p).flatMap (Tree.inPlace h (Stmt.omitted d))

/-- The tree without what the dialect leaves out of bodies. -/
def flattened (h : t.Linked) (d : Dialect) : Tree := Tree.dissolved h (Stmt.omitted d)

theorem edited_flattened (h : t.Linked) (d : Dialect) : Edited h d (flattened h d) := by
  have left {x : StmtId} (live : (flattened h d).contains x) :
      t.dissolves (Stmt.omitted d) x = false := by
    rw [flattened, Tree.contains_dissolved, Bool.and_eq_true, Bool.not_eq_true'] at live
    exact live.2
  constructor
  case linked => exact Tree.linked_dissolved Stmt.slots_of_omitted h
  case contains => exact fun x => Tree.contains_dissolved
  case stmt? => exact fun x s live found => ⟨_, Tree.stmt?_dissolved_of_left (left live) found⟩
  case children => exact fun p live => Tree.children_dissolved (left live)

namespace Edited

/-- A statement and what comes to stand in its place are printed as the statement was. -/
structure Alike (h : t.Linked) (h' : t'.Linked) (d : Dialect) (id : StmtId) : Prop where
  itself : t'.contains id → ∀ place depth, layout h' d place depth id = layout h d place depth id
  inPlace : ∀ depth, layouts h' d .alone depth (Tree.inPlace h (Stmt.omitted d) id) =
    layout h d .alone depth id

theorem alike (edited : Edited h d t') (live : t.contains id) : Alike h edited.linked d id := by
  refine h.descending_stmt (motive := Alike h edited.linked d)
    (fun id s found children chain => ?_) live
  have slot_live {x : StmtId} (slot : x ∈ s.slots) : t.contains x :=
    h.contains_owned ((Tree.mem_owned_iff_of_stmt? found).mpr (.inl slot))
  have slot_left {x : StmtId} (slot : x ∈ s.slots) : t'.contains x := by
    rw [edited.contains, slot_live slot,
      (Tree.not_dissolves_of_mem_slots Stmt.slots_of_omitted h found slot).1]
    rfl
  have below depth : layouts edited.linked d .alone depth
      (s.children.flatMap (Tree.inPlace h (Stmt.omitted d))) =
        layouts h d .alone depth s.children :=
    layouts_flatMap fun c child => (children c child).inPlace depth
  have itself (left : t'.contains id) (place : Place) (depth : Nat) :
      layout edited.linked d place depth id = layout h d place depth id := by
    obtain ⟨f, found'⟩ := edited.stmt? id s left found
    have spliced : (s.mapBody f).children =
        s.children.flatMap (Tree.inPlace h (Stmt.omitted d)) := by
      rw [← Tree.children_of_stmt? found', edited.children id left, Tree.children_of_stmt? found]
    have entries : layouts edited.linked d .chained depth s.chain =
        layouts h d .chained depth s.chain :=
      layouts_congr fun c entry =>
        (chain c entry).itself (slot_left (s.chain_subset_slots entry)) .chained depth
    rw [layout_of_stmt? found, layout_of_stmt? found', spliced, Stmt.chain_mapBody, entries,
      funext below]
    apply frame_mapBody
    intro x slot
    obtain ⟨u, there⟩ := Tree.exists_stmt (slot_live slot)
    obtain ⟨g, there'⟩ := edited.stmt? x u (slot_left slot) there
    exact inlineText_of_mapBody there there'
  refine ⟨itself, fun depth => ?_⟩
  rw [Tree.inPlace_of_stmt? found]
  split
  next omitted => rw [below, layout_of_omitted found omitted]
  next worded =>
    have left : t'.contains id := by
      rw [edited.contains, Tree.contains_of_stmt? found,
        Tree.not_dissolves_of_skip found (Bool.eq_false_iff.mpr worded)]
      rfl
    simp [itself left]

theorem emit_eq (edited : Edited h d t') (left : t'.contains id) :
    emit t id d = emit t' id d := by
  have live : t.contains id := by
    rw [edited.contains, Bool.and_eq_true] at left
    exact left.1
  rw [Emission.emit_eq h, Emission.emit_eq edited.linked,
    (edited.alike live).itself left .alone 0]

theorem not_omitted (edited : Edited h d t') (child : x ∈ t'.children id)
    (found' : t'.stmt? x = some s) : ¬ s.omitted d := by
  have above := Tree.contains_of_mem_owned (Tree.children_subset_owned child)
  have left := Tree.contains_of_stmt? found'
  have live := left
  rw [edited.contains, Bool.and_eq_true] at live
  obtain ⟨before, found⟩ := Tree.exists_stmt live.1
  obtain ⟨f, same⟩ := edited.stmt? x before left found
  cases Option.some.inj (found'.symm.trans same)
  rw [edited.children id above] at child
  rw [Stmt.omitted_mapBody, h.not_skip_of_mem_flatMap child found]
  exact Bool.false_ne_true

end Edited

/-- Dropping pragmas and flattening namespaces while printing comes to the same as editing the tree
beforehand: there is a tree without the pragmas that the dialect drops and with the children of each
namespace that it does not know in its place, and every such tree has the same text. -/
theorem emit_flattened {admitted : Stmt → Prop} (h : Tree.Reachable admitted t) (d : Dialect) :
    let linked := h.rooted.toLinked
    Edited linked d (flattened linked d) ∧ (flattened linked d).Rooted ∧
      (∀ x, Tree.inPlace linked (Stmt.omitted d) x = if (t.stmt? x).any (·.omitted d) then
        (t.children x).flatMap (Tree.inPlace linked (Stmt.omitted d)) else [x]) ∧
      ∀ t', Edited linked d t' →
        emit t Tree.root d = emit t' Tree.root d ∧
        (∀ id, t'.contains id → emit t id d = emit t' id d) ∧
        ∀ p x s, x ∈ t'.children p → t'.stmt? x = some s → ¬ s.omitted d := by
  intro linked
  refine ⟨edited_flattened linked d, Tree.rooted_dissolved Stmt.slots_of_omitted h.rooted,
    Tree.inPlace_eq linked (Stmt.omitted d), fun t' edited => ⟨?_, ?_, ?_⟩⟩
  · apply edited.emit_eq
    rw [edited.contains, h.rooted.contains_root, Tree.not_dissolves_of_free h.rooted.root_free]
    rfl
  · exact fun id left => edited.emit_eq left
  · exact fun p x s child found => edited.not_omitted child found

/-- A namespace with a label and with a namespace in it, and a pragma behind it, stand between a
conditional and its `else` entry. The header of the entry joins the brace before it as if they were
not there. -/
theorem emit_flattened_of_namespaces :
    let calls : List Tree.Change := [
      .addExpr (.ident ⟨.identifier, "a", .none⟩), .add (.otherwise .empty) .none,
      .push Tree.root (.conditional ⟨1⟩ .empty [] (some ⟨2⟩)),
      .push ⟨3⟩ (.namespaceBlock ⟨.identifier, "outer", .none⟩ .empty),
      .push ⟨4⟩ (.label ⟨.identifier, "out", .none⟩),
      .push ⟨4⟩ (.namespaceBlock ⟨.identifier, "inner", .none⟩ .empty), .push ⟨6⟩ .breakJump,
      .push ⟨4⟩ (.access .public), .push ⟨3⟩ (.pragma ⟨.pragma, "omp barrier", .none⟩)]
    let t := Tree.initial.run calls
    let d := { Dialect.opencl with style := .spaces 2 }
    ∃ h : Tree.Reachable (fun _ => True) t,
      (flattened h.rooted.toLinked d).children ⟨3⟩ = [⟨5⟩, ⟨7⟩, ⟨8⟩] ∧
      emit t Tree.root d = "if (a) \x7b\nout:\n  break;\npublic:\n\x7d else \x7b\n\x7d\n" ∧
      emit (flattened h.rooted.toLinked d) Tree.root d = emit t Tree.root d := by
  intro calls t d
  have h : Tree.Reachable (fun _ => True) t := Tree.Reachable.initial.run fun _ _ _ _ => trivial
  have root : t.stmt? Tree.root = some (.block { children := [⟨3⟩] }) := by rfl
  have last : t.stmt? ⟨2⟩ = some (.otherwise .empty) := by rfl
  have test : t.stmt? ⟨3⟩ = some (.conditional ⟨1⟩ { children := [⟨4⟩, ⟨9⟩] } [] (some ⟨2⟩)) := by
    rfl
  have outer : t.stmt? ⟨4⟩ = some (.namespaceBlock ⟨.identifier, "outer", .none⟩
    { children := [⟨5⟩, ⟨6⟩, ⟨8⟩] }) := by rfl
  have label : t.stmt? ⟨5⟩ = some (.label ⟨.identifier, "out", .none⟩) := by rfl
  have inner : t.stmt? ⟨6⟩ = some (.namespaceBlock ⟨.identifier, "inner", .none⟩
    { children := [⟨7⟩] }) := by rfl
  have jump : t.stmt? ⟨7⟩ = some .breakJump := by rfl
  have access : t.stmt? ⟨8⟩ = some (.access .public) := by rfl
  have barrier : t.stmt? ⟨9⟩ = some (.pragma ⟨.pragma, "omp barrier", .none⟩) := by rfl
  have drops : d.pragma "omp barrier" = none := by decide
  have style : d.style = { indent := "  " } := by decide
  have a : inlineText t d ⟨1⟩ = "a" := by decide
  obtain ⟨edited, -, -, alike⟩ := emit_flattened h d
  refine ⟨h, ?_, (Emission.emit_eq h.rooted.toLinked d _).trans ?_, (alike _ edited).1.symm⟩
  · have live : (flattened h.rooted.toLinked d).contains ⟨3⟩ := by
      rw [edited.contains]
      decide +kernel
    rw [edited.children _ live, Tree.children_of_stmt? test]
    simp [Tree.inPlace_of_stmt? outer, Tree.inPlace_of_stmt? inner, Tree.inPlace_of_stmt? label,
      Tree.inPlace_of_stmt? jump, Tree.inPlace_of_stmt? access, Tree.inPlace_of_stmt? barrier,
      Stmt.omitted, Stmt.children, Stmt.body?, drops, show d.namespaces = false from rfl]
  · simp [layout_of_stmt? root, layout_of_stmt? test, layout_of_stmt? last, layout_of_stmt? outer,
      layout_of_stmt? inner, layout_of_stmt? label, layout_of_stmt? jump, layout_of_stmt? access,
      layout_of_stmt? barrier, frame, frame.headed, frame.entry, opening, joining, closing,
      Layout.line, indentation, Stmt.children, Stmt.chain, Stmt.elifs, Stmt.last?, Stmt.body?,
      Block.empty, style, drops, a, Access.word, show d.namespaces = false from rfl]

end Emission
end KernelTree
