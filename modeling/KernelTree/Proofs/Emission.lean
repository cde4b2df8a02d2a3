import KernelTree.Proofs.Emission.Refinement
import KernelTree.Proofs.Tree.Images
/-! The text of a copy. The layout of a subtree names no numbers, so it is the same for all its
copies, and so is the printed text. -/
namespace KernelTree.Emission

variable {t source : Tree} {d : Dialect} {ρ : StmtId → StmtId} {r id x : StmtId}

theorem inlineText_image (mirrors : source.Mirrors r ρ t) (member : x ∈ source.preorder r) :
    inlineText t d (ρ x) = inlineText source d x := by
  have read := mirrors.stmt? x member
  unfold Tree.stmt? at read
  unfold inlineText
  cases found : source.get? x with
  | none =>
    have gone : t.get? (ρ x) = none := by simpa [found] using read
    rw [gone]
  | some node =>
    rw [found] at read
    obtain ⟨image, there, same⟩ := Option.map_eq_some_iff.mp read
    obtain ⟨_, _, s⟩ := node
    obtain ⟨_, _, s'⟩ := image
    cases (same : s' = s.map ρ)
    rw [there]
    cases s <;> rfl

/-- A statement with other numbers is printed alike around the same texts, if it keeps being or not
being the root. -/
theorem frame_map {place : Place} {depth : Nat} {children : Nat → String} {entries : String}
    (s : Stmt) (top : ρ id = Tree.root ↔ id = Tree.root)
    (inline : ∀ x ∈ s.owned, inlineText t d (ρ x) = inlineText source d x) :
    Layout.frame t d place depth (ρ id) children entries (s.map ρ) =
      Layout.frame source d place depth id children entries s := by
  have headed (word : String) {x : StmtId} (inside : x ∈ s.owned) :
      Layout.frame.headed t d word (ρ x) = Layout.frame.headed source d word x := by
    rw [Layout.frame.headed, inline x inside, Layout.frame.headed]
  have part {o : Option StmtId} (inside : ∀ x ∈ o.toList, x ∈ s.owned) :
      Layout.frame.part t d (o.map ρ) = Layout.frame.part source d o := by
    cases o with
    | none => rfl
    | some x => exact inline x (inside x (by simp))
  cases s
  case block body => simp [Layout.frame, Stmt.map, top]
  case conditional condition body elifs last =>
    have test := headed "if" (x := condition) (by simp [Stmt.owned])
    simp only [Layout.frame, Stmt.map, test]
  case elif condition body =>
    have test := headed "else if" (x := condition) (by simp [Stmt.owned, Stmt.slots])
    simp only [Layout.frame, Stmt.map, test]
  case switch condition body =>
    have test := headed "switch" (x := condition) (by simp [Stmt.owned, Stmt.slots])
    simp only [Layout.frame, Stmt.map, test]
  case forLoop init test update body =>
    have parts := fun {o} => part (o := o)
    simp only [Stmt.owned, Stmt.slots, List.mem_append] at parts
    simp only [Layout.frame, Stmt.map, parts (o := init) (by grind), parts (o := test) (by grind),
      parts (o := update) (by grind)]
  case whileLoop condition body bodyFirst =>
    have test := headed "while" (x := condition) (by simp [Stmt.owned, Stmt.slots])
    cases bodyFirst <;> simp only [Layout.frame, Stmt.map, test]
  case returnJump value => cases value <;> rfl
  all_goals rfl

/-- Only the root may take the place of the root. -/
theorem layout_image {hs : source.Linked} {h : t.Linked} (mirrors : source.Mirrors r ρ t)
    (live : source.contains r)
    (top : ∀ x ∈ source.preorder r, (ρ x = Tree.root ↔ x = Tree.root))
    (member : x ∈ source.preorder r) (place : Place) (depth : Nat) :
    layout h d place depth (ρ x) = layout hs d place depth x := by
  have walk := hs.walk_preorder live
  refine hs.descending (motive := fun x => x ∈ source.preorder r → ∀ place depth,
    layout h d place depth (ρ x) = layout hs d place depth x) ?_ (walk.contains_of_mem member)
    member place depth
  intro x alive ih member place depth
  obtain ⟨s, found⟩ := Tree.exists_stmt alive
  have copy := mirrors.stmt? x member
  rw [found, Option.map_some] at copy
  have owned : s.owned ⊆ source.preorder r := by
    rw [← Tree.owned_of_stmt? found]
    exact walk.owned_subset member
  have within := s.children_chain_sublist.subset
  have parts {ids : List StmtId} (inside : ∀ c ∈ ids, c ∈ s.owned) (place : Place) (depth : Nat) :
      layouts h d place depth (ids.map ρ) = layouts hs d place depth ids := by
    rw [layouts, List.map_map, layouts]
    apply congrArg
    apply List.map_congr_left
    intro c below
    have below := inside c below
    exact ih c (Tree.owned_of_stmt? found ▸ below) (owned below) place depth
  have children (depth : Nat) : layouts h d .alone depth (s.children.map ρ) =
      layouts hs d .alone depth s.children :=
    parts (fun c below => within (List.mem_append_left _ below)) .alone depth
  have entries : layouts h d .chained depth (s.chain.map ρ) = layouts hs d .chained depth s.chain :=
    parts (fun c below => within (List.mem_append_right _ below)) .chained depth
  rw [layout_of_stmt? copy, layout_of_stmt? found, Stmt.children_map, Stmt.chain_map, entries,
    funext children]
  exact frame_map s (top x member) fun y mentioned => inlineText_image mirrors (owned mentioned)

/-- A copy that keeps the root has the text of its source. -/
theorem emit_image (mirrors : source.Mirrors r ρ t) (hs : source.Linked) (h : t.Linked)
    (live : source.contains r)
    (top : ∀ x ∈ source.preorder r, (ρ x = Tree.root ↔ x = Tree.root)) (d : Dialect) :
    emit t (ρ r) d = emit source r d := by
  have member := hs.mem_preorder_self live
  rw [emit_eq h, emit_eq hs]
  exact layout_image mirrors live top member .alone 0

end KernelTree.Emission
