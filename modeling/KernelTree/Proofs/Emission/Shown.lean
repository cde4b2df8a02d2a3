import KernelTree.Proofs.Emission.Rows
/-! Which statements are printed, and with which lines. A statement that stands in a header has no
lines: its text is a part of the header, and what it owns is not printed at all. All others have
lines of their own, apart from those that a dialect leaves out. -/
namespace KernelTree

namespace Stmt

/-- The statements that stand in the header of a statement. -/
def header : Stmt → List StmtId
  | conditional condition _ _ _ => [condition]
  | s => s.slots

theorem mem_owned_iff {s : Stmt} {x : StmtId} :
    x ∈ s.owned ↔ x ∈ s.header ∨ x ∈ s.children ∨ x ∈ s.chain := by
  cases s
  case conditional => simp [owned, header, children, body?, chain, elifs, last?]
  all_goals simp [owned, header, chain, elifs, last?]

theorem not_mem_header {s : Stmt} {x : StmtId} (nodup : s.owned.Nodup)
    (part : x ∈ s.children ++ s.chain) : x ∉ s.header := by
  cases s
  case conditional condition body elifs last =>
    have apart : condition ∉ body.children ++ elifs ++ last.toList := (List.nodup_cons.mp nodup).1
    intro same
    rw [List.mem_singleton.mp same, chain, ← List.append_assoc] at part
    exact apart part
  all_goals
    simp only [chain, elifs, last?, Option.toList_none, List.append_nil] at part
    exact fun slot => List.disjoint_of_nodup_append nodup slot part

/-- The header of a statement around the texts of what stands in it. -/
def heading? (text : StmtId → String) : Stmt → Option String
  | conditional condition _ _ _ => some (headed "if" condition)
  | elif condition _ => some (headed "else if" condition)
  | whileLoop condition _ false => some (headed "while" condition)
  | whileLoop condition _ true => some (headed "while" condition ++ ";")
  | switch condition _ => some (headed "switch" condition)
  | forLoop init test update _ => some (Emission.forHeader (part init) (part test) (part update))
  | _ => none
where
  /-- A keyword and its condition. -/
  headed (word : String) (condition : StmtId) : String := word ++ " (" ++ text condition ++ ")"
  /-- A part of a `for` header. -/
  part (slot : Option StmtId) : String := (slot.map text).getD ""

end Stmt

namespace Tree

/-- A statement is reached from another one along children and entries of if-chains, past no
header. -/
def Shown (t : Tree) : StmtId → StmtId → Prop :=
  Relation.ReflTransGen fun p c => ∃ s, t.stmt? p = some s ∧ c ∈ s.children ++ s.chain

variable {t : Tree} {r p x y : StmtId} {s : Stmt}

theorem Linked.within_of_shown (h : t.Linked) (shown : t.Shown r x) : t.Within x r := by
  induction shown with
  | refl => exact .refl ..
  | tail _ link within =>
    obtain ⟨s, found, part⟩ := link
    have owned := s.children_chain_sublist.subset part
    exact .step (h.parent?_of_mem found owned) within

/-- What is not shown lies in the header of something that is. -/
theorem Linked.shown_or_header (h : t.Linked) (within : t.Within x r) :
    t.Shown r x ∨ ∃ p s y, t.Shown r p ∧ t.stmt? p = some s ∧ y ∈ s.header ∧ t.Within x y := by
  induction within using Relation.ReflTransGen.head_induction_on with
  | refl => exact .inl .refl
  | @head x p owned _ ih =>
    have member := h.mem_owned_iff.mpr owned
    obtain ⟨s, found⟩ := exists_stmt (contains_of_mem_owned member)
    rw [owned_of_stmt? found, Stmt.mem_owned_iff] at member
    rcases ih with shown | ⟨p', s', y, shown, found', part, within⟩
    · rcases member with part | part
      · exact .inr ⟨p, s, x, shown, found, part, .refl ..⟩
      · exact .inl (shown.tail ⟨s, found, List.mem_append.mpr part⟩)
    · exact .inr ⟨p', s', y, shown, found', part, .step owned within⟩

/-- Whatever stands between a statement and one that is shown from it is shown itself. -/
theorem Linked.shown_between (h : t.Linked) (live : t.contains r) (shown : t.Shown r x)
    (within : t.Within x y) (below : t.Within y r) : t.Shown r y := by
  induction shown with
  | refl => exact h.within_antisymm live within below ▸ .refl
  | tail shown link ih =>
    rcases within.cases with rfl | ⟨owner, owned, within⟩
    · exact shown.tail link
    · obtain ⟨s, found, part⟩ := link
      have member := s.children_chain_sublist.subset part
      have owned' := h.parent?_of_mem found member
      cases Option.some.inj (owned.symm.trans owned')
      exact ih within

/-- Nothing is shown that lies in a header. -/
theorem Linked.not_shown_of_header (h : t.Linked) (live : t.contains r) (shown : t.Shown r p)
    (found : t.stmt? p = some s) (part : y ∈ s.header) (within : t.Within x y) :
    ¬ t.Shown r x := by
  intro printed
  have owned : t.parent? y = some p :=
    h.parent?_of_mem found (Stmt.mem_owned_iff.mpr (.inl part))
  have below := h.within_of_shown shown
  rcases (h.shown_between live printed within (.step owned below)).cases_tail with
    same | ⟨owner, -, s', found', link⟩
  · exact h.not_within_owned owned (same ▸ below)
  · have member := s'.children_chain_sublist.subset link
    have owned' := h.parent?_of_mem found' member
    cases Option.some.inj (owned.symm.trans owned')
    cases Option.some.inj (found.symm.trans found')
    exact Stmt.not_mem_header (owned_of_stmt? found ▸ h.nodup_owned p) link part

end Tree

namespace Emission

variable {t : Tree} {h : t.Linked} {d : Dialect} {place : Place} {depth : Nat} {r x id : StmtId}
  {s : Stmt} {style : Style} {row : Row}

namespace Shape

variable {shape : Shape}

/-- The lines of a shape without those of children and entries. -/
def lines (style : Style) (place : Place) : Shape → List String
  | bare => []
  | line content => content.toList
  | marker content => [content]
  | block => ["\x7b", "\x7d"]
  | braces header | chain header => opened style header ++ ["\x7d"]
  | loop test =>
    opened style "do" ++ if style.braceOnNewLine then ["\x7d", test] else ["\x7d " ++ test]
  | entry header =>
    match place with
    | .alone => opened style header ++ ["\x7d"]
    | .chained => joined style header

/-- The level of those lines. -/
def level (depth : Nat) : Shape → Nat
  | marker _ => depth - 1
  | _ => depth

/-- The depth of the children. -/
def inner (depth : Nat) : Shape → Nat
  | bare => depth
  | _ => depth + 1

/-- Nothing stands inside a shape that is a single line. -/
def isLine : Shape → Bool
  | line _ | marker _ => true
  | _ => false

/-- Only a chain has entries behind it. -/
def isChain : Shape → Bool
  | chain _ => true
  | _ => false

theorem mem_rows_iff {children : Nat → List Row} {entries : List Row} :
    row ∈ shape.rows style place depth id children entries ↔
      row ∈ Row.all id (shape.level depth) (shape.lines style place) ∨
        (shape.isLine = false ∧ row ∈ children (shape.inner depth)) ∨
        (shape.isChain ∧ row ∈ entries) := by
  have all (first behind : List String) : Row.all id depth (first ++ behind) =
      Row.all id depth first ++ Row.all id depth behind := List.map_append
  have none : Row.all id depth [] = [] := rfl
  cases shape
  case entry header =>
    cases place <;>
      simp [rows, rows.here, rows.inside, lines, level, inner, isLine, isChain, all, or_assoc,
        or_comm]
  case block =>
    have braces := all ["\x7b"] ["\x7d"]
    simp only [List.singleton_append] at braces
    simp [rows, rows.here, rows.inside, lines, level, inner, isLine, isChain, braces, or_comm,
      or_left_comm]
  case marker content => simp [rows, lines, level, isLine, isChain, Row.all]
  all_goals
    simp [rows, rows.here, rows.inside, lines, level, inner, isLine, isChain, all, none, or_assoc,
      or_comm, or_left_comm]

end Shape

theorem children_of_isLine (line : (shape t d id s).isLine) : s.children = [] := by
  cases s
  case block | namespaceBlock =>
    simp only [shape] at line
    split at line <;> cases line
  case whileLoop condition body bodyFirst => cases bodyFirst <;> cases line
  all_goals first
    | rfl
    | cases line

theorem chain_of_isChain (chain : (shape t d id s).isChain = false) : s.chain = [] := by
  cases s
  case conditional => cases chain
  all_goals rfl

/-- The lines that are printed for a statement itself. -/
def ownRows (t : Tree) (d : Dialect) (place : Place) (depth : Nat) (id : StmtId) (s : Stmt) :
    List Row :=
  Row.all id ((shape t d id s).level depth) ((shape t d id s).lines d.style place)

theorem id_of_mem_ownRows (written : row ∈ ownRows t d place depth id s) : row.id = id := by
  obtain ⟨content, -, rfl⟩ := List.mem_map.mp written
  rfl

/-- A line of a subtree is one of the statement itself or of something beneath it. -/
theorem mem_rows_iff (found : t.stmt? id = some s) : row ∈ rows h d place depth id ↔
    row ∈ ownRows t d place depth id s ∨
      (∃ c ∈ s.children, row ∈ rows h d .alone ((shape t d id s).inner depth) c) ∨
      ∃ c ∈ s.chain, row ∈ rows h d .chained depth c := by
  have inside : ((shape t d id s).isLine = false ∧
      row ∈ s.children.flatMap (rows h d .alone ((shape t d id s).inner depth))) ↔
      ∃ c ∈ s.children, row ∈ rows h d .alone ((shape t d id s).inner depth) c := by
    rw [List.mem_flatMap, and_iff_right_iff_imp]
    rintro ⟨c, child, -⟩
    by_contra line
    simp [children_of_isLine (Bool.not_eq_false _ ▸ line)] at child
  have behind : ((shape t d id s).isChain ∧ row ∈ s.chain.flatMap (rows h d .chained depth)) ↔
      ∃ c ∈ s.chain, row ∈ rows h d .chained depth c := by
    rw [List.mem_flatMap, and_iff_right_iff_imp]
    rintro ⟨c, entry, -⟩
    by_contra unchained
    simp [chain_of_isChain (Bool.not_eq_true _ ▸ unchained)] at entry
  rw [rows_of_stmt? found, Shape.mem_rows_iff, inside, behind, ownRows]

/-- Whatever is shown has all of its own lines among those of the subtree. -/
theorem exists_ownRows (shown : t.Shown r x) (found : t.stmt? x = some s) (place : Place)
    (depth : Nat) : ∃ place' depth', ownRows t d place' depth' x s ⊆ rows h d place depth r := by
  induction shown using Relation.ReflTransGen.head_induction_on generalizing place depth with
  | refl => exact ⟨place, depth, fun row own => (mem_rows_iff found).mpr (.inl own)⟩
  | head link _ ih =>
    obtain ⟨s', found', part⟩ := link
    rcases List.mem_append.mp part with child | entry
    · obtain ⟨place', depth', inside⟩ := ih .alone ((shape t d _ s').inner depth)
      refine ⟨place', depth', fun row own => (mem_rows_iff found').mpr (.inr (.inl ?_))⟩
      exact ⟨_, child, inside own⟩
    · obtain ⟨place', depth', inside⟩ := ih .chained depth
      refine ⟨place', depth', fun row own => (mem_rows_iff found').mpr (.inr (.inr ?_))⟩
      exact ⟨_, entry, inside own⟩

/-- Every line is one of a statement that is shown. -/
theorem shown_of_mem_rows (live : t.contains r) (written : row ∈ rows h d place depth r) :
    t.Shown r row.id ∧ ∃ s place' depth', t.stmt? row.id = some s ∧
      row ∈ ownRows t d place' depth' row.id s := by
  refine h.descending_stmt (motive := fun r => ∀ place depth, row ∈ rows h d place depth r →
    t.Shown r row.id ∧ ∃ s place' depth', t.stmt? row.id = some s ∧
      row ∈ ownRows t d place' depth' row.id s) ?_ live place depth written
  intro r s found children chain place depth written
  rcases (mem_rows_iff found).mp written with own | ⟨c, child, inside⟩ | ⟨c, entry, inside⟩
  · obtain rfl := id_of_mem_ownRows own
    exact ⟨.refl, s, place, depth, found, own⟩
  · obtain ⟨shown, own⟩ := children c child _ _ inside
    exact ⟨.head ⟨s, found, List.mem_append_left _ child⟩ shown, own⟩
  · obtain ⟨shown, own⟩ := chain c entry _ _ inside
    exact ⟨.head ⟨s, found, List.mem_append_right _ entry⟩ shown, own⟩

/-! Headers. -/

/-- The line holds the text, which a closing brace may precede and an opening one may follow. -/
def Row.Carries (row : Row) (text : String) : Prop :=
  ∃ front ∈ ["", "\x7d "], ∃ back ∈ ["", " \x7b"], row.content = front ++ text ++ back

variable {header text : String}

theorem exists_opened (style : Style) (header : String) :
    ∃ back ∈ ["", " \x7b"], header ++ back ∈ opened style header := by
  unfold opened
  split
  · exact ⟨"", by simp, by simp⟩
  · exact ⟨" \x7b", by simp, by simp⟩

/-- The header of a statement is that of its shape. -/
theorem shape_of_heading? (id : StmtId) (heading : s.heading? (inlineText t d) = some text) :
    shape t d id s = .chain text ∨ shape t d id s = .entry text ∨ shape t d id s = .braces text ∨
      shape t d id s = .loop text := by
  cases s
  case conditional | elif | switch | forLoop =>
    cases heading
    simp [shape, shape.headed, shape.part, Layout.frame.headed, Layout.frame.part,
      Stmt.heading?.headed, Stmt.heading?.part]
  case whileLoop condition body bodyFirst =>
    cases bodyFirst <;> cases heading <;>
      simp [shape, shape.headed, Layout.frame.headed, Stmt.heading?.headed]
  all_goals cases heading

/-- Wherever a statement stands, its header is in one of its lines. -/
theorem exists_carries (place : Place) (depth : Nat) (id : StmtId)
    (heading : s.heading? (inlineText t d) = some text) :
    ∃ row ∈ ownRows t d place depth id s, row.Carries text := by
  suffices ∃ content ∈ (shape t d id s).lines d.style place,
      Row.Carries ⟨id, (shape t d id s).level depth, content⟩ text by
    obtain ⟨content, inside, carries⟩ := this
    exact ⟨_, List.mem_map_of_mem inside, carries⟩
  obtain ⟨back, kind, opening⟩ := exists_opened d.style text
  have plain : text ++ back ∈ opened d.style text ++ ["\x7d"] := List.mem_append_left _ opening
  have carries : Row.Carries ⟨id, depth, text ++ back⟩ text := ⟨"", by simp, back, kind, by simp⟩
  rcases shape_of_heading? id heading with same | same | same | same
  · rw [same]
    exact ⟨_, plain, carries⟩
  · rw [same]
    cases place with
    | alone => exact ⟨_, plain, carries⟩
    | chained =>
      unfold Shape.lines joined
      simp only
      split
      · obtain ⟨back, kind, opening⟩ := exists_opened d.style ("\x7d " ++ text)
        exact ⟨_, opening, "\x7d ", by simp, back, kind, rfl⟩
      · exact ⟨_, .tail _ opening, carries⟩
  · rw [same]
    exact ⟨_, plain, carries⟩
  · rw [same]
    unfold Shape.lines
    simp only
    split
    · exact ⟨text, by simp, "", by simp, "", by simp, by simp⟩
    · exact ⟨"\x7d " ++ text, by simp, "\x7d ", by simp, "", by simp, by simp⟩

theorem exists_row_of_heading? (shown : t.Shown r x) (found : t.stmt? x = some s)
    (heading : s.heading? (inlineText t d) = some text) :
    ∃ row ∈ rows h d place depth r, row.id = x ∧ row.Carries text := by
  obtain ⟨place', depth', inside⟩ := exists_ownRows (h := h) shown found place depth
  obtain ⟨row, own, carries⟩ := exists_carries place' depth' x heading
  exact ⟨row, inside own, id_of_mem_ownRows own, carries⟩

end Emission
end KernelTree
