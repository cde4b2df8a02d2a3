import KernelTree.Proofs.Emission.Refinement
import KernelTree.Proofs.Emission.Shape
/-! The lines of a layout, each with its level and the statement that it is printed for. A header
that joins the brace before it stands on a line with that brace; therefore the line of the last
brace of an entry of an if-chain belongs to what comes behind the entry. -/
namespace KernelTree.Emission

/-- A line, the statement that it is printed for and its level of indentation. -/
structure Row where
  id : StmtId
  level : Nat
  content : String
deriving DecidableEq, Repr

namespace Row

def text (style : Style) (row : Row) : String := Layout.line style row.level row.content

/-- Lines of one statement at one level. -/
def all (id : StmtId) (level : Nat) (contents : List String) : List Row :=
  contents.map (mk id level)

/-- The text of several lines. -/
def texts (style : Style) (rows : List Row) : String := String.join (rows.map (text style))

variable {style : Style}

@[simp] theorem texts_nil : texts style [] = "" := rfl

@[simp] theorem texts_cons (row : Row) (rows : List Row) :
    texts style (row :: rows) = row.text style ++ texts style rows := by
  simp [texts, String.join_cons]

@[simp] theorem texts_append (rows more : List Row) :
    texts style (rows ++ more) = texts style rows ++ texts style more := by
  induction rows with
  | nil => simp
  | cons row rest ih => rw [List.cons_append, texts_cons, ih, texts_cons, String.append_assoc]

end Row

/-- The lines of a header and its opening brace. -/
def opened (style : Style) (header : String) : List String :=
  if style.braceOnNewLine then [header, "\x7b"] else [header ++ " \x7b"]

/-- The lines of the closing brace of an if-chain, the header of the next entry and its brace. -/
def joined (style : Style) (header : String) : List String :=
  if style.cuddleElse then opened style ("\x7d " ++ header) else "\x7d" :: opened style header

/-- The lines of a shape around those of the children and of the entries of the chain. A chain ends
with a line for the last brace of its last entry. -/
def Shape.rows (style : Style) (place : Place) (depth : Nat) (id : StmtId)
    (children : Nat → List Row) (entries : List Row) : Shape → List Row
  | bare => children depth
  | line content => here content.toList
  | marker content => [⟨id, depth - 1, content⟩]
  | block => here ["\x7b"] ++ inside
  | braces header => here (opened style header) ++ inside
  | loop test =>
    here (opened style "do") ++ children (depth + 1) ++
      here (if style.braceOnNewLine then ["\x7d", test] else ["\x7d " ++ test])
  | chain header =>
    here (opened style header) ++ children (depth + 1) ++ entries ++ here ["\x7d"]
  | entry header =>
    match place with
    | .alone => here (opened style header) ++ inside
    | .chained => here (joined style header) ++ children (depth + 1)
where
  here : List String → List Row := Row.all id depth
  /-- The children and the closing brace behind them. -/
  inside : List Row := children (depth + 1) ++ here ["\x7d"]

/-- The lines of a subtree at a depth. -/
def rows {t : Tree} (h : t.Linked) (d : Dialect) (place : Place) (depth : Nat) (id : StmtId) :
    List Row :=
  match _ : t.stmt? id with
  | none => []
  | some s =>
    (shape t d id s).rows d.style place depth id
      (fun depth => s.children.attach.flatMap fun c => rows h d .alone depth c.1)
      (s.chain.attach.flatMap fun c => rows h d .chained depth c.1)
termination_by (t.preorder id).length
decreasing_by
  all_goals
    apply h.length_preorder_lt
    rw [Tree.owned_of_stmt? ‹t.stmt? id = some s›]
    apply s.children_chain_sublist.subset
  · exact List.mem_append_left _ c.2
  · exact List.mem_append_right _ c.2

variable {t : Tree} {h : t.Linked} {d : Dialect} {place : Place} {depth : Nat} {id : StmtId}
  {s : Stmt} {style : Style}

theorem rows_of_stmt? (found : t.stmt? id = some s) : rows h d place depth id =
    (shape t d id s).rows d.style place depth id
      (fun depth => s.children.flatMap (rows h d .alone depth))
      (s.chain.flatMap (rows h d .chained depth)) := by
  rw [rows]
  split
  next absent => simp [found] at absent
  next s' found' =>
    cases found.symm.trans found'
    simp only [List.flatMap, List.map_attach_eq_pmap, List.pmap_eq_map]

theorem rows_of_dead (gone : t.contains id = false) : rows h d place depth id = [] := by
  rw [rows]
  split
  next => rfl
  next found => simp [Tree.contains_of_stmt? found] at gone

/-- A namespace of a dialect without namespaces has the lines of its children in its place. -/
theorem rows_of_flattened {name : Token} {body : Block} (flat : d.namespaces = false)
    (found : t.stmt? id = some (.namespaceBlock name body)) :
    rows h d place depth id = body.children.flatMap (rows h d .alone depth) := by
  rw [rows_of_stmt? found, shape, flat]
  rfl

section texts
variable (style) (depth id)
open Layout

theorem texts_line (content : String) :
    Row.texts style (Row.all id depth [content]) = line style depth content := by
  simp [Row.all, Row.text]

theorem texts_opened (header : String) :
    Row.texts style (Row.all id depth (opened style header)) = opening style depth header := by
  unfold opened opening
  split <;> simp [Row.all, Row.text]

/-- The closing brace before the text of an entry and that text. -/
theorem texts_joined (header : String) :
    Row.texts style (Row.all id depth (joined style header)) =
      closing style depth ++ joining style depth header := by
  have blank : "\x7d " = "\x7d" ++ " " := rfl
  unfold joined joining
  split
  · rw [texts_opened, opening, closing, blank]
    split <;> simp only [line, String.append_assoc]
    rfl
  · have rest := congrArg (line style depth "\x7d" ++ ·) (texts_opened depth id style header)
    rw [Row.all, List.map_cons, Row.texts_cons, ← String.append_assoc]
    exact rest

end texts

/-- The text is that of the lines. In an if-chain the lines begin with the brace before the text,
and its last brace, which does not end a line yet, is not among them. -/
def Prints (style : Style) (depth : Nat) (text : String) (rows : List Row) : Place → Prop
  | .alone => text = Row.texts style rows
  | .chained => Layout.closing style depth ++ text =
      Row.texts style rows ++ Layout.closing style depth

namespace Prints

variable {text more : String} {lines others : List Row}

theorem nil : Prints style depth "" [] place := by
  cases place
  · rfl
  · exact (String.append_empty).trans String.empty_append.symm

theorem append (first : Prints style depth text lines place)
    (second : Prints style depth more others place) :
    Prints style depth (text ++ more) (lines ++ others) place := by
  cases place with
  | alone =>
    unfold Prints at first second ⊢
    rw [first, second, Row.texts_append]
  | chained =>
    unfold Prints at first second ⊢
    rw [← String.append_assoc, first, String.append_assoc, second, Row.texts_append,
      String.append_assoc]

theorem layouts {ids : List StmtId} (each : ∀ c ∈ ids,
      Prints style depth (layout h d place depth c) (rows h d place depth c) place) :
    Prints style depth (layouts h d place depth ids) (ids.flatMap (rows h d place depth))
      place := by
  induction ids with
  | nil => exact nil
  | cons c rest ih =>
    rw [layouts_cons, List.flatMap_cons]
    exact (each c List.mem_cons_self).append (ih fun x later => each x (.tail _ later))

/-- The lines of a shape have its text, if those inside and behind it have theirs. -/
theorem shape {children : Nat → String} {childRows : Nat → List Row} {entries : String}
    {entryRows : List Row} (inside : ∀ k, Prints style k (children k) (childRows k) .alone)
    (behind : Prints style depth entries entryRows .chained) {shape : Shape}
    (place_eq : place = .alone ∨ ∃ header, shape = .entry header) :
    Prints style depth (shape.text style place depth children entries)
      (shape.rows style place depth id childRows entryRows) place := by
  have within : children (depth + 1) = Row.texts style (childRows (depth + 1)) := inside _
  have last : Layout.line style depth "\x7d" = Layout.closing style depth ++ "\n" := rfl
  cases place with
  | alone =>
    unfold Prints at behind ⊢
    cases shape with
    | bare => exact inside depth
    | line content =>
      cases content <;> simp [Shape.text, Shape.rows, Shape.rows.here, Row.all, Row.text]
    | marker content => simp [Shape.text, Shape.rows, Row.text]
    | block | braces header | entry header =>
      simp only [Shape.text, Shape.text.inside, Shape.rows, Shape.rows.here, Shape.rows.inside,
        Row.texts_append, texts_line, texts_opened, within]
    | loop test =>
      simp only [Shape.text, Shape.rows, Shape.rows.here, Row.texts_append, texts_opened, within]
      split
      · simp [Row.all, Row.text]
      · rw [texts_line]
    | chain header =>
      simp only [Shape.text, Shape.rows, Shape.rows.here, Row.texts_append, texts_opened,
        texts_line, last, within]
      -- The brace that the entries begin behind is the first character of their lines.
      have joint := congrArg (· ++ "\n") behind
      simp only [String.append_assoc] at joint ⊢
      rw [joint]
  | chained =>
    obtain ⟨header, rfl⟩ := place_eq.resolve_left (by decide)
    unfold Prints
    simp only [Shape.text, Shape.rows, Shape.rows.here, Row.texts_append, texts_joined, within,
      String.append_assoc]

end Prints

theorem shape_of_isChainEntry (found : t.stmt? id = some s) (entry : t.isChainEntry id) :
    ∃ header, shape t d id s = .entry header := by
  rw [isChainEntry_of_stmt? found] at entry
  cases s
  case elif | otherwise => exact ⟨_, rfl⟩
  all_goals cases entry

/-- The layout of a subtree is the text of its lines. -/
theorem prints_layout (h : t.Linked) (live : t.contains id) (place : Place)
    (entry : place = .alone ∨ t.isChainEntry id) (depth : Nat) :
    Prints d.style depth (layout h d place depth id) (rows h d place depth id) place := by
  refine h.descending_stmt (motive := fun x => ∀ place, (place = .alone ∨ t.isChainEntry x) →
    ∀ depth, Prints d.style depth (layout h d place depth x) (rows h d place depth x) place) ?_ live
    place entry depth
  intro x s found children chain place entry depth
  rw [layout_eq_text found, rows_of_stmt? found]
  apply Prints.shape
  case inside =>
    intro k
    exact .layouts fun c child => children c child .alone (.inl rfl) k
  case behind =>
    exact .layouts fun c inside =>
      chain c inside .chained (.inr (isChainEntry_of_mem_chain h found inside)) depth
  case place_eq => exact entry.imp_right (shape_of_isChainEntry found)

/-- What is printed of a subtree is the text of its lines. -/
theorem emit_eq_texts (h : t.Linked) (d : Dialect) (id : StmtId) :
    emit t id d = Row.texts d.style (rows h d .alone 0 id) := by
  rw [emit_eq h]
  cases live : t.contains id with
  | true => exact prints_layout h live .alone (.inl rfl) 0
  | false =>
    rw [layout_of_dead live, rows_of_dead live]
    rfl

end KernelTree.Emission
