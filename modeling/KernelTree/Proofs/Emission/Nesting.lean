import KernelTree.Proofs.Emission.Rows
import KernelTree.Proofs.Emission.Style
import KernelTree.Proofs.Emission.Words
/-! Indentation follows braces. Each line of a subtree stands at the level of the braces that are
open before it, but for closing braces and marks, which stand one level further out, and when the
last line has been read no brace is open. -/
namespace KernelTree

/-- Whether the line of a statement of this kind stands one level further out. -/
def StmtKind.isMark : StmtKind → Bool
  | .access | .label | .caseLabel | .defaultLabel => true
  | _ => false

namespace Emission

open Text

/-- Whether a line stands one level further out: it begins with a closing brace, or it is that of a
label, a case, a default or an access marker. -/
def Row.standsOut (t : Tree) (row : Row) : Bool :=
  row.content.toList.head? == some '\x7d' || (t.kind? row.id).any (·.isMark)

/-- With `k` braces open before the line there are `j` behind it, and the line stands where it
should. -/
structure Row.Stands (t : Tree) (k j : Nat) (row : Row) : Prop where
  level : row.level = if row.standsOut t then k - 1 else k
  begins : ∃ c ∈ row.content.toList.head?, isBlank c = false
  oneLine : '\n' ∉ row.content.toList
  counted : scan k row.content.toList = some j

/-- With the one number of braces open before the lines there is the other behind them, and each of
the lines stands where it should. -/
inductive Nested (t : Tree) : Nat → List Row → Nat → Prop
  | nil (k : Nat) : Nested t k [] k
  | cons {k j n : Nat} {row : Row} {rest : List Row} (stands : row.Stands t k j)
    (behind : Nested t j rest n) : Nested t k (row :: rest) n

variable {t : Tree} {d : Dialect} {style : Style} {place : Place} {depth k j n : Nat} {id : StmtId}
  {content header : String} {lines more before after : List Row} {row : Row}

/-- A line that closes one brace more than it opens. -/
theorem stands_of_closing (rest : Inline content) :
    (Row.mk id k ("\x7d" ++ content)).Stands t (k + 1) k := by
  have spelled : ("\x7d" ++ content).toList = '\x7d' :: content.toList := by simp
  constructor
  case level => simp [Row.standsOut]
  case begins => exact ⟨'\x7d', by simp, rfl⟩
  case oneLine => simpa using rest.oneLine
  case counted =>
    rw [spelled]
    exact rest.balanced k

/-- A line that goes on behind a closing brace and a blank. -/
theorem stands_of_joined (rest : Inline content) :
    (Row.mk id k ("\x7d " ++ content)).Stands t (k + 1) k := by
  have blank : "\x7d " ++ content = "\x7d" ++ (" " ++ content) := by
    rw [← String.append_assoc]
    rfl
  rw [blank]
  exact stands_of_closing ((inline_of_isPlain (by decide)).append rest)

section plain
variable (plain : (t.kind? id).any (·.isMark) = false)
include plain

theorem stands_of_lead (lead : Lead content) : (Row.mk id k content).Stands t k k := by
  obtain ⟨c, first, notBlank⟩ := lead.begins
  constructor
  case level =>
    -- A balanced text cannot begin with a closing brace: nothing would be open yet.
    have notClosing : c ≠ '\x7d' := by
      rintro rfl
      obtain ⟨rest, spelled⟩ := List.head?_eq_some_iff.mp first
      have counted := lead.balanced 0
      rw [spelled] at counted
      cases counted
    have first : content.toList.head? = some c := first
    simp [Row.standsOut, plain, first, notClosing]
  case begins => exact lead.begins
  case oneLine => exact lead.oneLine
  case counted => exact lead.balanced k

theorem stands_brace : (Row.mk id k "\x7b").Stands t k (k + 1) := by
  constructor
  case level => simp [Row.standsOut, plain]
  case begins => exact ⟨'\x7b', by simp, rfl⟩
  case oneLine => simp
  case counted => simp [scan]

end plain

/-- A mark in its place one level further out. -/
theorem stands_of_mark (mark : (t.kind? id).any (·.isMark)) (lead : Lead content) :
    (Row.mk id (k - 1) content).Stands t k k where
  level := by simp [Row.standsOut, mark]
  begins := lead.begins
  oneLine := lead.oneLine
  counted := lead.balanced k

/-- With its brace behind it a line stands where it stands without. -/
theorem Row.Stands.braced (stands : (Row.mk id k header).Stands t n j) :
    (Row.mk id k (header ++ " \x7b")).Stands t n (j + 1) := by
  obtain ⟨level, ⟨c, first, notBlank⟩, oneLine, counted⟩ := stands
  have same : (header ++ " \x7b").toList.head? = header.toList.head? := by
    obtain ⟨rest, spelled⟩ := List.head?_eq_some_iff.mp first
    simp [spelled]
  constructor
  case level =>
    have out : Row.standsOut t ⟨id, k, header ++ " \x7b"⟩ = Row.standsOut t ⟨id, k, header⟩ := by
      simp only [Row.standsOut, same]
    rw [out]
    exact level
  case begins => exact ⟨c, same ▸ first, notBlank⟩
  case oneLine => simpa using oneLine
  case counted =>
    rw [String.toList_append, scan_append]
    exact counted ▸ rfl

namespace Nested

theorem append (first : Nested t k lines j) (second : Nested t j more n) :
    Nested t k (lines ++ more) n := by
  induction first with
  | nil => exact second
  | cons stands _ ih => exact .cons stands (ih second)

theorem single (stands : row.Stands t k j) : Nested t k [row] j := .cons stands (.nil j)

theorem flatMap {ids : List StmtId} {f : StmtId → List Row} (each : ∀ c ∈ ids, Nested t k (f c) k) :
    Nested t k (ids.flatMap f) k := by
  induction ids with
  | nil => exact .nil k
  | cons c rest ih =>
    exact (each c List.mem_cons_self).append (ih fun x later => each x (.tail _ later))

/-- Between lines one can stop and count. -/
theorem split (nested : Nested t k (before ++ after) n) :
    ∃ j, Nested t k before j ∧ Nested t j after n := by
  induction before generalizing k with
  | nil => exact ⟨k, .nil k, nested⟩
  | cons row rest ih =>
    cases nested with
    | cons stands behind =>
      obtain ⟨j, first, second⟩ := ih behind
      exact ⟨j, .cons stands first, second⟩

end Nested

section plain
variable (plain : (t.kind? id).any (·.isMark) = false)
include plain

/-- Wherever its header stands, an opening brace adds one level. -/
theorem nested_opened (stands : (Row.mk id depth header).Stands t k depth) :
    Nested t k (Row.all id depth (opened style header)) (depth + 1) := by
  unfold opened
  split
  · exact .cons stands (.single (stands_brace plain))
  · exact .single stands.braced

theorem nested_joined (lead : Lead header) :
    Nested t (depth + 1) (Row.all id depth (joined style header)) (depth + 1) := by
  unfold joined
  split
  · exact nested_opened plain (stands_of_joined lead.toInline)
  · exact .cons (stands_of_closing .empty) (nested_opened plain (stands_of_lead plain lead))

end plain

/-- The number of braces that are open around a statement: in an if-chain the brace before the
header is still one of them. -/
def Place.braces (depth : Nat) : Place → Nat
  | .alone => depth
  | .chained => depth + 1

/-- The lines of a shape close the braces that they open, if those inside and behind it do. -/
theorem nested_shape {children : Nat → List Row} {entries : List Row} {shape : Shape}
    (fits : shape.Fits)
    (mark : (t.kind? id).any (·.isMark) = true ↔ ∃ content, shape = .marker content)
    (place_eq : place = .alone ∨ ∃ header, shape = .entry header)
    (inside : ∀ k, Nested t k (children k) k)
    (behind : Nested t (depth + 1) entries (depth + 1)) :
    Nested t (place.braces depth) (shape.rows style place depth id children entries)
      (place.braces depth) := by
  have marked {content : String} (is : shape = .marker content) : (t.kind? id).any (·.isMark) :=
    mark.mpr ⟨content, is⟩
  have plain (other : ∀ content, shape ≠ .marker content) :
      (t.kind? id).any (·.isMark) = false :=
    Bool.eq_false_iff.mpr fun is => (mark.mp is).elim other
  have closed : Nested t (depth + 1) (Row.all id depth ["\x7d"]) depth :=
    .single (stands_of_closing .empty)
  have within : Nested t (depth + 1) (children (depth + 1) ++ Row.all id depth ["\x7d"]) depth :=
    (inside _).append closed
  have headed {header : String} (other : ∀ content, shape ≠ .marker content) (lead : Lead header) :
      Nested t depth (Row.all id depth (opened style header)) (depth + 1) :=
    nested_opened (plain other) (stands_of_lead (plain other) lead)
  cases place with
  | alone =>
    cases shape with
    | bare => exact inside depth
    | line content =>
      cases content with
      | none => exact .nil depth
      | some content => exact .single (stands_of_lead (plain nofun) (fits content rfl))
    | marker content => exact .single (stands_of_mark (marked rfl) fits)
    | block => exact .cons (stands_brace (plain nofun)) within
    | braces header | entry header => exact (headed nofun fits).append within
    | loop test =>
      refine ((headed nofun (lead_of_isFitting (by decide))).append (inside _)).append ?_
      split
      · exact .cons (stands_of_closing .empty) (.single (stands_of_lead (plain nofun) fits))
      · exact .single (stands_of_joined fits.toInline)
    | chain header =>
      exact (((headed nofun fits).append (inside _)).append behind).append closed
  | chained =>
    obtain ⟨header, rfl⟩ := place_eq.resolve_left (by decide)
    exact (nested_joined (plain nofun) fits).append (inside _)

theorem isMark_iff (s : Stmt) :
    s.kind.isMark = true ↔ ∃ content, shape t d id s = .marker content := by
  cases s
  case block | namespaceBlock =>
    rw [shape]
    split <;> simp [Stmt.kind, StmtKind.isMark]
  case whileLoop condition body bodyFirst =>
    cases bodyFirst <;> simp [Stmt.kind, StmtKind.isMark, shape]
  case returnJump value => cases value <;> simp [Stmt.kind, StmtKind.isMark, shape]
  all_goals simp [Stmt.kind, StmtKind.isMark, shape]

/-- The lines of a subtree whose words fit close all braces that they open, and stand where they
should. -/
theorem nested_rows (h : t.Linked) (live : t.contains id) (fits : ∀ x ∈ t.preorder id, Fits t d x)
    (place : Place) (entry : place = .alone ∨ t.isChainEntry id) (depth : Nat) :
    Nested t (place.braces depth) (rows h d place depth id) (place.braces depth) := by
  have walk := h.walk_preorder live
  refine h.descending_stmt (motive := fun x => x ∈ t.preorder id → ∀ place,
    (place = .alone ∨ t.isChainEntry x) → ∀ depth,
      Nested t (place.braces depth) (rows h d place depth x) (place.braces depth)) ?_ live
    (h.mem_preorder_self live) place entry depth
  -- Children lie inside the braces of their statement or, without braces, in its place; the entries
  -- of its chain begin inside its last brace and end inside their own.
  intro x s found children chain member place entry depth
  have below : s.owned ⊆ t.preorder id := by
    rw [← Tree.owned_of_stmt? found]
    exact walk.owned_subset member
  have parts := s.children_chain_sublist.subset
  rw [rows_of_stmt? found]
  apply nested_shape
  case fits => exact fits_shape (fits x member s found) fun c part => fits c (below part)
  case mark =>
    rw [Tree.kind?_of_stmt? found, Option.any_some]
    exact isMark_iff s
  case place_eq => exact entry.imp_right (shape_of_isChainEntry found)
  case inside =>
    intro k
    refine .flatMap fun c child => ?_
    have part := below (parts (List.mem_append_left _ child))
    exact children c child part .alone (.inl rfl) k
  case behind =>
    refine .flatMap fun c inside => ?_
    have part := below (parts (List.mem_append_right _ inside))
    exact chain c inside part .chained (.inr (isChainEntry_of_mem_chain h found inside)) depth

/-! What the lines say about the text. -/

section text
variable (blank : style.Blank)
include blank

theorem scan_text (stands : row.Stands t k j) : scan k (row.text style).toList = some j := by
  have margin : scan k (indentation style row.level).toList = some k :=
    scan_blank (fun c inside => blank c (mem_indent_of_mem_indentation inside)) k
  rw [Row.text, Layout.line, String.toList_append, String.toList_append, scan_append, scan_append,
    margin, Option.bind_some, stands.counted]
  rfl

theorem scan_texts (nested : Nested t k lines n) :
    scan k (Row.texts style lines).toList = some n := by
  induction nested with
  | nil => rfl
  | cons stands _ ih =>
    rw [Row.texts_cons, String.toList_append, scan_append, scan_text blank stands]
    exact ih

/-- The blanks that a line begins with are its indentation. -/
theorem takeWhile_text (stands : row.Stands t k j) :
    (row.text style).toList.takeWhile isBlank = (indentation style row.level).toList := by
  obtain ⟨c, first, notBlank⟩ := stands.begins
  obtain ⟨rest, spelled⟩ := List.head?_eq_some_iff.mp first
  rw [Row.text, Layout.line, String.append_assoc, String.toList_append,
    List.takeWhile_append_of_pos fun c inside => blank c (mem_indent_of_mem_indentation inside)]
  simp [spelled, notBlank]

end text

/-- The lines are those of the text, unless the indentation ends lines itself. -/
theorem splitOn_texts (oneLine : style.OneLine) (nested : Nested t k lines n) :
    (Row.texts style lines).toList.splitOn '\n' =
      lines.map (fun row => (indentation style row.level ++ row.content).toList) ++ [[]] := by
  induction nested with
  | nil => rfl
  | @cons _ _ _ row rest stands _ ih =>
    have inLine : '\n' ∉ (indentation style row.level ++ row.content).toList := by
      rw [String.toList_append, List.mem_append]
      exact fun inside =>
        inside.elim (fun margin => oneLine (mem_indent_of_mem_indentation margin)) stands.oneLine
    have spelled : (row.text style ++ Row.texts style rest).toList =
        (indentation style row.level ++ row.content).toList ++
          '\n' :: (Row.texts style rest).toList := by
      simp [Row.text, Layout.line]
    rw [Row.texts_cons, spelled, List.splitOn_append_cons_self_of_not_mem inLine, ih]
    rfl

variable {admitted : Stmt → Prop}

/-- If the words of a subtree fit into lines and the indentation is made of blanks, the braces of
the printed text are balanced, and each line stands at the level of the braces that are open before
it, or one further out if it begins with a closing brace or is a mark. The text breaks where these
lines end, provided that the indentation breaks none: an indentation that may do so would tear the
lines apart, although their levels and margins stay as they are. Brace initialisers are balanced in
their lines, and namespaces that are left out leave nothing behind. -/
theorem emit_nested (h : Tree.Reachable admitted t) (blank : d.style.Blank)
    (fits : ∀ x ∈ t.preorder id, Fits t d x) :
    let lines := rows h.rooted.toLinked d .alone 0 id
    let text := (emit t id d).toList
    emit t id d = Row.texts d.style lines ∧
      (∀ front, front <+: text → front.count '\x7d' ≤ front.count '\x7b') ∧
      text.count '\x7d' = text.count '\x7b' ∧
      (∀ (before : List Row) (row : Row) (after : List Row), lines = before ++ row :: after →
        let above := (Row.texts d.style before).toList
        let around := above.count '\x7b' - above.count '\x7d'
        row.level = (if row.standsOut t then around - 1 else around) ∧
          (row.text d.style).toList.takeWhile isBlank = (indentation d.style row.level).toList ∧
          (∃ c ∈ row.content.toList.head?, isBlank c = false) ∧ '\n' ∉ row.content.toList) ∧
      (d.style.OneLine → text.splitOn '\n' =
        lines.map (fun row => (indentation d.style row.level ++ row.content).toList) ++ [[]]) ∧
      (∀ items, (∀ w ∈ Expr.wordsAll d.toSpelling items, isFitting w) →
        Inline ((Expr.list items).render d.toSpelling)) ∧
      (d.namespaces = false → ∀ x name body, t.stmt? x = some (.namespaceBlock name body) →
        ∀ place depth, rows h.rooted.toLinked d place depth x =
          body.children.flatMap (rows h.rooted.toLinked d .alone depth)) := by
  intro lines text
  have printed : emit t id d = Row.texts d.style lines := emit_eq_texts h.rooted.toLinked d id
  have nested : Nested t 0 lines 0 := by
    cases live : t.contains id with
    | true => exact nested_rows _ live fits .alone (.inl rfl) 0
    | false =>
      have none : lines = [] := rows_of_dead live
      exact none ▸ .nil 0
  have counted : scan 0 text = some 0 := by
    simp only [text, printed]
    exact scan_texts blank nested
  refine ⟨printed, fun front => ?_, ?_, ?_, ?_, ?_, ?_⟩
  · intro first
    simpa using count_le_of_scan counted first
  · simpa using count_of_scan counted
  · intro before row after parts above around
    rw [parts] at nested
    obtain ⟨k, first, rest⟩ := nested.split
    cases rest with
    | cons stands _ =>
      have total := count_of_scan (scan_texts blank first)
      have level : around = k := by
        simp only [around, above]
        omega
      exact ⟨level ▸ stands.level, takeWhile_text blank stands, stands.begins, stands.oneLine⟩
  · intro oneLine
    simp only [text, printed]
    exact splitOn_texts oneLine nested
  · intro items fitting
    exact (Expr.lead_render (by rwa [Expr.words])).toInline
  · intro flat x name body found place depth
    exact rows_of_flattened flat found

/-- A label and an array in a condition with an `else`. The label stands as far out as the braces,
and those of the array change nothing. -/
theorem emit_nested_of_label :
    let calls : List Tree.Change := [
      .addExpr (.ident ⟨.identifier, "a", .none⟩), .add (.otherwise .empty) .none,
      .push Tree.root (.conditional ⟨1⟩ .empty [] (some ⟨2⟩)),
      .push ⟨3⟩ (.label ⟨.identifier, "end", .none⟩),
      .push ⟨3⟩ (.declaration [{
        name := ⟨.identifier, "x", .none⟩, type := { name := "int" },
        dims := [.literal ⟨.literal, "2", .none⟩],
        init := some (.list [.literal ⟨.literal, "1", .none⟩, .literal ⟨.literal, "2", .none⟩]) }])]
    let t := Tree.initial.run calls
    let text := "if (a) \x7b\nend:\n  int x[2] = \x7b1, 2\x7d;\n\x7d else \x7b\n\x7d\n"
    Tree.Reachable (fun _ => True) t ∧ Dialect.serial.style.Blank ∧
      (∀ x ∈ t.preorder Tree.root, Fits t .serial x) ∧ emit t Tree.root .serial = text ∧
      text.toList.count '\x7d' = text.toList.count '\x7b' ∧
      (Dialect.serial.style.OneLine ∧ text.toList.splitOn '\n' =
        ["if (a) \x7b", "end:", "  int x[2] = \x7b1, 2\x7d;", "\x7d else \x7b", "\x7d", ""].map
          String.toList) ∧
      ∃ h : t.Linked, rows h .serial .alone 0 Tree.root = [
        ⟨⟨3⟩, 0, "if (a) \x7b"⟩, ⟨⟨4⟩, 0, "end:"⟩, ⟨⟨5⟩, 1, "int x[2] = \x7b1, 2\x7d;"⟩,
        ⟨⟨2⟩, 0, "\x7d else \x7b"⟩, ⟨⟨3⟩, 0, "\x7d"⟩] := by
  intro calls t text
  have h : Tree.Reachable (fun _ => True) t := Tree.Reachable.initial.run fun _ _ _ _ => trivial
  have blank : Dialect.serial.style.Blank := Style.blank_spaces 2
  have fits : ∀ x ∈ t.preorder Tree.root, Fits t .serial x := by decide
  obtain ⟨printed, -, balanced, -, splits, -⟩ := emit_nested h blank fits
  have root : t.stmt? Tree.root = some (.block { children := [⟨3⟩] }) := by rfl
  have last : t.stmt? ⟨2⟩ = some (.otherwise .empty) := by rfl
  have test : t.stmt? ⟨3⟩ = some (.conditional ⟨1⟩ { children := [⟨4⟩, ⟨5⟩] } [] (some ⟨2⟩)) := by
    rfl
  have label : t.stmt? ⟨4⟩ = some (.label ⟨.identifier, "end", .none⟩) := by rfl
  have array : ∃ vars, t.stmt? ⟨5⟩ = some (.declaration vars) ∧
      VarDecl.renderGroup Dialect.serial.toSpelling vars = "int x[2] = \x7b1, 2\x7d" :=
    ⟨_, by rfl, by decide⟩
  obtain ⟨vars, array, rendered⟩ := array
  have style : Dialect.serial.style = { indent := "  " } := by decide
  have a : inlineText t .serial ⟨1⟩ = "a" := by decide
  have lines : rows h.rooted.toLinked .serial .alone 0 Tree.root = [
      ⟨⟨3⟩, 0, "if (a) \x7b"⟩, ⟨⟨4⟩, 0, "end:"⟩, ⟨⟨5⟩, 1, "int x[2] = \x7b1, 2\x7d;"⟩,
      ⟨⟨2⟩, 0, "\x7d else \x7b"⟩, ⟨⟨3⟩, 0, "\x7d"⟩] := by
    simp [rows_of_stmt? root, rows_of_stmt? test, rows_of_stmt? label, rows_of_stmt? array,
      rows_of_stmt? last, shape, shape.headed, Layout.frame.headed, Shape.rows, Shape.rows.here,
      Row.all, opened, joined, Stmt.children, Stmt.chain, Stmt.elifs, Stmt.last?, Stmt.body?,
      Block.empty, style, a, rendered]
  have whole : emit t Tree.root .serial = text := by
    rw [printed, lines]
    decide
  have oneLine : Dialect.serial.style.OneLine := by
    rw [style, Style.OneLine]
    decide
  have split := splits oneLine
  rw [whole, lines, style] at split
  exact ⟨h, blank, fits, whole, whole ▸ balanced, ⟨oneLine, split.trans (by rfl)⟩, _, lines⟩

end Emission
end KernelTree
