import KernelTree.Dialect.Override
import KernelTree.Proofs.Emission.Refinement
import KernelTree.Proofs.Emission.Shape
import KernelTree.Proofs.Text
/-! What the style of a dialect can change: nothing but blanks. Without its blanks the text of a
subtree is the same in all dialects that have the same words, and so it is in a dialect and in those
that are derived from it by another style. -/
namespace KernelTree

/-- One level of indentation is made of blanks. -/
def Style.Blank (style : Style) : Prop := ∀ c ∈ style.indent.toList, Text.isBlank c

/-- The indentation breaks no line. A blank may be a line break as well. -/
def Style.OneLine (style : Style) : Prop := '\n' ∉ style.indent.toList

/-- The dialects have the same words and leave out the same. -/
structure Dialect.Alike (d d' : Dialect) : Prop where
  spelling : d.toSpelling = d'.toSpelling
  functionPrefix : d.functionPrefix = d'.functionPrefix
  pragma : d.pragma = d'.pragma
  namespaces : d.namespaces = d'.namespaces

namespace Emission

open Text

section style
variable {style style' : Style} {depth depth' : Nat} {header : String}

theorem mem_indent_of_mem_indentation {c : Char} (inside : c ∈ (indentation style depth).toList) :
    c ∈ style.indent.toList := by
  rw [indentation, String.toList_join, List.mem_flatMap] at inside
  obtain ⟨unit, repeated, inside⟩ := inside
  exact List.eq_of_mem_replicate repeated ▸ inside

theorem ink_indentation (blank : style.Blank) (depth : Nat) : ink (indentation style depth) = [] :=
  ink_eq_nil fun c inside => blank c (mem_indent_of_mem_indentation inside)

namespace Layout

theorem ink_line (blank : style.Blank) (depth : Nat) (content : String) :
    ink (line style depth content) = ink content := by
  rw [line, ink_append, ink_append, ink_indentation blank]
  exact List.append_nil _

theorem ink_opening (blank : style.Blank) (depth : Nat) (header : String) :
    ink (opening style depth header) = ink header ++ ['\x7b'] := by
  unfold opening
  split
  · rw [ink_append, ink_line blank, ink_line blank]
    rfl
  · rw [ink_line blank, ink_append]
    rfl

theorem ink_closing (blank : style.Blank) (depth : Nat) : ink (closing style depth) = ['\x7d'] := by
  rw [closing, ink_append, ink_indentation blank]
  rfl

theorem ink_joining (blank : style.Blank) (depth : Nat) (header : String) :
    ink (joining style depth header) = ink header ++ ['\x7b'] := by
  have newline : ink "\n" = [] := rfl
  have space : ink " " = [] := rfl
  have brace : ink " \x7b\n" = ['\x7b'] := rfl
  have own : ink "\x7b" = ['\x7b'] := rfl
  unfold joining
  split
  · split <;> simp only [ink_append, ink_line blank, newline, space, brace, own, List.nil_append]
  · rw [ink_append, ink_opening blank, newline, List.nil_append]

end Layout

/-- A shape around texts that differ in blanks only, in two styles and at two depths. -/
theorem Shape.ink_text (blank : style.Blank) (blank' : style'.Blank) {place : Place}
    {children children' : Nat → String} {entries entries' : String}
    (inside : ∀ k k', ink (children k) = ink (children' k'))
    (chained : ink entries = ink entries') (shape : Shape) :
    ink (shape.text style place depth children entries) =
      ink (shape.text style' place depth' children' entries') := by
  have within : ink (children (depth + 1)) = ink (children' (depth' + 1)) := inside _ _
  cases shape with
  | bare => exact inside depth depth'
  | line content => cases content <;> simp [text, Layout.ink_line, blank, blank']
  | marker content => simp only [text, Layout.ink_line, blank, blank']
  | block | braces header =>
    simp only [text, text.inside, ink_append, Layout.ink_line, Layout.ink_opening, blank, blank',
      within]
  | loop test =>
    have one : ink "\x7d " = ink "\x7d" := rfl
    simp only [text]
    split <;> split <;>
      simp only [ink_append, Layout.ink_line, Layout.ink_opening, blank, blank', within, one,
        List.append_assoc]
  | chain header =>
    simp only [text, ink_append, Layout.ink_opening, Layout.ink_closing, blank, blank', within,
      chained]
  | entry header =>
    cases place <;>
      simp only [text, text.inside, ink_append, Layout.ink_line, Layout.ink_opening,
        Layout.ink_joining, Layout.ink_closing, blank, blank', within]

end style

variable {t : Tree} {d d' : Dialect} {place : Place} {depth depth' : Nat} {id : StmtId}

/-- Dialects with the same words print the same shapes. -/
theorem shape_alike (alike : d.Alike d') (s : Stmt) : shape t d id s = shape t d' id s := by
  obtain ⟨_, _, _, _, _, _, _, _⟩ := d
  obtain ⟨_, _, _, _, _, _, _, _⟩ := d'
  obtain ⟨rfl, rfl, rfl, rfl⟩ := alike
  rfl

theorem ink_layouts {h : t.Linked} {ids : List StmtId} (each : ∀ c ∈ ids,
      ink (layout h d place depth c) = ink (layout h d' place depth' c)) :
    ink (layouts h d place depth ids) = ink (layouts h d' place depth' ids) := by
  induction ids with
  | nil => rfl
  | cons c rest ih =>
    rw [layouts_cons, layouts_cons, ink_append, ink_append, each c List.mem_cons_self,
      ih fun x later => each x (.tail _ later)]

/-- The layouts of a subtree in two styles differ in blanks only, also at different depths. -/
theorem ink_layout {h : t.Linked} (alike : d.Alike d') (blank : d.style.Blank)
    (blank' : d'.style.Blank) (live : t.contains id) (place : Place) (depth depth' : Nat) :
    ink (layout h d place depth id) = ink (layout h d' place depth' id) := by
  refine h.descending_stmt (motive := fun x => ∀ place depth depth',
    ink (layout h d place depth x) = ink (layout h d' place depth' x)) ?_ live place depth depth'
  intro x s found children chain place depth depth'
  rw [layout_eq_text found, layout_eq_text found, shape_alike alike]
  apply Shape.ink_text blank blank'
  · intro k k'
    exact ink_layouts fun c child => children c child .alone k k'
  · exact ink_layouts fun c entry => chain c entry .chained depth depth'

/-- The name of a dialect, the end of the names of its files and its prelude enter no layout. -/
theorem layout_alike {h : t.Linked} (alike : d.Alike d') (style : d.style = d'.style)
    (live : t.contains id) (place : Place) (depth : Nat) :
    layout h d place depth id = layout h d' place depth id := by
  refine h.descending_stmt (motive := fun x => ∀ place depth,
    layout h d place depth x = layout h d' place depth x) ?_ live place depth
  intro x s found children chain place depth
  have inside (k : Nat) : layouts h d .alone k s.children = layouts h d' .alone k s.children :=
    congrArg String.join <| List.map_congr_left fun c child => children c child .alone k
  have entries : layouts h d .chained depth s.chain = layouts h d' .chained depth s.chain :=
    congrArg String.join <| List.map_congr_left fun c entry => chain c entry .chained depth
  rw [layout_eq_text found, layout_eq_text found, shape_alike alike, style, entries, funext inside]

end Emission

namespace DialectOverride

/-- Only the style is changed, if anything. -/
structure OnlyRestyles (o : DialectOverride) : Prop where
  namespaces : o.namespaces = none
  qualifiers : o.qualifiers = []
  identifiers : o.identifiers = []
  droppedPragmas : o.droppedPragmas = []

/-- The base with another style, and under names of its own. -/
def restyled (o : DialectOverride) (base : Dialect) : Dialect :=
  { base with
    name := o.name
    extension := o.extension.getD base.extension
    style := base.style.override o.style }

theorem alike_restyled (o : DialectOverride) (base : Dialect) : (o.restyled base).Alike base :=
  ⟨rfl, rfl, rfl, rfl⟩

theorem toDialect_of_onlyRestyles {o : DialectOverride} {base : Dialect}
    (known : Dialect.ofName? o.base = some base) (restyles : o.OnlyRestyles) :
    o.toDialect = .ok (o.restyled base) := by
  obtain ⟨namespaces, qualifiers, identifiers, droppedPragmas⟩ := restyles
  have words : o.qualifierWords = .ok [] := by
    rw [qualifierWords, qualifiers]
    rfl
  rw [toDialect, known, words, namespaces, identifiers, droppedPragmas]
  rfl

end DialectOverride

namespace Style

theorem blank_spaces (width : Nat) : (spaces width).Blank := by
  intro c inside
  rw [spaces, Text.toList_pushn] at inside
  rw [List.eq_of_mem_replicate inside]
  rfl

theorem Blank.override {style : Style} (blank : style.Blank) (o : StyleOverride) :
    (style.override o).Blank := by
  unfold Style.override Blank
  split
  · intro c inside
    have tab : c = '\t' := by simpa using inside
    rw [tab]
    rfl
  · split
    next width _ => exact blank_spaces width
    next => exact blank

theorem override_default (style : Style) : style.override {} = style := rfl

end Style

theorem Dialect.blank_of_ofName? {name : String} {base : Dialect}
    (known : Dialect.ofName? name = some base) : base.style.Blank := by
  unfold ofName? at known
  split at known <;> cases known <;> exact Style.blank_spaces _

namespace Emission

open Text

variable {t : Tree} {d d' : Dialect} {admitted : Stmt → Prop}

theorem ink_emit (h : Tree.Reachable admitted t) (alike : d.Alike d') (blank : d.style.Blank)
    (blank' : d'.style.Blank) (id : StmtId) : ink (emit t id d) = ink (emit t id d') := by
  have linked := h.rooted.toLinked
  rw [emit_eq linked d id, emit_eq linked d' id]
  cases live : t.contains id with
  | true => exact ink_layout alike blank blank' live .alone 0 0
  | false => rw [layout_of_dead live, layout_of_dead live]

theorem emit_alike (h : Tree.Reachable admitted t) (alike : d.Alike d') (style : d.style = d'.style)
    (id : StmtId) : emit t id d = emit t id d' := by
  have linked := h.rooted.toLinked
  rw [emit_eq linked d id, emit_eq linked d' id]
  cases live : t.contains id with
  | true => exact layout_alike alike style live .alone 0
  | false => rw [layout_of_dead live, layout_of_dead live]

/-- Dialects with the same words print the same text but for its blanks, whatever their styles. So
does a dialect that a user derives from a known one by a style alone, and one that changes nothing
prints the very text of its base. -/
theorem emit_restyled (h : Tree.Reachable admitted t) :
    (∀ d d' : Dialect, d.Alike d' → d.style.Blank → d'.style.Blank → ∀ id,
      ink (emit t id d) = ink (emit t id d')) ∧
    ∀ (o : DialectOverride) (base : Dialect), Dialect.ofName? o.base = some base → o.OnlyRestyles →
      ∃ d, o.toDialect = .ok d ∧
        (∀ source path, DialectOverride.parse source path = .ok o →
          Dialect.parse source path = .ok d) ∧
        (∀ id, ink (emit t id d) = ink (emit t id base)) ∧
        ink (emitProgram t d) = ink (emitProgram t base) ∧
        (o.style = {} → (∀ id, emit t id d = emit t id base) ∧
          emitProgram t d = emitProgram t base) := by
  refine ⟨fun d d' alike blank blank' => ink_emit h alike blank blank', ?_⟩
  intro o base known restyles
  have blank := Dialect.blank_of_ofName? known
  have built := DialectOverride.toDialect_of_onlyRestyles known restyles
  have alike := o.alike_restyled base
  have same := ink_emit h alike (blank.override o.style) blank
  refine ⟨o.restyled base, built, ?_, same, ?_, ?_⟩
  · intro source path read
    rw [Dialect.parse, read]
    exact built
  · simp only [emitProgram, ink_append, same]
    rfl
  · intro unchanged
    have style : (o.restyled base).style = base.style := by
      rw [DialectOverride.restyled, unchanged, Style.override_default]
    have text := emit_alike h alike style
    refine ⟨text, ?_⟩
    rw [emitProgram, text, emitProgram]
    rfl

/-- A chain and a loop for OpenCL, as they are and with tabs and the other place for the `else`. -/
theorem emit_restyled_of_chain :
    let calls : List Tree.Change := [
      .addExpr (.ident ⟨.identifier, "a", .none⟩), .add (.otherwise .empty) .none,
      .push Tree.root (.conditional ⟨1⟩ .empty [] (some ⟨2⟩)),
      .addExpr (.ident ⟨.identifier, "b", .none⟩), .push ⟨2⟩ (.whileLoop ⟨4⟩ .empty true)]
    let t := Tree.initial.run calls
    let o : DialectOverride := {
      name := "tabbed", base := "opencl", style := { tabs := true, cuddleElse := some true } }
    Tree.Reachable (fun _ => True) t ∧ Dialect.ofName? o.base = some .opencl ∧ o.OnlyRestyles ∧
      emit t Tree.root .opencl =
        "if (a) \x7b\n\x7d\nelse \x7b\n    do \x7b\n    \x7d while (b);\n\x7d\n" ∧
      ∃ d, o.toDialect = .ok d ∧
        emit t Tree.root d = "if (a) \x7b\n\x7d else \x7b\n\tdo \x7b\n\t\x7d while (b);\n\x7d\n" ∧
        ink (emit t Tree.root d) = ink (emit t Tree.root .opencl) := by
  intro calls t o
  have h : Tree.Reachable (fun _ => True) t := Tree.Reachable.initial.run fun _ _ _ _ => trivial
  have restyles : o.OnlyRestyles := ⟨rfl, rfl, rfl, rfl⟩
  obtain ⟨d, built, -, same, -, -⟩ := (emit_restyled h).2 o .opencl rfl restyles
  have root : t.stmt? Tree.root = some (.block { children := [⟨3⟩] }) := by rfl
  have test : t.stmt? ⟨3⟩ = some (.conditional ⟨1⟩ .empty [] (some ⟨2⟩)) := by rfl
  have last : t.stmt? ⟨2⟩ = some (.otherwise { children := [⟨5⟩] }) := by rfl
  have loop : t.stmt? ⟨5⟩ = some (.whileLoop ⟨4⟩ .empty true) := by rfl
  have tabbed : d.style = { indent := "\t" } := by
    cases built.symm.trans (DialectOverride.toDialect_of_onlyRestyles rfl restyles)
    decide
  have wide : Dialect.opencl.style = { indent := "    ", cuddleElse := false } := by decide
  have a : inlineText t .opencl ⟨1⟩ = "a" := by decide
  have b : inlineText t .opencl ⟨4⟩ = "b" := by decide
  have words : d.toSpelling = Dialect.opencl.toSpelling := by
    cases built.symm.trans (DialectOverride.toDialect_of_onlyRestyles rfl restyles)
    rfl
  have a' : inlineText t d ⟨1⟩ = "a" := by rw [inlineText, words]; exact a
  have b' : inlineText t d ⟨4⟩ = "b" := by rw [inlineText, words]; exact b
  have linked := h.rooted.toLinked
  refine ⟨h, rfl, restyles, (emit_eq linked _ _).trans ?_, d, built,
    (emit_eq linked _ _).trans ?_, same _⟩
  · simp [layout_of_stmt? root, layout_of_stmt? test, layout_of_stmt? last, layout_of_stmt? loop,
      Layout.frame, Layout.frame.headed, Layout.frame.entry, Layout.opening, Layout.joining,
      Layout.closing, Layout.line, indentation, Stmt.children, Stmt.chain, Stmt.elifs, Stmt.last?,
      Stmt.body?, Block.empty, wide, a, b]
  · simp [layout_of_stmt? root, layout_of_stmt? test, layout_of_stmt? last, layout_of_stmt? loop,
      Layout.frame, Layout.frame.headed, Layout.frame.entry, Layout.opening, Layout.joining,
      Layout.closing, Layout.line, indentation, Stmt.children, Stmt.chain, Stmt.elifs, Stmt.last?,
      Stmt.body?, Block.empty, tabbed, a', b']

end Emission
end KernelTree
