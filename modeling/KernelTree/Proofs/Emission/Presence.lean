import KernelTree.Proofs.Compilation
import KernelTree.Proofs.Emission.Headers
/-! What is left out of a program. A dialect may drop a pragma and flatten a namespace. In a header
only expressions and declarations have a text, so that whatever else stands there is lost, together
with all that it owns. -/
namespace KernelTree

open Terminal (AllTokens allTokens_cons_token)

/-- The spelling makes no name disappear. -/
def Spelling.Speaks (sp : Spelling) : Prop := ∀ name, name ≠ "" → sp.identifier name ≠ ""

theorem Expr.render_ne_empty {sp : Spelling} (speaks : sp.Speaks) {e : Expr}
    (named : AllTokens (fun token => token.text ≠ "") e.terminals) : e.render sp ≠ "" := by
  cases e
  case ident name =>
    rw [terminals, allTokens_cons_token] at named
    exact speaks _ named.1
  case literal text =>
    rw [terminals, allTokens_cons_token] at named
    exact named.1
  case unary op operand =>
    have symbol : op.symbol ≠ "" := by cases op <;> decide
    rw [render]
    split <;> simp [symbol]
  case member base field arrow => cases arrow <;> simp [render]
  all_goals simp [render]

theorem VarDecl.renderGroup_eq_empty_iff {sp : Spelling} {vars : List VarDecl} :
    renderGroup sp vars = "" ↔ vars = [] := by
  cases vars <;> simp [renderGroup, render]

theorem Dialect.speaks_of_builtin {d : Dialect} (builtin : d ∈ builtins) : d.toSpelling.Speaks :=
  fun _ => identifier_keeps (p := (· ≠ "")) builtin (by decide +kernel)

namespace Stmt

/-- The statement has words of its own in a header. -/
def inscribed : Stmt → Bool
  | expression _ => true
  | declaration vars => !vars.isEmpty
  | _ => false

/-- The dialect has no words for the statement. -/
def omitted (d : Dialect) : Stmt → Bool
  | pragma token => (d.pragma token.text).isNone
  | namespaceBlock _ _ => !d.namespaces
  | _ => false

variable {s : Stmt} {d : Dialect}

theorem owned_of_inscribed (inscribed : s.inscribed) : s.owned = [] := by
  cases s
  case expression | declaration => rfl
  all_goals cases inscribed

theorem not_omitted_of_inscribed (inscribed : s.inscribed) : ¬ s.omitted d := by
  cases s
  case expression | declaration => exact Bool.false_ne_true
  all_goals cases inscribed

end Stmt

namespace Emission

variable {t : Tree} {h : t.Linked} {d : Dialect} {place : Place} {depth : Nat} {r x y id : StmtId}
  {s u : Stmt} {style : Style}

namespace Shape

variable {shape : Shape}

/-- The shape has something to print besides the children and the entries of a chain. -/
def Written : Shape → Prop
  | bare | line none => False
  | line (some content) | marker content => content ≠ ""
  | _ => True

theorem exists_mem_opened (style : Style) (header : String) :
    ∃ content ∈ opened style header, content ≠ "" := by
  unfold opened
  split
  · exact ⟨"\x7b", by simp, by decide⟩
  · exact ⟨header ++ " \x7b", by simp, by simp⟩

theorem exists_mem_lines_iff (style : Style) (place : Place) :
    (∃ content ∈ shape.lines style place, content ≠ "") ↔ shape.Written := by
  have braced (first : List String) : ∃ content ∈ first ++ ["\x7d"], content ≠ "" :=
    ⟨"\x7d", by simp, by decide⟩
  cases shape
  case bare => simp [lines, Written]
  case line content => cases content <;> simp [lines, Written]
  case marker content => simp [lines, Written]
  case block => simp [lines, Written]
  case braces | chain => simpa only [lines, Written, iff_true] using braced _
  case loop test =>
    simp only [lines, Written, iff_true]
    split
    · exact ⟨"\x7d", by simp, by decide⟩
    · exact ⟨"\x7d " ++ test, by simp, by simp⟩
  case entry header =>
    simp only [Written, iff_true]
    cases place with
    | alone => exact braced _
    | chained =>
      simp only [lines, joined]
      split
      · exact exists_mem_opened ..
      · exact ⟨"\x7d", by simp, by decide⟩

end Shape

theorem written_shape_iff (notRoot : id ≠ Tree.root) :
    (shape t d id s).Written ↔ ¬ s.omitted d := by
  cases s
  case block => simp [shape, notRoot, Shape.Written, Stmt.omitted]
  case pragma token =>
    cases dropped : d.pragma token.text <;> simp [shape, Shape.Written, Stmt.omitted, dropped]
  case namespaceBlock =>
    cases flat : d.namespaces <;> simp [shape, Shape.Written, Stmt.omitted, flat]
  case whileLoop condition body bodyFirst =>
    cases bodyFirst <;> simp [shape, Shape.Written, Stmt.omitted]
  case returnJump value => cases value <;> simp [shape, Shape.Written, Stmt.omitted]
  all_goals simp [shape, Shape.Written, Stmt.omitted]

/-- A statement has a line that is not empty unless the dialect has no words for it. -/
theorem exists_mem_ownRows_iff (notRoot : id ≠ Tree.root) :
    (∃ row ∈ ownRows t d place depth id s, row.content ≠ "") ↔ ¬ s.omitted d := by
  rw [← written_shape_iff (t := t) notRoot, ← Shape.exists_mem_lines_iff d.style place]
  simp [ownRows, Row.all]

theorem inlineText_ne_empty_iff (speaks : d.toSpelling.Speaks) (found : t.stmt? x = some u)
    (named : AllTokens (fun token => token.text ≠ "") u.terminals) :
    inlineText t d x ≠ "" ↔ u.inscribed := by
  obtain ⟨⟨_, _, u⟩, there, rfl⟩ := Option.map_eq_some_iff.mp found
  rw [inlineText, there]
  cases u
  case expression value => simp [Stmt.inscribed, Expr.render_ne_empty speaks named]
  case declaration vars => simp [Stmt.inscribed, VarDecl.renderGroup_eq_empty_iff]
  all_goals simp [Stmt.inscribed]

/-- Something is printed for the statement by itself: a line that is not empty, or words in the
header of a statement. -/
def Contributes (h : t.Linked) (d : Dialect) (r x : StmtId) : Prop :=
  (∃ row ∈ rows h d .alone 0 r, row.id = x ∧ row.content ≠ "") ∨
    ∃ p s, t.Shown r p ∧ t.stmt? p = some s ∧ x ∈ s.header ∧ inlineText t d x ≠ ""

/-- A statement that is shown contributes unless the dialect has no words for it. -/
theorem contributes_iff_of_shown (live : t.contains r) (shown : t.Shown r x)
    (found : t.stmt? x = some s) (notRoot : x ≠ Tree.root) :
    Contributes h d r x ↔ ¬ s.omitted d := by
  constructor
  · rintro (⟨row, written, rfl, content⟩ | ⟨p, s', shown', found', part, -⟩)
    · obtain ⟨-, s', place, depth, found', own⟩ := shown_of_mem_rows live written
      cases Option.some.inj (found.symm.trans found')
      exact (exists_mem_ownRows_iff notRoot).mp ⟨row, own, content⟩
    · exact absurd shown (h.not_shown_of_header live shown' found' part (.refl ..))
  · intro words
    obtain ⟨place, depth, inside⟩ := exists_ownRows (h := h) shown found .alone 0
    obtain ⟨row, own, content⟩ := (exists_mem_ownRows_iff notRoot).mpr words
    exact .inl ⟨row, inside own, id_of_mem_ownRows own, content⟩

/-- Of all that lies in a header, only the statement that stands there can contribute. -/
theorem contributes_iff_of_header (live : t.contains r) {p : StmtId} (shown : t.Shown r p)
    (found : t.stmt? p = some s) (part : y ∈ s.header) (within : t.Within x y) :
    Contributes h d r x ↔ x = y ∧ inlineText t d y ≠ "" := by
  constructor
  · rintro (⟨row, written, rfl, -⟩ | ⟨p', s', shown', found', part', text⟩)
    · have printed := (shown_of_mem_rows live written).1
      exact absurd printed (h.not_shown_of_header live shown found part within)
    · rcases within.cases with rfl | ⟨owner, owned, within⟩
      · exact ⟨rfl, text⟩
      · have member : x ∈ s'.owned := Stmt.mem_owned_iff.mpr (.inl part')
        have owned' := h.parent?_of_mem found' member
        cases Option.some.inj (owned.symm.trans owned')
        exact absurd shown' (h.not_shown_of_header live shown found part within)
  · rintro ⟨rfl, text⟩
    exact .inr ⟨p, s, shown, found, part, text⟩

/-- Everything contributes, apart from what the dialect has no words for and from what stands in a
header, or beneath a statement there, that has no words in a header. -/
theorem contributes_iff (live : t.contains r) (within : t.Within x r) (notRoot : x ≠ Tree.root)
    (found : t.stmt? x = some s)
    (inscribed : ∀ y u, t.stmt? y = some u → (inlineText t d y ≠ "" ↔ u.inscribed)) :
    Contributes h d r x ↔ ¬ s.omitted d ∧ ∀ p s' y u, t.Shown r p → t.stmt? p = some s' →
      y ∈ s'.header → t.Within x y → t.stmt? y = some u → u.inscribed := by
  rcases h.shown_or_header within with shown | ⟨p, s', y, shown, found', part, inside⟩
  · rw [contributes_iff_of_shown live shown found notRoot]
    refine (and_iff_left fun p s' y u shown' found' part inside _ => ?_).symm
    exact absurd shown (h.not_shown_of_header live shown' found' part inside)
  · rw [contributes_iff_of_header live shown found' part inside]
    constructor
    · rintro ⟨rfl, text⟩
      have words := (inscribed x s found).mp text
      refine ⟨Stmt.not_omitted_of_inscribed words, ?_⟩
      intro q s'' y u shown' found'' part' inside' there
      have text' := (contributes_iff_of_header live shown' found'' part' inside').mp
        ((contributes_iff_of_header (h := h) live shown found' part (.refl ..)).mpr ⟨rfl, text⟩)
      exact (inscribed y u there).mp text'.2
    · rintro ⟨-, each⟩
      have member := Stmt.mem_owned_iff.mpr (.inl part)
      have owned := h.parent?_of_mem found' member
      obtain ⟨u, there⟩ := Tree.exists_stmt (Tree.contains_of_parent? owned)
      have words := each p s' y u shown found' part inside there
      refine ⟨?_, (inscribed y u there).mpr words⟩
      rcases inside.cases_tail with same | ⟨child, -, owned⟩
      · exact same.symm
      · have member := h.mem_owned_iff.mpr owned
        rw [Tree.owned_of_stmt? there, Stmt.owned_of_inscribed words] at member
        cases member

end Emission

section
open Emission

/-- What is missing in the text of a compiled program. The text consists of the lines of the tree;
every header that is shown is in one of them, and what stands in it has words there exactly if it
is an expression or a declaration of something. Whatever else stands in a header is lost, with all
that it owns; beyond that, only dropped pragmas and flattened namespaces contribute nothing. -/
theorem Description.contributes_of_compile {desc : Description} {t : Tree} {d : Dialect}
    {dialects : List Dialect} {options : CompileOptions} {c : Compilation}
    (built : desc.toTree = .ok t) (compiled : t.compile dialects options = .ok c)
    (asked : d ∈ dialects) (builtin : d ∈ Dialect.builtins)
    (named : ∀ x s, t.stmt? x = some s → AllTokens (fun token => token.text ≠ "") s.terminals) :
    ∃ h : t.Linked,
      (∃ output ∈ c.outputs, output.target = d.name ∧ output.source =
        (if options.prelude then (d.prelude.map (· ++ "\n")).getD "" else "") ++
          Row.texts d.style (rows h d .alone 0 Tree.root)) ∧
      (∀ p s, t.Shown Tree.root p → t.stmt? p = some s →
        (∀ text, s.heading? (inlineText t d) = some text →
          ∃ row ∈ rows h d .alone 0 Tree.root, row.id = p ∧ row.Carries text) ∧
        ∀ y ∈ s.header, ∀ u, t.stmt? y = some u → (inlineText t d y ≠ "" ↔ u.inscribed)) ∧
      ∀ x s, t.stmt? x = some s → t.Within x Tree.root → x ≠ Tree.root →
        (Contributes h d Tree.root x ↔ ¬ s.omitted d ∧
          ∀ p s' y u, t.Shown Tree.root p → t.stmt? p = some s' → y ∈ s'.header → t.Within x y →
            t.stmt? y = some u → u.inscribed) := by
  have reachable := Build.reachable_of_toTree built
  have h := reachable.rooted.toLinked
  have inscribed (y : StmtId) (u : Stmt) (found : t.stmt? y = some u) :
      inlineText t d y ≠ "" ↔ u.inscribed :=
    inlineText_ne_empty_iff (Dialect.speaks_of_builtin builtin) found (named y u found)
  refine ⟨h, ?_, fun p s shown found => ⟨fun text heading => ?_, ?_⟩, ?_⟩
  · refine ⟨t.outputFor options d, ?_, rfl, ?_⟩
    · exact Tree.outputs_of_compile reachable compiled ▸ List.mem_map_of_mem asked
    · have text := emit_eq_texts h d Tree.root
      rw [← text]
      unfold Tree.outputFor emitProgram
      cases options.prelude <;> simp
  · exact exists_row_of_heading? shown found heading
  · exact fun y _ u => inscribed y u
  · exact fun x s found within notRoot =>
      contributes_iff reachable.rooted.contains_root within notRoot found inscribed

/-- In CUDA the condition of a loop contributes, and a pragma of OpenMP does not. -/
theorem Description.contributes_of_compile_of_loop :
    let desc : Description := { statements := [
      .whileLoop .none (.leaf .none (.expression (.ident ⟨.identifier, "a", .none⟩)))
        [.leaf .none (.pragma "omp barrier")] false] }
    ∃ t c, ∃ h : t.Linked, desc.toTree = .ok t ∧ t.compile [.cuda] {} = .ok c ∧
      Contributes h .cuda Tree.root ⟨1⟩ ∧ ¬ Contributes h .cuda Tree.root ⟨3⟩ := by
  intro desc
  obtain ⟨t, built, seen⟩ := desc.exists_of_seen (p := fun t =>
    (∀ finding ∈ t.validate Tree.root, finding.isError = false) ∧
    (∀ i < t.slots.size, ∀ s ∈ t.stmt? ⟨i⟩,
      AllTokens (fun token => token.text ≠ "") s.terminals ∧
        ∀ y ∈ s.header, ∀ u ∈ t.stmt? y, u.inscribed) ∧
    t.isWithin ⟨1⟩ Tree.root ∧ t.isWithin ⟨3⟩ Tree.root ∧
    (t.stmt? ⟨1⟩).any (·.kind = .expression) ∧
    (t.stmt? ⟨3⟩).any (·.omitted .cuda)) (by decide +kernel)
  simp only [decide_eq_true_eq] at seen
  obtain ⟨sound, all, first, third, value, dropped⟩ := seen
  have reachable := Build.reachable_of_toTree built
  have linked := reachable.rooted.toLinked
  obtain ⟨c, compiled⟩ := Tree.exists_compilation reachable sound [.cuda] {}
  have named (x : StmtId) (s : Stmt) (found : t.stmt? x = some s) :=
    (all x.index (Tree.index_lt (Tree.contains_of_stmt? found)) s found).1
  have inscribed (x : StmtId) (s : Stmt) (found : t.stmt? x = some s) :=
    (all x.index (Tree.index_lt (Tree.contains_of_stmt? found)) s found).2
  obtain ⟨h, -, -, contributes⟩ := contributes_of_compile built compiled List.mem_cons_self
    (by simp [Dialect.builtins]) named
  obtain ⟨s, found, value⟩ := (Option.any_eq_true ..).mp value
  obtain ⟨s', found', dropped⟩ := (Option.any_eq_true ..).mp dropped
  have below {x s} (found : t.stmt? x = some s) (within : t.isWithin x Tree.root) :=
    (linked.isWithin_iff (Tree.contains_of_stmt? found)).mp within
  refine ⟨t, c, h, built, compiled, ?_, fun present => ?_⟩
  · refine (contributes ⟨1⟩ s found (below found first) (by decide)).mpr ⟨?_, ?_⟩
    · simp only [decide_eq_true_eq] at value
      cases s
      case expression => exact Bool.false_ne_true
      all_goals cases value
    · exact fun p s' y u _ found' part _ there => inscribed p s' found' y part u there
  · have words := ((contributes ⟨3⟩ s' found' (below found' third) (by decide)).mp present).1
    exact words dropped

/-- The block that is the condition of a conditional is not printed. -/
theorem Description.not_contributes_of_compile :
    ¬ ∀ (desc : Description) (t : Tree) (dialects : List Dialect) (options : CompileOptions)
      (c : Compilation), desc.toTree = .ok t → t.compile dialects options = .ok c →
      options.validate →
      (∀ x s, t.stmt? x = some s → AllTokens (fun token => token.text ≠ "") s.terminals) →
      ∀ d ∈ dialects, d ∈ Dialect.builtins → ∀ p s, t.Shown Tree.root p → t.stmt? p = some s →
        ∀ y ∈ s.header, inlineText t d y ≠ "" := by
  intro present
  let desc : Description := { statements := [
    .conditional .none
      (.block .none [.leaf .none (.expression (.ident ⟨.identifier, "a", .none⟩))]) [] [] none] }
  obtain ⟨t, built, seen⟩ := desc.exists_of_seen (p := fun t =>
    (∀ finding ∈ t.validate Tree.root, finding.isError = false) ∧
    (∀ i < t.slots.size, ∀ s ∈ t.stmt? ⟨i⟩,
      AllTokens (fun token => token.text ≠ "") s.terminals) ∧
    (t.stmt? Tree.root).any (⟨3⟩ ∈ ·.children) ∧ (t.stmt? ⟨3⟩).any (⟨1⟩ ∈ ·.header) ∧
    inlineText t .cuda ⟨1⟩ = "") (by decide +kernel)
  simp only [decide_eq_true_eq, Option.any_eq_true] at seen
  obtain ⟨sound, all, ⟨block, root, child⟩, ⟨s, found, part⟩, missing⟩ := seen
  obtain ⟨c, compiled⟩ :=
    Tree.exists_compilation (Build.reachable_of_toTree built) sound [.cuda] {}
  have named (x : StmtId) (s : Stmt) (found : t.stmt? x = some s) :=
    all x.index (Tree.index_lt (Tree.contains_of_stmt? found)) s found
  have shown : t.Shown Tree.root ⟨3⟩ := .single ⟨block, root, List.mem_append_left _ child⟩
  exact present desc t [.cuda] {} c built compiled rfl named .cuda List.mem_cons_self
    (by simp [Dialect.builtins]) ⟨3⟩ s shown found ⟨1⟩ part missing

end
end KernelTree
