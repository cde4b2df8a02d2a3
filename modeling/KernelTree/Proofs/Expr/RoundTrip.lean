import KernelTree.Proofs.Expr.CastType
import KernelTree.Proofs.Expr.Productions
/-! Printed expressions are read back by the grammar of C++ as the expressions that they were, up to
what a text does not show: where tokens stood, and how the type of a cast was put together. -/
namespace KernelTree

open Grammar

namespace Expr

mutual

/-- Respells the identifiers and fields, the literals and the types of an expression. -/
def mapLeaves (name literal : Token → Token) (type : TypeSpec → TypeSpec) : Expr → Expr
  | ident token => ident (name token)
  | .literal token => .literal (literal token)
  | unary op operand => unary op (mapLeaves name literal type operand)
  | binary op lhs rhs =>
    binary op (mapLeaves name literal type lhs) (mapLeaves name literal type rhs)
  | ternary condition consequent alternative =>
    ternary (mapLeaves name literal type condition) (mapLeaves name literal type consequent)
      (mapLeaves name literal type alternative)
  | call callee args => call (mapLeaves name literal type callee) (mapAll name literal type args)
  | index base subscript =>
    index (mapLeaves name literal type base) (mapLeaves name literal type subscript)
  | member base field arrow => member (mapLeaves name literal type base) (name field) arrow
  | cast written operand => cast (type written) (mapLeaves name literal type operand)
  | list items => list (mapAll name literal type items)

def mapAll (name literal : Token → Token) (type : TypeSpec → TypeSpec) : List Expr → List Expr
  | [] => []
  | e :: rest => mapLeaves name literal type e :: mapAll name literal type rest

end

section
variable {name literal name' literal' : Token → Token} {type type' : TypeSpec → TypeSpec}

theorem mapAll_eq_map (es : List Expr) :
    mapAll name literal type es = es.map (mapLeaves name literal type) := by
  induction es with
  | nil => rfl
  | cons e rest ih => rw [mapAll, ih, List.map_cons]

theorem mapLeaves_mapLeaves (e : Expr) :
    (e.mapLeaves name' literal' type').mapLeaves name literal type =
      e.mapLeaves (name ∘ name') (literal ∘ literal') (type ∘ type') := by
  induction e with
  | ident | literal => rfl
  | call callee args ih each | list items each =>
    simp_all [mapLeaves, mapAll_eq_map]
  | _ => simp_all [mapLeaves]

end

/-- An expression with its tokens cut down to their texts and the types of its casts to how they are
written in plain C. -/
def outline (e : Expr) : Expr :=
  e.mapLeaves (fun t => .identifier t.text) (fun t => .identifier t.text)
    fun type => .named (type.render .plain)

/-- An expression with what its text shows of its tokens and of the types of its casts. -/
def shown (e : Expr) : Expr :=
  e.mapLeaves (fun t => .identifier t.text) (fun t => { kind := .literal, text := t.text })
    TypeSpec.shown

theorem shown_call (callee : Expr) (args : List Expr) :
    (call callee args).shown = .call callee.shown (args.map shown) := by
  rw [shown, mapLeaves, mapAll_eq_map]
  rfl

theorem shown_list (items : List Expr) : (list items).shown = .list (items.map shown) := by
  rw [shown, mapLeaves, mapAll_eq_map]
  rfl

/-- What the text does not show does not enter the outline. -/
theorem outline_shown (e : Expr) : e.shown.outline = e.outline := by
  rw [outline, shown, mapLeaves_mapLeaves, outline]
  congr 1
  funext type
  rw [Function.comp_apply, TypeSpec.render_shown]

end Expr

namespace Grammar

open Lexeme

/-- An operand is read at the strength that its place demands: it has it by itself, or it stands in
parentheses. -/
theorem reads_operand {e : Expr} (named : e.wellNamed)
    (h : Reads e.precedence (e.lexemesIn .plain) e.shown) {level : Nat} (strict : Bool)
    (bound : level ≤ Expr.postfixLevel) :
    Reads (level + strict.toNat) (group (e.needsParens level strict) (e.lexemesIn .plain))
      e.shown := by
  cases parens : e.needsParens level strict with
  | false =>
    refine h.looser ?_
    cases strict <;> simp [Expr.needsParens] at parens ⊢ <;> omega
  | true =>
    have compound : e.precedence ≠ Expr.primaryLevel := by
      have loose : e.precedence ≤ level := by
        cases strict <;> simp [Expr.needsParens] at parens <;> omega
      intro primary
      exact absurd (Nat.le_trans (primary ▸ loose) bound) (by decide)
    exact (h.looser (Nat.zero_le _)).parens (castType_eq_none named compound)

theorem reads_items {es : List Expr} {close : String}
    (each : ∀ e ∈ es, e.wellNamed → Reads e.precedence (e.lexemesIn .plain) e.shown)
    (named : Expr.wellNamedAll es) (known : close ∈ [")", "\x7d"]) :
    ∀ e ∈ es, Reads 0 (e.lexemesIn .plain) e.shown ∧
      ∀ rest, expect close (e.lexemesIn .plain ++ rest) = none := by
  rw [Expr.wellNamedAll_eq_all, List.all_eq_true] at named
  intro e inside
  have name := named e inside
  exact ⟨(each e inside name).looser (Nat.zero_le _),
    fun rest => (starts_lexemesIn name rest).expect_eq_none known⟩

/-- The lexemes of an expression are read at its binding strength. -/
theorem reads_lexemes {e : Expr} (named : e.wellNamed) :
    Reads e.precedence (e.lexemesIn .plain) e.shown := by
  induction e with
  | ident name =>
    rw [Expr.wellNamed] at named
    have read : Reads Expr.primaryLevel _ _ := .word name.text
    rwa [leaf_of_isName named] at read
  | literal text =>
    rw [Expr.wellNamed] at named
    have read : Reads Expr.primaryLevel _ _ := .word text.text
    rwa [leaf_of_isNumeral named] at read
  | unary op operand ih =>
    rw [Expr.wellNamed] at named
    rw [Expr.lexemesIn, Expr.precedence]
    cases behind : op.isPostfix with
    | true =>
      have base := reads_operand named (ih named) false (Nat.le_refl _)
      cases op
      case postIncrement => exact base.postIncrement
      case postDecrement => exact base.postDecrement
      all_goals contradiction
    | false =>
      exact .prefixed behind (reads_operand named (ih named) false (by decide))
  | binary op lhs rhs left right =>
    rw [Expr.wellNamed, Bool.and_eq_true] at named
    rw [Expr.lexemesIn, Expr.precedence]
    cases level : op.precedence with
    | zero =>
      have right := reads_operand named.2 (right named.2) false (Nat.zero_le _)
      rw [BinaryOp.groupsRight, level]
      exact .assignment level (reads_operand named.1 (left named.1) true (Nat.zero_le _)) right
    | succ k =>
      have bound : k + 1 ≤ Expr.postfixLevel := by
        rw [← level]
        cases op <;> decide
      rw [BinaryOp.groupsRight, level]
      exact .grouped level (reads_operand named.1 (left named.1) false bound)
        (reads_operand named.2 (right named.2) true bound)
  | ternary condition consequent alternative first second third =>
    rw [Expr.wellNamed, Bool.and_eq_true, Bool.and_eq_true] at named
    have test : Reads (1 + 1) _ condition.shown :=
      reads_operand named.1.1 (first named.1.1) true (by decide)
    exact .conditional (test.looser (by decide)) ((second named.1.2).looser (Nat.zero_le _))
      ((third named.2).looser (Nat.zero_le _))
  | call callee args ih each =>
    rw [Expr.wellNamed, Bool.and_eq_true] at named
    have base := reads_operand named.1 (ih named.1) false (Nat.le_refl _)
    rw [Expr.lexemesIn, Expr.lexemesInAll_eq_map, Expr.shown_call]
    exact base.call (reads_items each named.2 (by decide))
  | index base subscript outer inner =>
    rw [Expr.wellNamed, Bool.and_eq_true] at named
    rw [Expr.lexemesIn, List.append_assoc]
    exact .index (reads_operand named.1 (outer named.1) false (by decide))
      ((inner named.2).looser (Nat.zero_le _))
  | member base field arrow ih =>
    rw [Expr.wellNamed, Bool.and_eq_true] at named
    exact .member (reads_operand named.1 (ih named.1) false (by decide)) _ _
  | cast type operand ih =>
    rw [Expr.wellNamed, Bool.and_eq_true] at named
    have base : Reads Expr.unaryLevel _ operand.shown :=
      reads_operand named.2 (ih named.2) false (by decide)
    have typed (rest : List Lexeme) :
        castType (type.lexemesIn .plain ++ [.sign ")"] ++ rest) = some (type.shown, rest) := by
      rw [TypeSpec.lexemesIn_plain, List.append_assoc]
      exact castType_lexemes named.1 rest
    have read := base.cast (by simp) typed
    rwa [← List.cons_append, List.append_assoc] at read
  | list items each =>
    rw [Expr.wellNamed] at named
    rw [Expr.lexemesIn, Expr.lexemesInAll_eq_map, Expr.shown_list]
    exact .list (reads_items each named (by decide))

/-- What is read of a printed expression is the expression, its tokens compared by their texts and
the types of its casts by how they are written. -/
theorem parse_render {e : Expr} (named : e.wellNamed) :
    (parse (e.render .plain)).map Expr.outline = some e.outline := by
  have cut := Expr.lexesTo_render named [] nofun
  rw [List.append_nil, Lexeme.lex_nil, List.append_nil] at cut
  have whole := (reads_lexemes named).whole [] nofun
  rw [List.append_nil] at whole
  rw [parse, cut, whole]
  exact congrArg some (Expr.outline_shown e)

/-- Parentheses around the right operand of a difference and around the callee, a blank between two
minus signs, and a type of which only a part is written. -/
theorem parse_render_of_difference :
    let x : Expr := .ident (.ofSpelling "x" ⟨0, 4, 5⟩)
    let type : TypeSpec := {
      name := "float", qualifiers := [.restrict, .shared, .const], pointers := 2 }
    let e : Expr := .binary .sub x (.binary .sub (.unary .neg (.unary .preDecrement x))
      (.call (.cast type x) [.binary .assign x (.literal (.ofSpelling "10")), .list [x]]))
    e.render .plain = "x - (- --x - ((const float **restrict)x)(x = 10, \x7bx\x7d))" ∧ e.wellNamed ∧
      (parse (e.render .plain)).map Expr.outline = some e.outline := by
  intro x type e
  have named : e.wellNamed := by decide
  exact ⟨by decide +kernel, named, parse_render named⟩

end Grammar
end KernelTree
