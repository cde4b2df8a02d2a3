import KernelTree.Proofs.Expr.C99.Conformance
/-! Printed expressions in the grammar of C99: they are read back as they were if their text has the
form that C99 wants, and otherwise they are not read at all. -/
namespace KernelTree.C99

open Lexeme
open Grammar (levels prefixes expect Ends Closed isName isNumeral starts_lexemesIn)

variable {e : Expr} {ts rest : List Lexeme}

theorem expect_group (h : ∀ rest, expect "\x7b" (ts ++ rest) = none) (parens : Bool)
    (rest : List Lexeme) : expect "\x7b" (group parens ts ++ rest) = none := by
  cases parens with
  | false => exact h rest
  | true => rfl

/-- Only lists open with braces, and an operand is none. -/
theorem expect_lexemes (placed : e.placed false) (rest : List Lexeme) :
    expect "\x7b" (e.lexemesIn device ++ rest) = none := by
  induction e generalizing rest with
  | ident | literal | cast => rfl
  | unary op operand ih =>
    rw [Expr.placed] at placed
    rw [Expr.lexemesIn]
    split
    · rw [List.append_assoc]
      exact expect_group (ih placed) _ _
    · cases op <;> rfl
  | binary op lhs rhs left =>
    rw [Expr.placed, Bool.and_eq_true, Bool.and_eq_true] at placed
    rw [Expr.lexemesIn, List.append_assoc]
    exact expect_group (left placed.1.2) _ _
  | ternary condition consequent alternative first =>
    rw [Expr.placed, Bool.and_eq_true, Bool.and_eq_true] at placed
    simp only [Expr.lexemesIn, List.append_assoc]
    exact expect_group (first placed.1.1) _ _
  | call _ _ ih | index _ _ ih =>
    rw [Expr.placed, Bool.and_eq_true] at placed
    simp only [Expr.lexemesIn, List.append_assoc]
    exact expect_group (ih placed.1) _ _
  | member _ _ _ ih =>
    rw [Expr.placed] at placed
    simp only [Expr.lexemesIn, List.append_assoc]
    exact expect_group (ih placed) _ _
  | list => cases placed

/-- The outcomes of the lexemes of an expression, by where it stands: among operands, where only
lists may stand, and where no assignment may stand. -/
structure Outcomes (e : Expr) : Prop where
  reads : e.placed false → Reads e.level (e.lexemesIn device) (outcome e)
  braces : e.isList → e.placed true → ∀ rest,
    initializer (e.lexemesIn device ++ rest) = (outcome e).map (·, rest)
  bare : e.isAssignment → e.placed false → ∀ rest,
    unassigned (conditional (e.lexemesIn device ++ rest)) = none

namespace Outcomes

theorem of_reads (noList : e.isList = false) (other : e.isAssignment = false)
    (h : e.placed false → Reads e.level (e.lexemesIn device) (outcome e)) : Outcomes e where
  reads := h
  braces list := by simp [noList] at list
  bare assignment := by simp [other] at assignment

theorem placed_eq (noList : e.isList = false) (initial : Bool) :
    e.placed initial = e.placed false := by
  cases e with
  | list => cases noList
  | _ => rw [Expr.placed, Expr.placed]

theorem item (h : Outcomes e) {initial : Bool} (placed : e.placed initial) :
    ReadsItem initial (e.lexemesIn device) (outcome e) := by
  cases list : e.isList with
  | true =>
    cases e with
    | list items =>
      cases initial with
      | true => exact ⟨by simp [Expr.lexemesIn], fun rest _ => h.braces rfl placed rest⟩
      | false => cases placed
    | _ => cases list
  | false =>
    rw [placed_eq list] at placed
    have read := h.reads placed
    refine ⟨read.filled, fun rest closed => ?_⟩
    rw [initializer_of_expect (expect_lexemes placed rest), ite_self]
    exact read.whole rest closed

end Outcomes

/-- An operand is read at the level that its place demands: it has it by itself, or it stands in
parentheses. -/
theorem reads_operand (named : e.wellNamed) (h : Reads e.level (e.lexemesIn device) (outcome e))
    {strength needed : Nat} {strict : Bool} (bound : strength ≤ Expr.postfixLevel)
    (tight : strength + strict.toNat ≤ e.precedence → needed ≤ e.level) :
    Reads needed (group (e.needsParens strength strict) (e.lexemesIn device)) (outcome e) := by
  cases parens : e.needsParens strength strict with
  | false =>
    refine h.looser (tight ?_)
    cases strict <;> simp [Expr.needsParens] at parens ⊢ <;> omega
  | true =>
    have compound : e.precedence ≠ Expr.primaryLevel := by
      have loose : e.precedence ≤ strength := by
        cases strict <;> simp [Expr.needsParens] at parens <;> omega
      intro primary
      exact absurd (Nat.le_trans (primary ▸ loose) bound) (by decide)
    exact (h.looser (Nat.zero_le _)).parens (declines_typeName.eq_none named compound)

/-- An operand of operators, a condition or the operand of a cast. -/
theorem reads_tight (named : e.wellNamed) (h : Reads e.level (e.lexemesIn device) (outcome e))
    (strength : Nat) (strict : Bool) (positive : 0 < strength)
    (loose : strength + strict.toNat ≤ Expr.unaryLevel) :
    Reads (strength + strict.toNat + 1) (group (e.needsParens strength strict) (e.lexemesIn device))
      (outcome e) :=
  reads_operand named h
    (Nat.le_trans (Nat.le_trans (Nat.le_add_right _ _) loose) (Nat.le_succ _))
    (Expr.level_of_precedence (Nat.lt_of_lt_of_le positive (Nat.le_add_right _ _)) loose)

theorem reads_base (named : e.wellNamed) (h : Reads e.level (e.lexemesIn device) (outcome e)) :
    Reads postfixLevel (group (e.needsParens Expr.postfixLevel false) (e.lexemesIn device))
      (outcome e) :=
  reads_operand named h (Nat.le_refl _) Expr.level_of_postfix

/-- An increment does not read the cast that stands behind it. -/
theorem unary_cast {type : TypeSpec} {operand : Expr} (named : isName type.name)
    (placed : operand.placed false) (rest : List Lexeme) :
    unary ((Expr.cast type operand).lexemesIn device ++ rest) = none := by
  have none := (reads_type named).unary_eq_none
    (expect_group (expect_lexemes placed) (operand.needsParens Expr.unaryLevel false) rest)
  rw [Expr.lexemesIn]
  simpa using none

/-- The operand of a prefix operator stands bare if it is a cast, and then an increment does not
read it. -/
theorem reads_prefixed {op : UnaryOp} {operand : Expr} (front : op.isPostfix = false)
    (named : operand.wellNamed) (placed : operand.placed false)
    (h : Reads operand.level (operand.lexemesIn device) (outcome operand)) :
    Reads unaryLevel ((Expr.unary op operand).lexemesIn device) (outcome (.unary op operand)) := by
  have outer : (Expr.unary op operand).lexemesIn device = .sign op.symbol ::
      group (operand.needsParens Expr.unaryLevel false) (operand.lexemesIn device) := by
    rw [Expr.lexemesIn, if_neg (by simp [front])]
  rw [outer, outcome]
  by_cases cast : isStep op && operand.isCast
  · obtain ⟨step, isCast⟩ := Bool.and_eq_true_iff.mp cast
    rw [if_pos cast]
    refine Reads.prefixed (v := none) front fun rest ends => ?_
    rw [if_pos step]
    cases operand with
    | cast type operand =>
      rw [Expr.wellNamed, Bool.and_eq_true] at named
      rw [Expr.placed, Outcomes.placed_eq (by simpa [Expr.isCast] using isCast)] at placed
      exact unary_cast named.1 placed rest
    | _ => cases isCast
  · rw [if_neg cast]
    refine Reads.prefixed front fun rest ends => ?_
    cases step : isStep op with
    | true =>
      have other : operand.isCast = false := by simpa [step] using cast
      have bare : Reads unaryLevel (group (operand.needsParens Expr.unaryLevel false) _) _ :=
        reads_operand named h (by decide) fun le => Expr.level_of_unary le other
      exact bare.plain (Nat.le_refl _) rest ends
    | false =>
      have tight : Reads castLevel _ _ :=
        reads_tight named h Expr.unaryLevel false (by decide) (by decide)
      exact tight.single (Nat.le_refl _) rest ends

/-- What is assigned to needs no parentheses. -/
theorem reads_place (place : e.isPlace)
    (h : Reads e.level (e.lexemesIn device) (outcome e)) :
    Reads unaryLevel (group (e.needsParens 0 true) (e.lexemesIn device)) (outcome e) := by
  obtain ⟨tight, positive⟩ := Expr.level_of_isPlace place
  have parens : e.needsParens 0 true = false := by
    simpa [Expr.needsParens] using Nat.ne_of_gt positive
  rw [parens]
  exact h.looser tight

theorem outcomes_binary {op : BinaryOp} {lhs rhs : Expr}
    (named : (Expr.binary op lhs rhs).wellNamed) (left : Outcomes lhs) (right : Outcomes rhs) :
    Outcomes (.binary op lhs rhs) := by
  rw [Expr.wellNamed, Bool.and_eq_true] at named
  cases precedence : op.precedence with
  | zero =>
    have target (placed : (Expr.binary op lhs rhs).placed false) :
        Reads unaryLevel (group (lhs.needsParens 0 true) (lhs.lexemesIn device)) (outcome lhs) ∧
          rhs.placed false := by
      simp only [Expr.placed, Expr.isAssignment, precedence, beq_self_eq_true, Bool.not_true,
        Bool.false_or, Bool.and_eq_true] at placed
      exact ⟨reads_place placed.1.1 (left.reads placed.1.2), placed.2⟩
    have lexemes : (Expr.binary op lhs rhs).lexemesIn device =
        group (lhs.needsParens 0 true) (lhs.lexemesIn device) ++
          .sign op.symbol :: group (rhs.needsParens 0 false) (rhs.lexemesIn device) := by
      rw [Expr.lexemesIn, BinaryOp.groupsRight, precedence]
      rfl
    refine ⟨fun placed => ?_, fun list => absurd list Bool.false_ne_true, fun _ placed rest => ?_⟩
    · obtain ⟨target, others⟩ := target placed
      have value : Reads 0 (group (rhs.needsParens 0 false) (rhs.lexemesIn device)) (outcome rhs) :=
        reads_operand named.2 (right.reads others) (by decide) fun _ => Nat.zero_le _
      rw [lexemes, outcome, Expr.level, if_pos (by simp [Expr.isAssignment, precedence])]
      exact .assigned precedence target value
    · rw [lexemes, List.append_assoc]
      exact (target placed).1.unassigned_assigned precedence _
  | succ k =>
    have bound : k + 2 ≤ Expr.unaryLevel := by
      rw [← Nat.succ_eq_add_one (k + 1), ← precedence]
      cases op <;> decide
    have other : (Expr.binary op lhs rhs).isAssignment = false := by
      simp [Expr.isAssignment, precedence]
    refine .of_reads rfl other fun placed => ?_
    rw [Expr.placed, Bool.and_eq_true, Bool.and_eq_true] at placed
    have front : Reads (k + 2) _ _ := reads_tight named.1 (left.reads placed.1.2) (k + 1) false
      (Nat.succ_pos k) (Nat.le_of_succ_le bound)
    have behind : Reads (k + 3) _ _ := reads_tight named.2 (right.reads placed.2) (k + 1) true
      (Nat.succ_pos k) bound
    rw [outcome, Expr.level, if_neg (by simp [other]), Expr.lexemesIn, BinaryOp.groupsRight,
      precedence]
    exact .grouped precedence front behind

theorem outcomes_ternary {condition consequent alternative : Expr}
    (named : (Expr.ternary condition consequent alternative).wellNamed)
    (first : Outcomes condition) (second : Outcomes consequent) (third : Outcomes alternative) :
    Outcomes (.ternary condition consequent alternative) := by
  rw [Expr.wellNamed, Bool.and_eq_true, Bool.and_eq_true] at named
  refine .of_reads rfl rfl fun placed => ?_
  rw [Expr.placed, Bool.and_eq_true, Bool.and_eq_true] at placed
  have test : Reads (1 + 1 + 1) _ _ :=
    reads_tight named.1.1 (first.reads placed.1.1) 1 true (by decide) (by decide)
  have middle : Reads 0 _ _ := (second.reads placed.1.2).looser (Nat.zero_le _)
  rw [outcome, Expr.lexemesIn]
  refine (test.looser (by decide)).ternary middle fun rest closed => ?_
  cases assigns : alternative.isAssignment with
  | true => exact third.bare assigns placed.2 rest
  | false =>
    have last := (third.reads placed.2).settled (Expr.conditional_le_level assigns) rest closed
    rw [last]
    exact unassigned_of_closed closed

theorem outcomes_cast {type : TypeSpec} {operand : Expr}
    (named : (Expr.cast type operand).wellNamed) (inner : Outcomes operand) :
    Outcomes (.cast type operand) := by
  rw [Expr.wellNamed, Bool.and_eq_true] at named
  have typed := reads_type named.1
  refine .of_reads rfl rfl fun placed => ?_
  rw [Expr.placed] at placed
  have split : (Expr.cast type operand).lexemesIn device =
      .sign "(" :: (type.lexemesIn device ++ [.sign ")"]) ++
        group (operand.needsParens Expr.unaryLevel false) (operand.lexemesIn device) := by
    simp [Expr.lexemesIn]
  rw [split, outcome, Expr.level, Expr.isCast]
  cases list : operand.isList with
  | true =>
    cases operand with
    | list items =>
      have read := inner.braces rfl placed
      exact .compound typed read fun _ => by simp [Expr.lexemesIn, group, Expr.needsParens,
        Expr.precedence, Expr.primaryLevel, Expr.unaryLevel, expect]
    | _ => cases list
  | false =>
    rw [Outcomes.placed_eq list] at placed
    have base : Reads castLevel _ _ :=
      reads_tight named.2 (inner.reads placed) Expr.unaryLevel false (by decide) (by decide)
    exact .cast typed base (expect_group (expect_lexemes placed) _)

theorem outcomes_list {items : List Expr} (each : ∀ e ∈ items, Outcomes e) :
    Outcomes (.list items) := by
  refine ⟨fun placed => absurd placed Bool.false_ne_true, fun _ placed rest => ?_,
    fun assignment => absurd assignment Bool.false_ne_true⟩
  rw [Expr.placed, Bool.true_and, Expr.placedAll_eq_all, List.all_eq_true] at placed
  rw [Expr.lexemesIn, Expr.lexemesInAll_eq_map, outcome, outcomeAll_eq_mapM]
  by_cases empty : items = []
  · subst empty
    exact initializer_empty rest
  · rw [if_neg (by simpa using empty)]
    exact initializer_braces (fun e inside => (each e inside).item (placed e inside)) empty rest

theorem outcomes_call {callee : Expr} {args : List Expr} (named : (Expr.call callee args).wellNamed)
    (base : Outcomes callee) (each : ∀ e ∈ args, Outcomes e) : Outcomes (.call callee args) := by
  rw [Expr.wellNamed, Bool.and_eq_true, Expr.wellNamedAll_eq_all, List.all_eq_true] at named
  refine .of_reads rfl rfl fun placed => ?_
  rw [Expr.placed, Bool.and_eq_true, Expr.placedAll_eq_all, List.all_eq_true] at placed
  rw [Expr.lexemesIn, Expr.lexemesInAll_eq_map, outcome, outcomeAll_eq_mapM]
  exact (reads_base named.1 (base.reads placed.1)).call
    (fun e inside => (each e inside).item (placed.2 e inside))
    fun e inside rest => (starts_lexemesIn (named.2 e inside) rest).expect_eq_none (by decide)

theorem outcomes_unary {op : UnaryOp} {operand : Expr} (named : operand.wellNamed)
    (inner : Outcomes operand) : Outcomes (.unary op operand) := by
  refine .of_reads rfl rfl fun placed => ?_
  rw [Expr.placed] at placed
  have read := inner.reads placed
  rw [Expr.level]
  cases behind : op.isPostfix with
  | true =>
    have base := reads_base named read
    rw [Expr.lexemesIn, if_pos behind, outcome]
    cases op
    case postIncrement => exact base.postIncrement
    case postDecrement => exact base.postDecrement
    all_goals contradiction
  | false => exact reads_prefixed behind named placed read

/-- The outcomes of the lexemes of each expression. -/
theorem outcomes (named : e.wellNamed) : Outcomes e := by
  induction e with
  | ident name =>
    rw [Expr.wellNamed] at named
    have read : Reads postfixLevel _ _ := .word name.text
    rw [leaf?_of_isName named] at read
    exact .of_reads rfl rfl fun _ => read
  | literal text =>
    rw [Expr.wellNamed] at named
    have read : Reads postfixLevel _ _ := .word text.text
    rw [leaf?, named, Bool.true_or, if_pos rfl, Grammar.leaf_of_isNumeral named] at read
    exact .of_reads rfl rfl fun _ => read
  | unary op operand ih =>
    rw [Expr.wellNamed] at named
    exact outcomes_unary named (ih named)
  | binary op lhs rhs left right =>
    have names := Bool.and_eq_true_iff.mp (Expr.wellNamed.eq_def _ ▸ named)
    exact outcomes_binary named (left names.1) (right names.2)
  | ternary condition consequent alternative first second third =>
    have names := named
    rw [Expr.wellNamed, Bool.and_eq_true, Bool.and_eq_true] at names
    exact outcomes_ternary named (first names.1.1) (second names.1.2) (third names.2)
  | call callee args ih each =>
    have names := named
    rw [Expr.wellNamed, Bool.and_eq_true, Expr.wellNamedAll_eq_all, List.all_eq_true] at names
    exact outcomes_call named (ih names.1) fun e inside => each e inside (names.2 e inside)
  | index base subscript outer inner =>
    rw [Expr.wellNamed, Bool.and_eq_true] at named
    refine .of_reads rfl rfl fun placed => ?_
    rw [Expr.placed, Bool.and_eq_true] at placed
    rw [Expr.lexemesIn, List.append_assoc, outcome]
    exact (reads_base named.1 ((outer named.1).reads placed.1)).index
      (((inner named.2).reads placed.2).looser (Nat.zero_le _))
  | member base field arrow ih =>
    rw [Expr.wellNamed, Bool.and_eq_true] at named
    refine .of_reads rfl rfl fun placed => ?_
    rw [Expr.placed] at placed
    rw [Expr.lexemesIn, outcome]
    exact (reads_base named.1 ((ih named.1).reads placed)).member _ _
  | cast type operand ih =>
    have names := named
    rw [Expr.wellNamed, Bool.and_eq_true] at names
    exact outcomes_cast named (ih names.2)
  | list items each =>
    rw [Expr.wellNamed, Expr.wellNamedAll_eq_all, List.all_eq_true] at named
    exact outcomes_list fun e inside => each e inside (named e inside)

/-- What is read of a printed expression or initializer. -/
theorem parse_eq_outcome (named : e.wellNamed)
    (plain : ∀ name ∈ e.identifiers, Dialect.Coordinate.ofName? name = none)
    (placed : e.placed true) : parse (e.render device) = outcome e := by
  have same : ∀ name ∈ e.identifiers, device.identifier name = name := by
    intro name inside
    change Dialect.mapCoordinate _ name = name
    rw [Dialect.mapCoordinate, plain name inside]
  have cut := Expr.lexesTo_renderIn isWord_of_mem_device (fun _ => rfl) named same [] nofun
  rw [List.append_nil, Lexeme.lex_nil, List.append_nil] at cut
  have whole := ((outcomes named).item placed).whole [] nofun
  rw [if_pos rfl, List.append_nil] at whole
  rw [parse, cut, whole]
  cases outcome e <;> rfl

/-- A printed expression or initializer is read back if its text has the form that C99 wants, its
tokens compared by their texts and the types of its casts by how they are written. Otherwise it is
not read. -/
theorem parse_opencl (named : e.wellNamed)
    (plain : ∀ name ∈ e.identifiers, Dialect.Coordinate.ofName? name = none)
    (placed : e.placed true) :
    (parse (e.render Dialect.opencl.toSpelling)).map (Expr.outlineIn Dialect.opencl.toSpelling) =
      if e.conforms then some (e.outlineIn Dialect.opencl.toSpelling) else none := by
  change (parse (e.render device)).map (Expr.outlineIn device) =
    if e.conforms then some (e.outlineIn device) else none
  rw [parse_eq_outcome named plain placed, outcome_eq]
  cases e.conforms with
  | true => exact congrArg some (Expr.outlineIn_arranged device e)
  | false => rfl

/-- A conditional expression between assignments with a compound literal at its end, which is read
back, and an increment of a cast, which is not read. -/
theorem parse_opencl_of_literal :
    let x (name : String) : Expr := .ident (.identifier name)
    let type : TypeSpec := { name := "float", qualifiers := [.restrict, .global], pointers := 1 }
    let e : Expr := .binary .assign (.unary .deref (x "p")) (.ternary (.binary .lt (x "i") (x "n"))
      (.binary .assign (x "q") (.cast type (x "p"))) (.cast type (.list [x "i", .list [x "n"]])))
    let e' : Expr := .unary .preIncrement (.cast type (x "p"))
    e.render Dialect.opencl.toSpelling = "*p = i < n ? q = (__global float *restrict)p : " ++
        "(__global float *restrict)\x7bi, \x7bn\x7d\x7d" ∧
      e.wellNamed ∧ e.placed true ∧
      (∀ name ∈ e.identifiers, Dialect.Coordinate.ofName? name = none) ∧
      (parse (e.render Dialect.opencl.toSpelling)).map (Expr.outlineIn Dialect.opencl.toSpelling) =
        some (e.outlineIn Dialect.opencl.toSpelling) ∧
      e'.render Dialect.opencl.toSpelling = "++(__global float *restrict)p" ∧
      (parse (e'.render Dialect.opencl.toSpelling)).map
        (Expr.outlineIn Dialect.opencl.toSpelling) = none := by
  intro x type e e'
  have named : e.wellNamed := by decide
  have plain : ∀ name ∈ e.identifiers, Dialect.Coordinate.ofName? name = none := by decide +kernel
  have placed : e.placed true := by decide
  have read := parse_opencl named plain placed
  have rejected := parse_opencl (e := e') (by decide) (by decide +kernel) (by decide)
  rw [if_pos (by decide)] at read
  rw [if_neg (by decide)] at rejected
  exact ⟨by decide +kernel, named, placed, plain, read, by decide +kernel, rejected⟩

/-- An assignment at the end of a conditional expression stands there without parentheses, and so it
is not read. -/
theorem not_parse_opencl :
    ¬ ∀ e : Expr, e.wellNamed → (∀ name ∈ e.identifiers, Dialect.Coordinate.ofName? name = none) →
      e.placed true → (parse (e.render Dialect.opencl.toSpelling)).map
        (Expr.outlineIn Dialect.opencl.toSpelling) =
          some (e.outlineIn Dialect.opencl.toSpelling) := by
  intro faithful
  let x (name : String) : Expr := .ident (.identifier name)
  let e : Expr := .ternary (x "c") (x "a") (.binary .assign (x "x") (x "y"))
  have named : e.wellNamed := by decide
  have plain : ∀ name ∈ e.identifiers, Dialect.Coordinate.ofName? name = none := by decide +kernel
  have placed : e.placed true := by decide
  have rejected : outcome e = none := by decide
  have read := faithful e named plain placed
  rw [show e.render Dialect.opencl.toSpelling = e.render device from rfl,
    parse_eq_outcome named plain placed, rejected] at read
  cases read

end KernelTree.C99
