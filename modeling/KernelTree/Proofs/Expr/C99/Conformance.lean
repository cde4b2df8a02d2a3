import KernelTree.Proofs.Expr.C99.TypeName
import KernelTree.Proofs.Expr.RoundTrip
/-! The form that C99 wants of the text of an expression. The printer puts parentheses by the
binding strengths of operators, in which casts equal unary expressions and conditional expressions
equal assignments. So an increment of a cast and an assignment at the end of a conditional
expression stand bare where C99 wants parentheses. Besides, keywords are no names, and braces hold
something. -/
namespace KernelTree

open Lexeme

namespace Expr

/-- Identifiers, subscripts, fields and what pointers point to. -/
def isPlace : Expr → Bool
  | ident _ | index .. | member .. | unary .deref _ => true
  | _ => false

def isList : Expr → Bool
  | list _ => true
  | _ => false

def isAssignment : Expr → Bool
  | binary op .. => op.precedence == 0
  | _ => false

/-- Casts other than compound literals. -/
def isCast : Expr → Bool
  | cast _ operand => !operand.isList
  | _ => false

mutual

/-- Whether assignments go to places, and braces stand around the values of compound literals and,
where an initializer is expected, of initializers. -/
def placed (initial : Bool) : Expr → Bool
  | ident _ | literal _ => true
  | unary _ operand => placed false operand
  | e@(binary _ lhs rhs) => (!e.isAssignment || lhs.isPlace) && placed false lhs && placed false rhs
  | ternary condition consequent alternative =>
    placed false condition && placed false consequent && placed false alternative
  | call callee args => placed false callee && placedAll false args
  | index base subscript => placed false base && placed false subscript
  | member base _ _ => placed false base
  | cast _ operand => placed true operand
  | list items => initial && placedAll true items

def placedAll (initial : Bool) : List Expr → Bool
  | [] => true
  | e :: rest => placed initial e && placedAll initial rest

end

mutual

/-- Whether the text of an expression has the form that C99 wants: names are no keywords, increments
and decrements apply to no casts, conditional expressions do not end with assignments, and no braces
are empty. -/
def conforms : Expr → Bool
  | ident name => C99.isIdentifier name.text
  | literal _ => true
  | unary op operand => conforms operand && !(C99.isStep op && operand.isCast)
  | binary _ lhs rhs => conforms lhs && conforms rhs
  | ternary condition consequent alternative =>
    conforms condition && conforms consequent && conforms alternative && !alternative.isAssignment
  | call callee args => conforms callee && conformsAll args
  | index base subscript => conforms base && conforms subscript
  | member base field _ => conforms base && C99.isIdentifier field.text
  | cast type operand => C99.isTypeName type.name && conforms operand
  | list items => !items.isEmpty && conformsAll items

def conformsAll : List Expr → Bool
  | [] => true
  | e :: rest => conforms e && conformsAll rest

end

theorem placedAll_eq_all (initial : Bool) (es : List Expr) :
    placedAll initial es = es.all (placed initial) := by
  induction es with
  | nil => rfl
  | cons e rest ih => rw [placedAll, ih, List.all_cons]

/-- An expression with its tokens cut down to their texts and the types of its casts to how they are
written in a spelling. -/
def outlineIn (sp : Spelling) (e : Expr) : Expr :=
  e.mapLeaves (fun t => .identifier t.text) (fun t => .identifier t.text)
    fun type => .named (type.render sp)

/-- An expression with what its text for a device shows of its tokens and types. -/
def arranged (e : Expr) : Expr :=
  e.mapLeaves (fun t => .identifier t.text) (fun t => { kind := .literal, text := t.text })
    TypeSpec.arranged

theorem arranged_call (callee : Expr) (args : List Expr) :
    (call callee args).arranged = .call callee.arranged (args.map arranged) := by
  rw [arranged, mapLeaves, mapAll_eq_map]
  rfl

theorem arranged_list (items : List Expr) :
    (list items).arranged = .list (items.map arranged) := by
  rw [arranged, mapLeaves, mapAll_eq_map]
  rfl

theorem outlineIn_arranged (sp : Spelling) (e : Expr) :
    e.arranged.outlineIn sp = e.outlineIn sp := by
  rw [outlineIn, arranged, mapLeaves_mapLeaves, outlineIn]
  congr 1
  funext type
  rw [Function.comp_apply, TypeSpec.render_arranged]

/-- The level of the grammar at which the text of an expression stands. -/
def level : Expr → Nat
  | e@(binary op ..) => if e.isAssignment then 0 else op.precedence + 1
  | ternary .. => C99.conditionalLevel
  | e@(cast ..) => if e.isCast then C99.castLevel else C99.postfixLevel
  | unary op _ => if op.isPostfix then C99.postfixLevel else C99.unaryLevel
  | _ => C99.postfixLevel

section level
variable {e : Expr} {p : Nat}

/-- What binds as strongly as an operator has its level. -/
theorem level_of_precedence (positive : 0 < p) (loose : p ≤ unaryLevel) (le : p ≤ e.precedence) :
    p + 1 ≤ e.level := by
  have tight : p + 1 ≤ C99.castLevel := Nat.succ_le_succ loose
  have tighter : C99.castLevel ≤ C99.postfixLevel := by decide
  cases e with
  | binary op =>
    rw [precedence] at le
    rw [level, isAssignment, if_neg (by simpa using Nat.ne_of_gt (Nat.lt_of_lt_of_le positive le))]
    exact Nat.succ_le_succ le
  | ternary => exact absurd (Nat.lt_of_lt_of_le positive le) (Nat.lt_irrefl 0)
  | cast =>
    rw [level]
    split
    · exact tight
    · exact Nat.le_trans tight tighter
  | unary =>
    rw [level]
    split <;> exact Nat.le_trans tight (by decide)
  | _ => exact Nat.le_trans tight tighter

theorem level_of_unary (le : unaryLevel ≤ e.precedence) (other : e.isCast = false) :
    C99.unaryLevel ≤ e.level := by
  cases e with
  | binary op => cases op <;> simp [precedence, BinaryOp.precedence, unaryLevel] at le
  | ternary => simp [precedence, unaryLevel] at le
  | cast =>
    rw [level, if_neg (by simp [other])]
    decide
  | unary =>
    rw [level]
    split <;> decide
  | _ => exact Nat.le_succ _

theorem level_of_postfix (le : postfixLevel ≤ e.precedence) : C99.postfixLevel ≤ e.level := by
  cases e with
  | binary op => cases op <;> simp [precedence, BinaryOp.precedence, postfixLevel] at le
  | ternary => simp [precedence, postfixLevel] at le
  | cast => simp [precedence, postfixLevel, unaryLevel] at le
  | unary op =>
    rw [precedence] at le
    split at le
    next behind => simp [level, behind]
    next => simp [postfixLevel, unaryLevel] at le
  | _ => exact Nat.le_refl _

theorem level_of_isPlace (place : e.isPlace) : C99.unaryLevel ≤ e.level ∧ 0 < e.precedence := by
  cases e with
  | ident | index | member => exact ⟨Nat.le_succ _, Nat.succ_pos _⟩
  | unary op =>
    cases op
    case deref => exact ⟨Nat.le_refl _, Nat.succ_pos _⟩
    all_goals cases place
  | _ => cases place

theorem conditional_le_level (other : e.isAssignment = false) : C99.conditionalLevel ≤ e.level := by
  cases e with
  | binary op =>
    rw [level, other]
    exact Nat.le_add_left _ _
  | cast =>
    rw [level]
    split <;> decide
  | unary =>
    rw [level]
    split <;> decide
  | ternary => exact Nat.le_refl _
  | _ => exact Nat.succ_pos _

end level

end Expr

namespace C99

mutual

/-- What C99 reads of the text of an expression: the expression, as far as its text shows it, if
each of its parts is read and may stand in its place. -/
def outcome : Expr → Option Expr
  | .ident name => if isIdentifier name.text then some (.ident (.identifier name.text)) else none
  | .literal text => some (.literal { kind := .literal, text := text.text })
  | .unary op operand =>
    if isStep op && operand.isCast then none else (outcome operand).map (.unary op)
  | .binary op lhs rhs => Option.map₂ (.binary op) (outcome lhs) (outcome rhs)
  | .ternary condition consequent alternative =>
    (outcome condition).bind fun e => Option.map₂ (.ternary e) (outcome consequent)
      (if alternative.isAssignment then none else outcome alternative)
  | .call callee args => Option.map₂ .call (outcome callee) (outcomeAll args)
  | .index base subscript => Option.map₂ .index (outcome base) (outcome subscript)
  | .member base field arrow => (outcome base).bind fun e =>
    if isIdentifier field.text then some (.member e (.identifier field.text) arrow) else none
  | .cast type operand =>
    Option.map₂ .cast (if isTypeName type.name then some type.arranged else none) (outcome operand)
  | .list items => if items.isEmpty then none else (outcomeAll items).map .list

def outcomeAll : List Expr → Option (List Expr)
  | [] => some []
  | e :: rest => Option.map₂ .cons (outcome e) (outcomeAll rest)

end

theorem outcomeAll_eq_mapM (es : List Expr) : outcomeAll es = es.mapM outcome := by
  induction es with
  | nil => rfl
  | cons e rest ih =>
    rw [outcomeAll, List.mapM_cons, ih]
    cases outcome e <;> cases rest.mapM outcome <;> rfl

theorem outcomeAll_eq {es : List Expr}
    (each : ∀ e ∈ es, outcome e = if e.conforms then some e.arranged else none) :
    outcomeAll es = if Expr.conformsAll es then some (es.map Expr.arranged) else none := by
  induction es with
  | nil => rfl
  | cons e rest ih =>
    obtain ⟨first, others⟩ := List.forall_mem_cons.mp each
    rw [outcomeAll, Expr.conformsAll, first, ih others]
    cases e.conforms <;> cases Expr.conformsAll rest <;> rfl

/-- An expression is read if its text has the form that C99 wants. -/
theorem outcome_eq (e : Expr) : outcome e = if e.conforms then some e.arranged else none := by
  induction e with
  | ident | literal => rfl
  | unary op operand ih =>
    rw [outcome, Expr.conforms, ih]
    cases operand.conforms <;> cases isStep op && operand.isCast <;> rfl
  | binary op lhs rhs left right =>
    rw [outcome, Expr.conforms, left, right]
    cases lhs.conforms <;> cases rhs.conforms <;> rfl
  | ternary condition consequent alternative first second third =>
    rw [outcome, Expr.conforms, first, second, third]
    cases condition.conforms <;> cases consequent.conforms <;> cases alternative.conforms <;>
      cases alternative.isAssignment <;> rfl
  | call callee args ih each =>
    rw [outcome, Expr.conforms, ih, outcomeAll_eq each, Expr.arranged_call]
    cases callee.conforms <;> cases Expr.conformsAll args <;> rfl
  | index base subscript outer inner =>
    rw [outcome, Expr.conforms, outer, inner]
    cases base.conforms <;> cases subscript.conforms <;> rfl
  | member base field arrow ih =>
    rw [outcome, Expr.conforms, ih]
    cases base.conforms <;> cases isIdentifier field.text <;> rfl
  | cast type operand ih =>
    rw [outcome, Expr.conforms, ih]
    cases isTypeName type.name <;> cases operand.conforms <;> rfl
  | list items each =>
    rw [outcome, Expr.conforms, outcomeAll_eq each, Expr.arranged_list]
    cases items.isEmpty <;> cases Expr.conformsAll items <;> rfl

end C99
end KernelTree
