import KernelTree.Token
import KernelTree.TypeSpec
/-! Expressions of the kernel language and the binding strength of their operators. -/
namespace KernelTree

inductive BinaryOp where
  | mul | div | rem
  | add | sub
  | shl | shr
  | lt | le | gt | ge
  | eq | ne
  | bitAnd | bitXor | bitOr
  | and | or
  | assign | addAssign | subAssign | mulAssign | divAssign
deriving DecidableEq, Repr, Inhabited

namespace BinaryOp

def all : List BinaryOp :=
  [mul, div, rem, add, sub, shl, shr, lt, le, gt, ge, eq, ne, bitAnd, bitXor, bitOr, and, or,
    assign, addAssign, subAssign, mulAssign, divAssign]

def symbol : BinaryOp → String
  | mul => "*" | div => "/" | rem => "%"
  | add => "+" | sub => "-"
  | shl => "<<" | shr => ">>"
  | lt => "<" | le => "<=" | gt => ">" | ge => ">="
  | eq => "==" | ne => "!="
  | bitAnd => "&" | bitXor => "^" | bitOr => "|"
  | and => "&&" | or => "||"
  | assign => "=" | addAssign => "+=" | subAssign => "-=" | mulAssign => "*=" | divAssign => "/="

/-- Binding strength; a higher level binds tighter. -/
def precedence : BinaryOp → Nat
  | mul | div | rem => 10
  | add | sub => 9
  | shl | shr => 8
  | lt | le | gt | ge => 7
  | eq | ne => 6
  | bitAnd => 5
  | bitXor => 4
  | bitOr => 3
  | and => 2
  | or => 1
  | assign | addAssign | subAssign | mulAssign | divAssign => 0

/-- Assignments group to the right, all other operators to the left. -/
def groupsRight (op : BinaryOp) : Bool := op.precedence == 0

end BinaryOp

inductive UnaryOp where
  | neg | not | bitNot | deref | addressOf
  | preIncrement | preDecrement
  | postIncrement | postDecrement
deriving DecidableEq, Repr, Inhabited

namespace UnaryOp

def all : List UnaryOp :=
  [neg, not, bitNot, deref, addressOf, preIncrement, preDecrement, postIncrement, postDecrement]

def symbol : UnaryOp → String
  | neg => "-" | not => "!" | bitNot => "~" | deref => "*" | addressOf => "&"
  | preIncrement | postIncrement => "++"
  | preDecrement | postDecrement => "--"

def isPostfix (op : UnaryOp) : Bool := op == postIncrement || op == postDecrement

end UnaryOp

inductive Expr where
  | ident (name : Token)
  | literal (text : Token)
  | unary (op : UnaryOp) (operand : Expr)
  | binary (op : BinaryOp) (lhs rhs : Expr)
  /-- The conditional expression. -/
  | ternary (condition consequent alternative : Expr)
  | call (callee : Expr) (args : List Expr)
  | index (base subscript : Expr)
  /-- A field, reached through a pointer if `arrow`. -/
  | member (base : Expr) (field : Token) (arrow : Bool)
  | cast (type : TypeSpec) (operand : Expr)
  /-- A brace initialiser. -/
  | list (items : List Expr)
deriving Repr, Inhabited

namespace Expr

def unaryLevel : Nat := 11

def postfixLevel : Nat := 12

/-- The level of what needs no parentheses anywhere. -/
def primaryLevel : Nat := 255

/-- Binding strength of the outermost construct. A conditional expression stands at the level of
assignment, so it is parenthesised inside every binary operand that binds tighter. -/
def precedence : Expr → Nat
  | ident _ | literal _ | list _ => primaryLevel
  | call .. | index .. | member .. => postfixLevel
  | unary op _ => if op.isPostfix then postfixLevel else unaryLevel
  | cast .. => unaryLevel
  | binary op .. => op.precedence
  | ternary .. => 0

end Expr
end KernelTree
