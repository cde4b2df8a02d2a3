import KernelTree.Expr.Basic
/-! Expressions as text, with as few parentheses as their binding strengths allow. -/
namespace KernelTree.Expr

/-- Whether an operand needs parentheses: it binds looser than its place demands, or just as
strongly on the side to which the operator does not group. -/
def needsParens (e : Expr) (level : Nat) (strict : Bool) : Bool :=
  e.precedence < level || (strict && e.precedence == level)

/-- The text of an operand in parentheses where `needsParens` asks for them. -/
def enclose (parens : Bool) (text : String) : String :=
  if parens then "(" ++ text ++ ")" else text

/-- A blank keeps an operator apart from an operand whose operator begins with the same sign, so
that two minus signs do not become a decrement. -/
def separator (op : UnaryOp) : Expr → String
  | unary inner _ => if op.symbol.toList.isPrefixOf inner.symbol.toList then " " else ""
  | _ => ""

mutual

def render (sp : Spelling) : Expr → String
  | ident name => sp.identifier name.text
  | literal text => text.text
  | unary op operand =>
    if op.isPostfix then
      enclose (operand.needsParens postfixLevel false) (render sp operand) ++ op.symbol
    else
      op.symbol ++ separator op operand ++
        enclose (operand.needsParens unaryLevel false) (render sp operand)
  | binary op lhs rhs =>
    enclose (lhs.needsParens op.precedence op.groupsRight) (render sp lhs) ++
      " " ++ op.symbol ++ " " ++
      enclose (rhs.needsParens op.precedence (!op.groupsRight)) (render sp rhs)
  | ternary condition consequent alternative =>
    enclose (condition.needsParens 1 true) (render sp condition) ++
      " ? " ++ render sp consequent ++ " : " ++ render sp alternative
  | call callee args =>
    enclose (callee.needsParens postfixLevel false) (render sp callee) ++
      "(" ++ ", ".intercalate (renderAll sp args) ++ ")"
  | index base subscript =>
    enclose (base.needsParens postfixLevel false) (render sp base) ++
      "[" ++ render sp subscript ++ "]"
  | member base field arrow =>
    enclose (base.needsParens postfixLevel false) (render sp base) ++
      (if arrow then "->" else ".") ++ field.text
  | cast type operand =>
    "(" ++ type.render sp ++ ")" ++
      enclose (operand.needsParens unaryLevel false) (render sp operand)
  | list items => "\x7b" ++ ", ".intercalate (renderAll sp items) ++ "\x7d"

def renderAll (sp : Spelling) : List Expr → List String
  | [] => []
  | e :: rest => render sp e :: renderAll sp rest

end

theorem renderAll_eq_map (sp : Spelling) (l : List Expr) : renderAll sp l = l.map (render sp) := by
  induction l with
  | nil => simp [renderAll]
  | cons e rest ih => simp [renderAll, ih]

end KernelTree.Expr
