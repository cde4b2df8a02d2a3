import KernelTree.Statement.Basic
/-! Described statements: a program as it is written down, before it becomes a tree. -/
namespace KernelTree

/-- A statement that owns no others. -/
inductive Leaf where
  | pragma (text : String)
  | prototype (sig : Signature)
  | access (level : Access)
  | expression (value : Expr)
  | declaration (vars : List VarDecl)
  | goto (target : Token)
  | label (name : Token)
  | caseLabel (value : Expr)
  | defaultLabel
  | continueJump
  | breakJump
  | returnJump (value : Option Expr)

/-- The statement of a leaf. A pragma takes its place from the leaf. -/
def Leaf.toStmt (span : Span) : Leaf → Stmt
  | pragma text => .pragma (.pragma text span)
  | prototype sig => .prototype sig
  | access level => .access level
  | expression value => .expression value
  | declaration vars => .declaration vars
  | goto target => .goto target
  | label name => .label name
  | caseLabel value => .caseLabel value
  | defaultLabel => .defaultLabel
  | continueJump => .continueJump
  | breakJump => .breakJump
  | returnJump value => .returnJump value

mutual

/-- A statement with all that it holds, in source order. -/
inductive Item where
  | leaf (span : Span) (stmt : Leaf)
  | block (span : Span) (body : List Item)
  | function (span : Span) (sig : Signature) (body : List Item)
  | namespaceBlock (span : Span) (name : Token) (body : List Item)
  | conditional (span : Span) (condition : Item) (body : List Item) (arms : List Arm)
      (otherwise : Option (List Item))
  | forLoop (span : Span) (init test update : Option Item) (body : List Item)
  | whileLoop (span : Span) (condition : Item) (body : List Item) (bodyFirst : Bool)
  | switch (span : Span) (condition : Item) (body : List Item)

inductive Arm where
  | elif (condition : Item) (body : List Item)

end

namespace Item

instance : Inhabited Item := ⟨.block .none []⟩

def span : Item → Span
  | leaf span _ | block span _ | function span _ _ | namespaceBlock span _ _
  | conditional span _ _ _ _ | forLoop span _ _ _ _ | whileLoop span _ _ _
  | switch span _ _ => span

end Item

/-- A kernel: its name, if it has one, and its statements. -/
structure Description where
  name : Option String := none
  statements : List Item

end KernelTree
