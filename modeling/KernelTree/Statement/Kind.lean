/-! The kinds of statement and their fixed codes. -/
namespace KernelTree

/-- The kinds, in the order of their codes. The codes enter fingerprints: a new kind goes to the
end. -/
inductive StmtKind where
  | block
  | pragma
  /-- A function without a body. -/
  | prototype
  /-- A function with a body. -/
  | function
  | access
  | expression
  | declaration
  | goto
  | label
  | namespaceBlock
  | conditional
  | elif
  | otherwise
  | forLoop
  | whileLoop
  | switch
  | caseLabel
  | defaultLabel
  | continueJump
  | breakJump
  | returnJump
deriving DecidableEq, Repr, Inhabited

namespace StmtKind

def all : List StmtKind :=
  [block, pragma, prototype, function, access, expression, declaration, goto, label,
    namespaceBlock, conditional, elif, otherwise, forLoop, whileLoop, switch, caseLabel,
    defaultLabel, continueJump, breakJump, returnJump]

def code : StmtKind → Nat
  | block => 0 | pragma => 1 | prototype => 2 | function => 3 | access => 4 | expression => 5
  | declaration => 6 | goto => 7 | label => 8 | namespaceBlock => 9 | conditional => 10
  | elif => 11 | otherwise => 12 | forLoop => 13 | whileLoop => 14 | switch => 15
  | caseLabel => 16 | defaultLabel => 17 | continueJump => 18 | breakJump => 19
  | returnJump => 20

def ofCode? (code : Nat) : Option StmtKind := all[code]?

theorem ofCode?_code (k : StmtKind) : ofCode? k.code = some k := by
  cases k <;> rfl

/-- Whether statements of this kind have children and a scope. -/
def isContainer : StmtKind → Bool
  | block | function | namespaceBlock | conditional | elif | otherwise | forLoop | whileLoop
  | switch => true
  | _ => false

/-- Whether labels inside are invisible outside. -/
def isLabelRegion (k : StmtKind) : Bool := k == function

/-- Whether the statement is an entry of an if-chain and can stand nowhere else. -/
def isChainEntry (k : StmtKind) : Bool := k == elif || k == otherwise

def name : StmtKind → String
  | block => "block"
  | pragma => "pragma"
  | prototype => "function"
  | function => "function-declaration"
  | access => "class-access"
  | expression => "expression"
  | declaration => "declaration"
  | goto => "goto"
  | label => "goto-label"
  | namespaceBlock => "namespace"
  | conditional => "if"
  | elif => "elif"
  | otherwise => "else"
  | forLoop => "for"
  | whileLoop => "while"
  | switch => "switch"
  | caseLabel => "case"
  | defaultLabel => "default"
  | continueJump => "continue"
  | breakJump => "break"
  | returnJump => "return"

end StmtKind
end KernelTree
