import KernelTree.Declaration
import KernelTree.Statement.Kind
import KernelTree.Statement.Scope
/-! Statements: their data, and the numbers of the statements that they own. -/
namespace KernelTree

inductive Access where
  | «public»
  | «protected»
  | «private»
deriving DecidableEq, Repr, Inhabited

namespace Access

def all : List Access := [.public, .protected, .private]

def word : Access → String
  | .public => "public"
  | .protected => "protected"
  | .private => "private"

end Access

/-- The children of a container, in order, and the names declared at its level. -/
structure Block where
  children : List StmtId := []
  scope : Scope := .empty

namespace Block

def empty : Block := {}

instance : Inhabited Block := ⟨empty⟩

/-- The block with its statements renumbered, or a statement that has no new number. -/
def renumber (f : StmtId → Option StmtId) (b : Block) : Except StmtId Block := do
  let children ← b.children.mapM fun id => (f id).elim (.error id) .ok
  let scope ← b.scope.renumber f
  return { children, scope }

end Block

/-- A statement. Every number in it, those of its scope apart, is that of a statement it owns. -/
inductive Stmt where
  | block (body : Block)
  | pragma (text : Token)
  | prototype (sig : Signature)
  | function (sig : Signature) (body : Block)
  | access (level : Access)
  | expression (value : Expr)
  | declaration (vars : List VarDecl)
  | goto (target : Token)
  | label (name : Token)
  | namespaceBlock (name : Token) (body : Block)
  | conditional (condition : StmtId) (body : Block) (elifs : List StmtId)
      (otherwise : Option StmtId)
  | elif (condition : StmtId) (body : Block)
  | otherwise (body : Block)
  | forLoop (init test update : Option StmtId) (body : Block)
  /-- The body runs before the first test if `bodyFirst`. -/
  | whileLoop (condition : StmtId) (body : Block) (bodyFirst : Bool)
  | switch (condition : StmtId) (body : Block)
  | caseLabel (value : Expr)
  | defaultLabel
  | continueJump
  | breakJump
  | returnJump (value : Option Expr)

namespace Stmt

instance : Inhabited Stmt := ⟨.block .empty⟩

def kind : Stmt → StmtKind
  | block _ => .block
  | pragma _ => .pragma
  | prototype _ => .prototype
  | function .. => .function
  | access _ => .access
  | expression _ => .expression
  | declaration _ => .declaration
  | goto _ => .goto
  | label _ => .label
  | namespaceBlock .. => .namespaceBlock
  | conditional .. => .conditional
  | elif .. => .elif
  | otherwise _ => .otherwise
  | forLoop .. => .forLoop
  | whileLoop .. => .whileLoop
  | switch .. => .switch
  | caseLabel _ => .caseLabel
  | defaultLabel => .defaultLabel
  | continueJump => .continueJump
  | breakJump => .breakJump
  | returnJump _ => .returnJump

def body? : Stmt → Option Block
  | block body | otherwise body | function _ body | namespaceBlock _ body
  | conditional _ body _ _ | elif _ body | forLoop _ _ _ body | whileLoop _ body _
  | switch _ body => some body
  | _ => none

/-- Changes the block of a container; other statements stay as they are. -/
def mapBody (f : Block → Block) : Stmt → Stmt
  | block body => block (f body)
  | otherwise body => otherwise (f body)
  | function sig body => function sig (f body)
  | namespaceBlock name body => namespaceBlock name (f body)
  | conditional condition body elifs last => conditional condition (f body) elifs last
  | elif condition body => elif condition (f body)
  | forLoop init test update body => forLoop init test update (f body)
  | whileLoop condition body bodyFirst => whileLoop condition (f body) bodyFirst
  | switch condition body => switch condition (f body)
  | leaf => leaf

def addChild (id : StmtId) : Stmt → Stmt :=
  mapBody fun b => { b with children := b.children ++ [id] }

/-- Puts an entry behind the further conditions of a conditional. -/
def addElif (id : StmtId) : Stmt → Stmt
  | conditional condition body elifs last => conditional condition body (elifs ++ [id]) last
  | s => s

def setElse (id : StmtId) : Stmt → Stmt
  | conditional condition body elifs _ => conditional condition body elifs (some id)
  | s => s

/-- The children of a container, none for other statements. -/
def children (s : Stmt) : List StmtId :=
  (s.body?.map (·.children)).getD []

/-- The statements owned otherwise than as children: conditions, the parts of a `for` header, and
the entries of an if-chain. -/
def slots : Stmt → List StmtId
  | conditional condition _ elifs last => condition :: (elifs ++ last.toList)
  | elif condition _ | whileLoop condition _ _ | switch condition _ => [condition]
  | forLoop init test update _ => init.toList ++ test.toList ++ update.toList
  | _ => []

/-- All owned statements in source order: the parts of the header, the children, and behind them
the entries of an if-chain. -/
def owned : Stmt → List StmtId
  | conditional condition body elifs last =>
    condition :: (body.children ++ elifs ++ last.toList)
  | s => s.slots ++ s.children

/-- The statement with every number in it replaced, or a number for which there is no other. -/
def renumber (f : StmtId → Option StmtId) : Stmt → Except StmtId Stmt
  | block body => return block (← body.renumber f)
  | otherwise body => return otherwise (← body.renumber f)
  | function sig body => return function sig (← body.renumber f)
  | namespaceBlock name body => return namespaceBlock name (← body.renumber f)
  | conditional condition body elifs last => do
    let condition ← one condition
    let body ← body.renumber f
    let elifs ← elifs.mapM one
    return conditional condition body elifs (← last.mapM one)
  | elif condition body => do
    let condition ← one condition
    return elif condition (← body.renumber f)
  | forLoop init test update body => do
    let init ← init.mapM one
    let test ← test.mapM one
    let update ← update.mapM one
    return forLoop init test update (← body.renumber f)
  | whileLoop condition body bodyFirst => do
    let condition ← one condition
    return whileLoop condition (← body.renumber f) bodyFirst
  | switch condition body => do
    let condition ← one condition
    return switch condition (← body.renumber f)
  | leaf => return leaf
where
  /-- The new number of one statement. -/
  one (id : StmtId) : Except StmtId StmtId := (f id).elim (.error id) .ok

theorem isSome_body? (s : Stmt) : s.body?.isSome = s.kind.isContainer := by
  cases s <;> rfl

@[simp] theorem kind_mapBody (f : Block → Block) (s : Stmt) : (s.mapBody f).kind = s.kind := by
  cases s <;> rfl

@[simp] theorem body?_mapBody (f : Block → Block) (s : Stmt) :
    (s.mapBody f).body? = s.body?.map f := by
  cases s <;> rfl

@[simp] theorem slots_mapBody (f : Block → Block) (s : Stmt) : (s.mapBody f).slots = s.slots := by
  cases s <;> rfl

end Stmt
end KernelTree
