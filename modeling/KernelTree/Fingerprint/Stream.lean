import KernelTree.Tree.Walk
/-! The bytes that stand for a subtree. Statements follow in preorder, each as its kind and its
data. Numbers of statements do not enter: a name of a scope is bound to a place in the preorder, so
a copy has the bytes of what it copies. -/
namespace KernelTree.Fingerprint

/-- The low bytes of a number, least significant first. -/
def littleEndian : Nat → Nat → List UInt8
  | 0, _ => []
  | count + 1, value => value.toUInt8 :: littleEndian count (value / 256)

def count (n : Nat) : List UInt8 := littleEndian 4 n

/-- A text behind the number of its bytes. -/
def text (s : String) : List UInt8 :=
  let bytes := s.toUTF8.data.toList
  count bytes.length ++ bytes

def flag (b : Bool) : UInt8 := if b then 1 else 0

/-- Stands for a statement outside the subtree. -/
def outside : Nat := 0xFFFFFFFF

def position (order : List StmtId) (id : StmtId) : List UInt8 :=
  count ((order.idxOf? id).getD outside)

/-- The number of children, and the scope with its names in order. -/
def block (order : List StmtId) (body : Block) : List UInt8 :=
  count body.children.length ++ count body.scope.size ++
    body.scope.entries.flatMap fun (name, decl) => text name ++ position order decl

def expr (e : Expr) : List UInt8 := text (e.render .plain)

def signature (sig : Signature) : List UInt8 := sig.kind.code :: text (sig.render .plain)

/-- The data of one statement. What it owns follows by itself in the preorder; here stands how
much of it there is, and in which places. -/
def payload (order : List StmtId) : Stmt → List UInt8
  | .block body | .otherwise body => block order body
  | .pragma token | .goto token | .label token => text token.text
  | .prototype sig => signature sig
  | .function sig body => signature sig ++ block order body
  | .access level => text level.word
  | .expression value | .caseLabel value => expr value
  | .declaration vars =>
    count vars.length ++ vars.flatMap fun d => text (d.render .plain)
  | .namespaceBlock name body => text name.text ++ block order body
  | .conditional _ body elifs last =>
    block order body ++ count elifs.length ++ [flag last.isSome]
  | .elif _ body | .switch _ body => block order body
  | .forLoop init test update body =>
    (flag init.isSome + 2 * flag test.isSome + 4 * flag update.isSome) :: block order body
  | .whileLoop _ body bodyFirst => flag bodyFirst :: block order body
  | .returnJump none => [0]
  | .returnJump (some value) => 1 :: expr value
  | .defaultLabel | .continueJump | .breakJump => []

/-- One statement: its kind and its data. -/
def statement (order : List StmtId) (s : Stmt) : List UInt8 :=
  s.kind.code.toUInt8 :: payload order s

/-- The bytes of a subtree: the number of its statements, then the statements. -/
def stream (t : Tree) (root : StmtId) : List UInt8 :=
  let order := t.preorder root
  count order.length ++
    order.flatMap fun id => ((t.get? id).map fun node => statement order node.stmt).getD []

end KernelTree.Fingerprint
