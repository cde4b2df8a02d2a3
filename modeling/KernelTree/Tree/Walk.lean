import KernelTree.Tree.Basic
/-! Walks through a tree: up along owners and down along owned statements. In a tree where every
statement is owned at most once and none is its own ancestor, a walk passes each statement at most
once, so the number of slots bounds its length. -/
namespace KernelTree.Tree

/-- The chain of owners from a statement on, cut off after the given number of steps. -/
def climb (t : Tree) : Nat → Option StmtId → List StmtId
  | 0, _ => []
  | _, none => []
  | steps + 1, some id => id :: climb t steps (t.parent? id)

/-- A live statement and its owners from the nearest to the outermost. -/
def ancestors (t : Tree) (id : StmtId) : List StmtId :=
  climb t t.slots.size (if t.contains id then some id else none)

/-- Whether a statement is the other one or lies beneath it. -/
def isWithin (t : Tree) (id ancestor : StmtId) : Bool :=
  (t.ancestors id).contains ancestor

/-- The live statements met from a list of pending ones, each before those it owns, cut off after
the given number of steps. -/
def descend (t : Tree) : Nat → List StmtId → List StmtId
  | 0, _ => []
  | _, [] => []
  | steps + 1, id :: pending =>
    match t.get? id with
    | none => descend t steps pending
    | some node => id :: descend t steps (node.stmt.owned ++ pending)

/-- The statements of a subtree in source order, each before those it owns. -/
def preorder (t : Tree) (id : StmtId) : List StmtId :=
  descend t t.slots.size [id]

/-- The kinds met in a subtree, in source order. -/
def kinds (t : Tree) (id : StmtId) : List StmtKind :=
  (t.preorder id).filterMap t.kind?

/-- Checks that what each statement of a subtree owns is live and names it as its owner. -/
def verifyLinks (t : Tree) (id : StmtId) : Except TreeError Unit :=
  (t.preorder id).forM fun owner => do
    let node ← t.require owner
    node.stmt.owned.forM fun child => do
      let sub ← t.require child
      if sub.parent ≠ some owner then
        throw (.ownership child (sub.parent.getD owner))

end KernelTree.Tree
