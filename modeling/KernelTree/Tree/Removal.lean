import KernelTree.Tree.Names
/-! Taking statements away from their owners and out of the tree. -/
namespace KernelTree

/-- Takes an owned statement out of its place, and says whether there was one to take it from. The
condition of a statement cannot be taken, and then nothing changes. -/
def Stmt.unlink (id : StmtId) : Stmt → Stmt × Bool
  | .conditional condition body elifs last =>
    if id ∈ elifs then (.conditional condition body (elifs.erase id) last, true)
    else if last = some id then (.conditional condition body elifs none, true)
    else fromBody (.conditional condition body elifs last)
  | .forLoop init test update body =>
    let left : Stmt :=
      .forLoop (init.filter (· ≠ id)) (test.filter (· ≠ id)) (update.filter (· ≠ id)) body
    if init = some id ∨ test = some id ∨ update = some id then (left, true) else fromBody left
  | stmt => fromBody stmt
where
  /-- Takes a child out of the block of a statement. -/
  fromBody (stmt : Stmt) : Stmt × Bool :=
    if id ∈ stmt.children then
      (stmt.mapBody fun b => { b with children := b.children.erase id }, true)
    else (stmt, false)

namespace Tree

/-- Drops from the scopes of the listed containers every name declared by one of `gone`. -/
def purge (gone : List StmtId) (containers : List StmtId) : TreeM Unit :=
  containers.forM fun id => TreeM.updateStmt id <|
    Stmt.mapBody fun b => { b with scope := b.scope.filter (!gone.contains ·) }

/-- Takes a statement away from its owner. The names that its subtree declared in the containers
around it go with it. An unattached statement stays as it is. -/
def detach (id : StmtId) : TreeM Unit := do
  if id = root then throw (.root id)
  let node ← TreeM.check (·.require id)
  if let some owner := node.parent then
    let ownerNode ← TreeM.check (·.require owner)
    let (left, found) := ownerNode.stmt.unlink id
    TreeM.updateStmt owner fun _ => left
    unless found do throw (.requiredSlot id owner)
    let t ← get
    purge (t.preorder id) (t.ancestors owner)
    TreeM.setParent id none

/-- Empties the slots of pending statements and of all that they own, cut off after the given
number of steps. The first component counts the emptied slots. -/
def destroy : Nat → List StmtId → Tree → Nat × Tree
  | 0, _, t => (0, t)
  | _, [], t => (0, t)
  | steps + 1, id :: pending, t =>
    match t.get? id with
    | none => destroy steps pending t
    | some node =>
      let (count, t) :=
        destroy steps (node.stmt.owned ++ pending)
          { t with slots := t.slots.setIfInBounds id.index none }
      (count + 1, t)

/-- Detaches a statement and destroys it with all that it owns; the number of statements
destroyed. -/
def remove (id : StmtId) : TreeM Nat := do
  detach id
  modifyGet fun t =>
    let (count, t) := destroy t.slots.size [id] t
    (count, { t with live := t.live - count })

end Tree
end KernelTree
