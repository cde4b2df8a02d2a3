import KernelTree.Tree.Removal
/-! Copies of subtrees. The statements of the copy get consecutive numbers in preorder, and every
number inside them is replaced accordingly. The destination is touched only when the whole copy has
been worked out. -/
namespace KernelTree.Tree

/-- The preorder of pending statements, behind those in `seen` (latest first), with a check that
each is live, is met once and names its owner. Every step meets a new live statement or ends the
walk, so one step more than there are slots is enough. -/
def gather (t : Tree) (root : StmtId) :
    Nat → List StmtId → List StmtId → Except TreeError (List StmtId)
  | 0, _, seen => .ok seen.reverse
  | _, [], seen => .ok seen.reverse
  | steps + 1, id :: pending, seen => do
    let some node := t.get? id | throw (.unsupportedClone root id .dangling)
    if id ∈ seen then throw (.unsupportedClone root id .ownedTwice)
    let owned := node.stmt.owned
    if let some stray := owned.reverse.find? (t.parent? · ≠ some id) then
      throw (.unsupportedClone root stray .strayParent)
    t.gather root steps (owned ++ pending) (id :: seen)

/-- The number in the copy of the statement at each place of `order`; copies count from `base`. -/
def newNumber (order : List StmtId) (base : Nat) (id : StmtId) : Option StmtId :=
  (order.idxOf? id).map fun place => ⟨base + place⟩

/-- One statement of the copy. The copy of `root` has no owner. -/
def copyNode (t : Tree) (root : StmtId) (order : List StmtId) (base : Nat) (id : StmtId) :
    Except TreeError Node := do
  let some node := t.get? id | throw (.unsupportedClone root id .dangling)
  let number := newNumber order base
  match node.stmt.renumber number with
  | .error place => throw (.unsupportedClone root place .scopeOutside)
  | .ok stmt =>
    let parent := if id = root then none else node.parent.bind number
    return { parent, span := node.span, stmt }

/-- The copy of a subtree, numbered from `base`, its own root first and unattached. -/
def planCopy (t : Tree) (root : StmtId) (base : Nat) : Except TreeError (List Node) := do
  let order ← t.gather root (t.slots.size + 1) [root] []
  order.mapM (t.copyNode root order base)

/-- Fills the next slots; the number of the first. -/
def install (planned : List Node) : TreeM StmtId :=
  modifyGet fun t =>
    (t.nextId,
      { slots := t.slots ++ (planned.map some).toArray, live := t.live + planned.length })

/-- Checks that the copy of a statement of that kind can be given to `owner`. -/
def checkCopyOwner (kind : StmtKind) (owner : StmtId) (t : Tree) : Except TreeError Unit := do
  let ownerKind := (← t.require owner).stmt.kind
  if kind.isChainEntry then
    if ownerKind ≠ .conditional then throw (.malformedChain owner .notAConditional)
    if t.hasElse owner then throw (.malformedChain owner .elsePresent)
  else unless ownerKind.isContainer do throw (.notAContainer owner ownerKind)

/-- Gives a copy to its owner: as a child, or as an entry of an if-chain. -/
def attachCopy (kind : StmtKind) (owner copy : StmtId) : TreeM Unit :=
  match kind with
  | .elif => addElif owner copy
  | .otherwise => setElse owner copy
  | _ => append owner copy

/-- Copies a subtree of `source` into this tree and gives the copy to `owner`, if there is one. -/
def copyFrom (source : Tree) (root : StmtId) (owner : Option StmtId) : TreeM StmtId := do
  let kind := (← TreeM.check fun _ => source.require root).stmt.kind
  if let some owner := owner then TreeM.check (checkCopyOwner kind owner)
  let planned ← TreeM.check fun t => source.planCopy root t.nextId.index
  let copy ← install planned
  if let some owner := owner then attachCopy kind owner copy
  return copy

def clone (root : StmtId) (owner : Option StmtId) : TreeM StmtId := do
  copyFrom (← get) root owner

/-- A tree of its own that holds what is reachable from the root, without gaps. -/
def fork (t : Tree) : Except TreeError Tree := do
  let planned ← t.planCopy root 0
  return { slots := (planned.map some).toArray, live := planned.length }

end KernelTree.Tree
