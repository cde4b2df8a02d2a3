import KernelTree.Tree.Walk
/-! Making statements and giving them to their owners. A new statement adopts those that it
mentions and is itself unattached until it is given to a container or to an if-chain. -/
namespace KernelTree.Tree

/-- Checks that the listed statements are live, unattached and distinct, and that the root is not
among them. `new` is the statement that is about to own them. -/
def checkFree (t : Tree) (new : StmtId) : List StmtId → List StmtId → Except TreeError Unit
  | _, [] => return ()
  | seen, id :: rest => do
    let node ← t.require id
    if id = root then throw (.root id)
    if let some owner := node.parent then throw (.ownership id owner)
    if id ∈ seen then throw (.ownership id new)
    t.checkFree new (id :: seen) rest

def isChainEntry (t : Tree) (id : StmtId) : Bool :=
  (t.kind? id).any (·.isChainEntry)

/-- Checks that a statement holds entries of an if-chain at most in the places for them, and
nothing else there. -/
def checkChain (t : Tree) (id : StmtId) (stmt : Stmt) : Except TreeError Unit :=
  match stmt with
  | .conditional condition body elifs last => do
    if elifs.any fun e => t.kind? e ≠ some .elif then
      throw (.malformedChain id .elifExpectedInList)
    if last.any fun e => t.kind? e ≠ some .otherwise then
      throw (.malformedChain id .elseExpectedInSlot)
    if (condition :: body.children).any t.isChainEntry then
      throw (.malformedChain id .entryOutsideChain)
  | stmt => do
    if (stmt.slots ++ stmt.children).any t.isChainEntry then
      throw (.malformedChain id .entryOutsideChain)

/-- Checks that a statement can be made: all that it mentions is free and in a fitting place. -/
def checkAdd (stmt : Stmt) (t : Tree) : Except TreeError Unit := do
  t.checkFree t.nextId [] stmt.owned
  t.checkChain t.nextId stmt

def adopt (owner : StmtId) (ids : List StmtId) : TreeM Unit :=
  ids.forM fun id => TreeM.setParent id (some owner)

/-- Makes an unattached statement, which adopts all statements that it mentions. -/
def add (stmt : Stmt) (span : Span := .none) : TreeM StmtId := do
  TreeM.check (checkAdd stmt)
  let id := (← get).nextId
  adopt id stmt.owned
  modify (·.grow { span, stmt })
  return id

/-- Makes an unattached expression statement, the usual condition. -/
def addExpr (value : Expr) : TreeM StmtId := add (.expression value)

/-- Checks that a statement is live, free, not the root and does not contain its future owner. -/
def checkAttach (owner child : StmtId) (t : Tree) : Except TreeError Unit := do
  discard (t.require owner)
  let node ← t.require child
  if child = root then throw (.root child)
  if let some current := node.parent then throw (.ownership child current)
  if t.isWithin owner child then throw (.cycle child owner)

def checkContainer (owner : StmtId) (t : Tree) : Except TreeError Unit := do
  let kind := (← t.require owner).stmt.kind
  unless kind.isContainer do throw (.notAContainer owner kind)

def checkAppend (owner child : StmtId) (t : Tree) : Except TreeError Unit := do
  t.checkContainer owner
  if t.isChainEntry child then throw (.malformedChain child .entryOutsideChain)
  t.checkAttach owner child

/-- Puts a statement behind the children of a container. -/
def append (owner child : StmtId) : TreeM Unit := do
  TreeM.check (checkAppend owner child)
  TreeM.updateStmt owner (·.addChild child)
  TreeM.setParent child (some owner)

/-- Makes a statement and appends it. If only the appending is refused, the new statement stays
behind unattached. -/
def push (owner : StmtId) (stmt : Stmt) : TreeM StmtId := do
  TreeM.check (checkContainer owner)
  if stmt.kind.isChainEntry then throw (.malformedChain owner .entryOutsideChain)
  let id ← add stmt
  append owner id
  return id

def checkConditional (id : StmtId) (t : Tree) : Except TreeError Unit := do
  if (← t.require id).stmt.kind ≠ .conditional then
    throw (.malformedChain id .notAConditional)

def hasElse (t : Tree) (id : StmtId) : Bool :=
  match t.get? id with
  | some { stmt := .conditional _ _ _ last, .. } => last.isSome
  | _ => false

def checkAddElif (owner entry : StmtId) (t : Tree) : Except TreeError Unit := do
  t.checkConditional owner
  let node ← t.require entry
  if node.stmt.kind ≠ .elif then throw (.malformedChain entry .elifExpected)
  if node.parent.isSome then throw (.malformedChain entry .elifOwned)
  if t.hasElse owner then throw (.malformedChain owner .elifAfterElse)
  t.checkAttach owner entry

/-- Puts an `elif` entry at the end of the list of a conditional that has no `else` yet. -/
def addElif (owner entry : StmtId) : TreeM Unit := do
  TreeM.check (checkAddElif owner entry)
  TreeM.updateStmt owner (·.addElif entry)
  TreeM.setParent entry (some owner)

def checkSetElse (owner entry : StmtId) (t : Tree) : Except TreeError Unit := do
  t.checkConditional owner
  let node ← t.require entry
  if node.stmt.kind ≠ .otherwise then throw (.malformedChain entry .elseExpected)
  if node.parent.isSome then throw (.malformedChain entry .elseOwned)
  if t.hasElse owner then throw (.malformedChain owner .elseAfterElse)
  t.checkAttach owner entry

/-- Gives a conditional its `else` entry. -/
def setElse (owner entry : StmtId) : TreeM Unit := do
  TreeM.check (checkSetElse owner entry)
  TreeM.updateStmt owner (·.setElse entry)
  TreeM.setParent entry (some owner)

end KernelTree.Tree
