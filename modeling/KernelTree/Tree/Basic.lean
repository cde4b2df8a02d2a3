import KernelTree.Tree.Error
/-! Statement trees. Statements live in numbered slots; a statement knows the numbers of those it
owns and, once it is attached, the number of its owner. Slots are filled in order and a slot that
has been emptied stays empty. -/
namespace KernelTree

structure Node where
  parent : Option StmtId := none
  span : Span := .none
  stmt : Stmt
deriving Inhabited

structure Tree where
  slots : Array (Option Node)
  /-- The number of statements that have not been destroyed. -/
  live : Nat

namespace Tree

/-- A tree that holds nothing but its root block. -/
def initial : Tree where
  slots := #[some { stmt := .block .empty }]
  live := 1

instance : Inhabited Tree := ⟨initial⟩

/-- The block around the whole program is the first statement of every tree. -/
def root : StmtId := ⟨0⟩

def nextId (t : Tree) : StmtId := ⟨t.slots.size⟩

/-- The live statement of that number. -/
def get? (t : Tree) (id : StmtId) : Option Node := t.slots[id.index]?.join

def contains (t : Tree) (id : StmtId) : Bool := (t.get? id).isSome

def kind? (t : Tree) (id : StmtId) : Option StmtKind := (t.get? id).map (·.stmt.kind)

def parent? (t : Tree) (id : StmtId) : Option StmtId := (t.get? id).bind (·.parent)

/-- The children of a container; none for other statements and unknown numbers. -/
def children (t : Tree) (id : StmtId) : List StmtId :=
  ((t.get? id).map (·.stmt.children)).getD []

/-- The names declared at the level of a container. -/
def scope? (t : Tree) (id : StmtId) : Option Scope :=
  (t.get? id).bind fun node => node.stmt.body?.map (·.scope)

/-- The statements owned by a statement; none for an unknown number. -/
def owned (t : Tree) (id : StmtId) : List StmtId :=
  ((t.get? id).map (·.stmt.owned)).getD []

def update (t : Tree) (id : StmtId) (f : Node → Node) : Tree :=
  { t with slots := t.slots.modify id.index (Option.map f) }

/-- Records a new owner. -/
def setParent (t : Tree) (id : StmtId) (owner : Option StmtId) : Tree :=
  t.update id fun node => { node with parent := owner }

/-- Changes what a statement says and owns. -/
def updateStmt (t : Tree) (id : StmtId) (f : Stmt → Stmt) : Tree :=
  t.update id fun node => { node with stmt := f node.stmt }

theorem get?_update (t : Tree) (id other : StmtId) (f : Node → Node) :
    (t.update id f).get? other = if id = other then (t.get? other).map f else t.get? other := by
  simp only [get?, update, Array.getElem?_modify, StmtId.ext_iff]
  split
  · cases t.slots[other.index]? <;> rfl
  · rfl

@[simp] theorem nextId_update (t : Tree) (id : StmtId) (f : Node → Node) :
    (t.update id f).nextId = t.nextId := by
  simp [nextId, update]

@[simp] theorem live_update (t : Tree) (id : StmtId) (f : Node → Node) :
    (t.update id f).live = t.live := rfl

def grow (t : Tree) (node : Node) : Tree :=
  { slots := t.slots.push (some node), live := t.live + 1 }

/-- The live statements with their numbers, by rising number. -/
def statements (t : Tree) : List (StmtId × Node) :=
  t.slots.toList.zipIdx.filterMap fun (slot, index) => slot.map ((⟨index⟩, ·))

/-- The live statement of that number, or the complaint that there is none. -/
def require (t : Tree) (id : StmtId) : Except TreeError Node :=
  match t.get? id with
  | some node => .ok node
  | none => .error (.unknownStatement id)

end Tree

/-- Operations that change a tree and may be refused. A refused operation leaves behind the tree
that it has reached. -/
abbrev TreeM := EStateM TreeError Tree

/-- Runs a check, which looks at the tree without changing it. -/
def TreeM.check (f : Tree → Except TreeError α) : TreeM α := fun t =>
  match f t with
  | .ok a => .ok a t
  | .error e => .error e t

/-- Makes a change to a live statement, or complains that there is none. -/
def TreeM.edit (id : StmtId) (change : Tree → Tree) : TreeM Unit := do
  TreeM.check fun t => discard (t.require id)
  modify change

def TreeM.setParent (id : StmtId) (owner : Option StmtId) : TreeM Unit :=
  edit id (·.setParent id owner)

def TreeM.updateStmt (id : StmtId) (f : Stmt → Stmt) : TreeM Unit :=
  edit id (·.updateStmt id f)

end KernelTree
