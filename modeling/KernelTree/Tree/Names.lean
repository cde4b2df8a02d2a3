import KernelTree.Tree.Attach
/-! Declared names. A name is declared at the level of a container and is visible from everything
inside it, unless a container nearer by declares it too. -/
namespace KernelTree.Tree

def checkDeclare (container : StmtId) (name : String) (decl : StmtId) (t : Tree) :
    Except TreeError Unit := do
  discard (t.require decl)
  t.checkContainer container
  unless t.isWithin decl container do throw (.foreignDeclaration name container decl)
  if let some existing := (t.scope? container).bind (·.get? name) then
    throw (.duplicateDeclaration name container existing)

/-- Declares a name at the level of a container. The declaring statement is the container or lies
inside it, so that no name outlives its declaration. -/
def declare (container : StmtId) (name : String) (decl : StmtId) : TreeM Unit := do
  TreeM.check (checkDeclare container name decl)
  TreeM.updateStmt container <|
    Stmt.mapBody fun b => { b with scope := b.scope.insertIfNew name decl }

/-- The declaration of a name that is nearest to a statement, outward through its owners. -/
def resolve (t : Tree) (start : StmtId) (name : String) : Option StmtId :=
  (t.ancestors start).findSome? fun id => (t.scope? id).bind (·.get? name)

end KernelTree.Tree
