import KernelTree.Description.Item
import KernelTree.Tree.Names
/-! Building the tree of a description. A statement's own inside is built before it is given to its
container; then the names that it declares are bound there. -/
namespace KernelTree

/-- A refused operation and the place of the statement for which it was tried. -/
structure BuildError where
  cause : TreeError
  span : Span
deriving DecidableEq, Repr

abbrev BuildM := EStateM BuildError Tree

namespace Build

def onBehalf (span : Span) (op : TreeM α) : BuildM α := fun t =>
  match op t with
  | .ok a t => .ok a t
  | .error cause t => .error { cause, span } t

def add (stmt : Stmt) (span : Span) : BuildM StmtId := onBehalf span (Tree.add stmt span)

/-- Binds the names of a declaration at the level of a container. -/
def declareNames (container id : StmtId) (span : Span) : BuildM Unit := do
  if let some { stmt := .declaration vars, .. } := (← get).get? id then
    vars.forM fun d => onBehalf span (Tree.declare container d.name.text id)

mutual

def item : Item → BuildM StmtId
  | .leaf span leaf => add (leaf.toStmt span) span
  | .block span body => do
    let id ← add (.block .empty) span
    children id body
    return id
  | .function span sig body => do
    let id ← add (.function sig .empty) span
    children id body
    return id
  | .namespaceBlock span name body => do
    let id ← add (.namespaceBlock name .empty) span
    children id body
    return id
  | .conditional span condition body arms otherwise => do
    let test ← item condition
    let id ← add (.conditional test .empty [] none) span
    children id body
    entries id arms
    final id span otherwise
    return id
  | .forLoop span init test update body => do
    let first ← part init
    let test ← part test
    let update ← part update
    let id ← add (.forLoop first test update .empty) span
    if let some first := first then declareNames id first span
    children id body
    return id
  | .whileLoop span condition body bodyFirst => do
    let test ← item condition
    let id ← add (.whileLoop test .empty bodyFirst) span
    children id body
    return id
  | .switch span condition body => do
    let test ← item condition
    let id ← add (.switch test .empty) span
    children id body
    return id

def part : Option Item → BuildM (Option StmtId)
  | none => return none
  | some i => return some (← item i)

def children (owner : StmtId) : List Item → BuildM Unit
  | [] => return ()
  | i :: rest => do
    let id ← item i
    onBehalf i.span (Tree.append owner id)
    declareNames owner id i.span
    children owner rest

/-- Builds the further conditions of a conditional. Each takes the place of its test. -/
def entries (owner : StmtId) : List Arm → BuildM Unit
  | [] => return ()
  | .elif condition body :: rest => do
    let test ← item condition
    let id ← add (.elif test .empty) condition.span
    onBehalf condition.span (Tree.addElif owner id)
    children id body
    entries owner rest

/-- Builds the last entry of a conditional, at the place of the conditional. -/
def final (owner : StmtId) (span : Span) : Option (List Item) → BuildM Unit
  | none => return ()
  | some body => do
    let id ← add (.otherwise .empty) span
    onBehalf span (Tree.setElse owner id)
    children id body

end

end Build

/-- The tree of a description, with its statements under the root. -/
def Description.toTree (d : Description) : Except BuildError Tree :=
  match Build.children Tree.root d.statements Tree.initial with
  | .ok () t => .ok t
  | .error e _ => .error e

end KernelTree
