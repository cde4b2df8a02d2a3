import KernelTree.Statement.Basic
/-! Why a tree refuses an operation. -/
namespace KernelTree

/-- What is wrong with the place of an `elif` or `else` entry. -/
inductive ChainFault where
  | elifExpectedInList
  | elseExpectedInSlot
  | entryOutsideChain
  | elifExpected
  | elseExpected
  | elifOwned
  | elseOwned
  | elifAfterElse
  | elseAfterElse
  | notAConditional
  | elsePresent
deriving DecidableEq, Repr

def ChainFault.message : ChainFault → String
  | .elifExpectedInList => "elif list holds a non-elif statement"
  | .elseExpectedInSlot => "else slot holds a non-else statement"
  | .entryOutsideChain => "elif/else entries attach only to an if"
  | .elifExpected => "expected an elif statement"
  | .elseExpected => "expected an else statement"
  | .elifOwned => "elif already belongs to an if"
  | .elseOwned => "else already belongs to an if"
  | .elifAfterElse => "elif cannot follow the else"
  | .elseAfterElse => "else cannot follow another else"
  | .notAConditional => "elif/else attached to a non-if statement"
  | .elsePresent => "if already has an else"

/-- Why a subtree cannot be copied. -/
inductive CopyFault where
  | dangling
  | ownedTwice
  | strayParent
  | scopeOutside
deriving DecidableEq, Repr

def CopyFault.message : CopyFault → String
  | .dangling => "dangling sub-statement"
  | .ownedTwice => "statement is owned twice"
  | .strayParent => "back-reference does not match owner"
  | .scopeOutside => "scope entry points outside the subtree"

inductive TreeError where
  | ownership (child owner : StmtId)
  | cycle (child owner : StmtId)
  | root (id : StmtId)
  | duplicateDeclaration (name : String) (scope existing : StmtId)
  | foreignDeclaration (name : String) (scope decl : StmtId)
  | malformedChain (place : StmtId) (fault : ChainFault)
  | unsupportedClone (source place : StmtId) (fault : CopyFault)
  | notAContainer (id : StmtId) (kind : StmtKind)
  | requiredSlot (id owner : StmtId)
  | unknownStatement (id : StmtId)
deriving DecidableEq, Repr

namespace TreeError

def message : TreeError → String
  | ownership child owner => s!"statement {child} is already owned by {owner}"
  | cycle child owner => s!"attaching {child} under {owner} would make it its own ancestor"
  | root id => s!"the tree root {id} cannot be attached, detached or destroyed"
  | duplicateDeclaration name scope existing =>
    s!"'{name}' is already declared in {scope} by {existing}"
  | foreignDeclaration name scope decl =>
    s!"'{name}' cannot be declared in {scope}: {decl} lies outside it"
  | malformedChain place fault => s!"malformed if-chain at {place}: {fault.message}"
  | unsupportedClone source place fault => s!"cannot clone {source}: {fault.message} ({place})"
  | notAContainer id kind => s!"{id} is a {kind.name} statement, which has no child block"
  | requiredSlot id owner => s!"{id} fills a required slot of {owner} and cannot be detached"
  | unknownStatement id => s!"no live statement {id}"

/-- What the user can do about it. -/
def help? : TreeError → Option String
  | ownership .. => some "detach the statement first, or clone it"
  | duplicateDeclaration .. => some "declare the name in a nested block to shadow it"
  | foreignDeclaration .. => some "declare the name in a container that encloses its declaration"
  | unsupportedClone .. => some "clone the enclosing statement instead"
  | _ => none

end TreeError
end KernelTree
