import KernelTree.Tree.Error
/-! Reports for the user. -/
namespace KernelTree

inductive Severity where
  | warning
  | error
deriving DecidableEq, Repr, Inhabited

def Severity.name : Severity → String
  | .warning => "warning"
  | .error => "error"

/-- A message about a place of the source, with remarks and advice. -/
structure Diagnostic where
  severity : Severity := .error
  message : String
  span : Span := .none
  notes : List String := []
  help : Option String := none
deriving DecidableEq, Repr, Inhabited

namespace Diagnostic

def isError (d : Diagnostic) : Bool := d.severity == .error

def ofTreeError (e : TreeError) (span : Span := .none) : Diagnostic :=
  { message := e.message, span, help := e.help? }

end Diagnostic
end KernelTree
