import KernelTree.Declaration
/-! Dialects: the surface rules of the target languages. -/
namespace KernelTree

/-- What one level of indentation is made of, and where braces stand: an opening one may be on a
line of its own, and `else` may follow a closing one on its line. -/
structure Style where
  indent : String
  braceOnNewLine : Bool := false
  cuddleElse : Bool := true
deriving DecidableEq, Repr, Inhabited

namespace Style

/-- Indentation by blanks, with opening braces at the ends of lines. -/
def spaces (width : Nat) : Style := { indent := "".pushn ' ' width }

def allman (s : Style) : Style := { s with braceOnNewLine := true, cuddleElse := false }

def uncuddled (s : Style) : Style := { s with cuddleElse := false }

end Style

/-- The words of a target language, its layout, and what it leaves out. It may drop pragmas, and
where it has no namespaces their bodies are written in their place. The prelude stands once before a
whole program. -/
structure Dialect extends Spelling where
  name : String
  extension : String
  style : Style
  functionPrefix : FunctionKind → Option String
  pragma : String → Option String := some
  namespaces : Bool := true
  prelude : Option String := none

end KernelTree
