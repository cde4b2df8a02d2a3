/-! How leaf names are written for one target language. -/
namespace KernelTree

/-- Storage and address-space words of a declared type. -/
inductive Qualifier where
  | const
  | volatile
  /-- The pointer is the only way to what it points at. -/
  | restrict
  /-- Memory of the whole device. -/
  | global
  /-- Memory of one work group. -/
  | shared
  /-- Read-only memory. -/
  | constant
deriving DecidableEq, Repr, Inhabited

namespace Qualifier

def all : List Qualifier := [const, volatile, restrict, global, shared, constant]

def name : Qualifier → String
  | const => "const"
  | volatile => "volatile"
  | restrict => "restrict"
  | global => "global"
  | shared => "shared"
  | constant => "constant"

def ofName? (name : String) : Option Qualifier :=
  all.find? (·.name == name)

/-- Whether the qualifier is written behind the stars of a pointer. -/
def bindsPointer (q : Qualifier) : Bool := q == restrict

end Qualifier

/-- The words of a target language for identifiers, type names and qualifiers. A qualifier
without a word is left out. -/
structure Spelling where
  identifier : String → String := id
  typeName : String → String := id
  qualifier : Qualifier → Option String

namespace Spelling

/-- The words of C: names stand for themselves and there are no address spaces. -/
def plain : Spelling where
  qualifier
    | .const => some "const"
    | .volatile => some "volatile"
    | .restrict => some "restrict"
    | .global | .shared | .constant => none

/-- The word for a qualifier, if there is one and it is not empty. -/
def word? (sp : Spelling) (q : Qualifier) : Option String :=
  (sp.qualifier q).filter (· ≠ "")

end Spelling
end KernelTree
