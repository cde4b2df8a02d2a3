import KernelTree.Decimal.Shortest
import KernelTree.Text.Quoted
/-! Self-describing data, as texts in several notations denote it. -/
namespace KernelTree

inductive Datum where
  | null
  | bool (value : Bool)
  | integer (value : Int)
  | float (value : Float)
  | text (value : String)
  | list (items : List Datum)
  | table (members : List (String × Datum))
deriving Inhabited

namespace Datum

/-- Puts a member in its place by rising name; an earlier member of that name gives way. -/
def putMember (name : String) (value : Datum) : List (String × Datum) → List (String × Datum)
  | [] => [(name, value)]
  | (other, held) :: rest =>
    if name < other then (name, value) :: (other, held) :: rest
    else if name = other then (name, value) :: rest
    else (other, held) :: putMember name value rest

/-- Members by rising name, of which the last of each name counts. -/
def sortMembers (members : List (String × Datum)) : List (String × Datum) :=
  members.foldl (fun sorted (name, value) => putMember name value sorted) []

mutual

def sorted : Datum → Datum
  | .list items => .list (sortedItems items)
  | .table members => .table (sortMembers (sortedMembers members))
  | d => d

def sortedItems : List Datum → List Datum
  | [] => []
  | d :: rest => sorted d :: sortedItems rest

def sortedMembers : List (String × Datum) → List (String × Datum)
  | [] => []
  | (name, d) :: rest => (name, sorted d) :: sortedMembers rest

end

end Datum

inductive Found where
  | null
  | bool (value : Bool)
  | integer (value : Int)
  | float (value : Float)
  | text (value : String)
  | list
  | table
  /-- The bare name of an alternative. -/
  | bareName

/-- What a datum is, without what it holds. -/
def Datum.found : Datum → Found
  | .null => .null
  | .bool b => .bool b
  | .integer n => .integer n
  | .float x => .float x
  | .text s => .text s
  | .list _ => .list
  | .table _ => .table

def Found.describe (numbers : Decimal.Layout) : Found → String
  | .null => "null"
  | .bool b => s!"boolean `{b}`"
  | .integer n => s!"integer `{n}`"
  | .float x => s!"floating point `{Decimal.render numbers x}`"
  | .text s => "string " ++ Text.quote s
  | .list => "sequence"
  | .table => "map"
  | .bareName => "unit variant"

/-- Why data do not have the form that is asked for. -/
inductive Mismatch where
  | wrongType (found : Found) (expected : String)
  | wrongValue (found : Found) (expected : String)
  | wrongLength (length : Nat) (expected : String)
  | unknownAlternative (name : String) (known : List String)
  | unknownField (name : String) (known : List String)
  | missingField (name : String)
  | duplicateField (name : String)
  /-- None of the forms that are tried in turn fits. -/
  | noForm (title : String)

namespace Mismatch

/-- Names in a row, as a message lists what would have been right. -/
def listNames : List String → String
  | [] => "there are no variants"
  | [a] => s!"expected `{a}`"
  | [a, b] => s!"expected `{a}` or `{b}`"
  | names => "expected one of " ++ ", ".intercalate (names.map fun name => s!"`{name}`")

def message (numbers : Decimal.Layout) : Mismatch → String
  | wrongType found expected =>
    s!"invalid type: {found.describe numbers}, expected {expected}"
  | wrongValue found expected =>
    s!"invalid value: {found.describe numbers}, expected {expected}"
  | wrongLength length expected => s!"invalid length {length}, expected {expected}"
  | unknownAlternative name known => s!"unknown variant `{name}`, {listNames known}"
  | unknownField name known => s!"unknown field `{name}`, {listNames known}"
  | missingField name => s!"missing field `{name}`"
  | duplicateField name => s!"duplicate field `{name}`"
  | noForm title => s!"data did not match any variant of untagged enum {title}"

end Mismatch
end KernelTree
