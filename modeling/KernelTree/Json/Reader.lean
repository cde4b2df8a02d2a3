import KernelTree.Json.Scalar
/-! Lists, objects and whole values of JSON. -/
namespace KernelTree.Json.Reading

/-- The bytes that open and close brackets, separate what is inside, and open a string. -/
def openList : UInt8 := 91
def closeList : UInt8 := 93
def openObject : UInt8 := 123
def closeObject : UInt8 := 125
def comma : UInt8 := 44
def colon : UInt8 := 58
def quoteMark : UInt8 := 34

/-- Reads up to the next item of a list: whether there is one. -/
def moreItems (first : Bool) : Reading Bool := do
  match ← peekToken with
  | none => failNext .unendedList
  | some b =>
    if b = closeList then return false
    if first then return true
    if b ≠ comma then failNext .listCommaExpected
    skip
    match ← peekToken with
    | none => failNext .unendedValue
    | some b =>
      if b = closeList then failNext .trailingComma
      return true

/-- Reads up to the next name of an object: whether there is one. -/
def moreMembers (first : Bool) : Reading Bool := do
  match ← peekToken with
  | none => failNext .unendedObject
  | some b =>
    if b = closeObject then return false
    if first then
      if b ≠ quoteMark then failNext .nameExpected
      return true
    if b ≠ comma then failNext .objectCommaExpected
    skip
    match ← peekToken with
    | none => failNext .unendedValue
    | some b =>
      if b = closeObject then failNext .trailingComma
      if b ≠ quoteMark then failNext .nameExpected
      return true

def memberName : Reading String := do
  skip
  string

def memberColon : Reading Unit := do
  match ← peekToken with
  | none => failNext .unendedObject
  | some b =>
    if b ≠ colon then failNext .colonExpected
    skip

def endList : Reading Unit := do
  match ← peekToken with
  | none => failNext .unendedList
  | some b =>
    if b = closeList then skip
    else if b = comma then
      skip
      if (← peekToken) = some closeList then failNext .trailingComma
      failNext .trailingText
    else failNext .trailingText

def endObject : Reading Unit := do
  match ← peekToken with
  | none => failNext .unendedObject
  | some b =>
    if b = closeObject then skip
    else if b = comma then failNext .trailingComma
    else failNext .trailingText

/-- The items of a list. Every item takes a byte at least, so the length of the text bounds the
steps. -/
def items (item : Reading α) : Nat → Bool → Reading (List α)
  | 0, _ => return []
  | steps + 1, first => do
    if ← moreItems first then
      let a ← item
      return a :: (← items item steps false)
    else return []

/-- The members of an object. Every member takes a byte at least. -/
def members (value : Reading α) : Nat → Bool → Reading (List (String × α))
  | 0, _ => return []
  | steps + 1, first => do
    if ← moreMembers first then
      let name ← memberName
      memberColon
      let a ← value
      return (name, a) :: (← members value steps false)
    else return []

/-- One step more than there are bytes left, so that what takes a byte at every step gets to the
end of the text and finds it there. -/
def stepBound : Reading Nat := do
  return (← get).rest.length + 1

/-- A value that is neither a list nor an object, or the complaint that none begins here. -/
def scalar (b : UInt8) : Reading Datum := do
  if b = 110 then
    skip
    word "ull"
    return .null
  else if b = 116 then
    skip
    word "rue"
    return .bool true
  else if b = 102 then
    skip
    word "alse"
    return .bool false
  else if b = 45 then
    skip
    number true
  else if (digit? b).isSome then number false
  else if b = quoteMark then
    skip
    return .text (← string)
  else failNext .valueExpected

/-- A whole value, with the members of its objects as they stand in the text. Each level of
brackets takes one of the levels given. -/
def value : Nat → Reading Datum
  | 0 => failNext .tooDeep
  | levels + 1 => do
    match ← peekToken with
    | none => failNext .unendedValue
    | some b =>
      if b = openList then
        closing (nested do return .list (← items (value levels) (← stepBound) true)) endList
      else if b = openObject then
        closing (nested do return .table (← members (value levels) (← stepBound) true)) endObject
      else scalar b

def datum : Reading Datum := do
  value (← get).depth

/-- Fails because what begins here is not what is expected. A scalar is read to be reported; of
brackets only the first is looked at. -/
def failType (expected : String) : Reading α := located do
  match ← peek with
  | some b =>
    if b = openList then failMismatch (.wrongType .list expected)
    else if b = openObject then failMismatch (.wrongType .table expected)
    else failMismatch (.wrongType (← scalar b).found expected)
  | none => failNext .valueExpected

inductive Bracket where
  | list
  | object
deriving DecidableEq, Repr

/-- What comes next when a value is passed over. -/
inductive Pending where
  | value
  /-- Inside the innermost bracket, behind a value if `afterValue`. -/
  | inside (afterValue : Bool)

/-- Passes over a value inside the given brackets, innermost first, without a limit to their depth
and without a look at what strings and numbers stand for. Two steps take a byte at least. -/
def pass : Nat → List Bracket → Pending → Reading Unit
  | 0, _, _ => return ()
  | steps + 1, brackets, .value => do
    match ← peekToken with
    | none => failNext .unendedValue
    | some b =>
      if b = openList then
        skip
        pass steps (.list :: brackets) (.inside false)
      else if b = openObject then
        skip
        pass steps (.object :: brackets) (.inside false)
      else
        if b = quoteMark then
          skip
          skipString
        else if b = 45 then
          skip
          skipNumber
        else if (digit? b).isSome then skipNumber
        else discard (scalar b)
        pass steps brackets (.inside true)
  | _, [], .inside _ => return ()
  | steps + 1, bracket :: outer, .inside afterValue => do
    match ← peekToken with
    | none => failNext (if bracket = .list then .unendedList else .unendedObject)
    | some b =>
      if b = (if bracket = .list then closeList else closeObject) then
        skip
        pass steps outer (.inside true)
      else
        if afterValue then
          if b ≠ comma then
            failNext (if bracket = .list then .listCommaExpected else .objectCommaExpected)
          skip
        if bracket = .object then
          match ← peekToken with
          | none => failNext .unendedObject
          | some b =>
            if b ≠ quoteMark then failNext .nameExpected
            skip
            skipString
            memberColon
        pass steps (bracket :: outer) .value

def skipValue : Reading Unit := do
  pass (2 * (← stepBound)) [] .value

end KernelTree.Json.Reading
