import KernelTree.Data.Datum
/-! Reading a JSON text byte by byte. The place reached is known by line and column, counted in
bytes, and stays known when reading fails: what encloses a fault may read on to the end of its
brackets before it says where it stands. -/
namespace KernelTree.Json

structure Cursor where
  rest : List UInt8
  line : Nat := 1
  column : Nat := 0
  /-- How many brackets deeper the text may still go, plus one. -/
  depth : Nat := 128

namespace Cursor

def ofString (s : String) : Cursor := { rest := s.toUTF8.data.toList }

def after (c : Cursor) (b : UInt8) (rest : List UInt8) : Cursor :=
  if b = 10 then { c with rest, line := c.line + 1, column := 0 }
  else { c with rest, column := c.column + 1 }

end Cursor

inductive Fault where
  | mismatch (cause : Mismatch)
  | unendedList
  | unendedObject
  | unendedString
  | unendedValue
  | colonExpected
  | listCommaExpected
  | objectCommaExpected
  | wordExpected
  | valueExpected
  | badEscape
  | badNumber
  | numberTooLarge
  | controlCharacter
  | nameExpected
  | loneSurrogate
  | unendedSurrogate
  | trailingComma
  | trailingText
  | tooDeep

def Fault.message : Fault → String
  | mismatch cause => cause.message .bounded
  | unendedList => "EOF while parsing a list"
  | unendedObject => "EOF while parsing an object"
  | unendedString => "EOF while parsing a string"
  | unendedValue => "EOF while parsing a value"
  | colonExpected => "expected `:`"
  | listCommaExpected => "expected `,` or `]`"
  | objectCommaExpected => "expected `,` or `\x7d`"
  | wordExpected => "expected ident"
  | valueExpected => "expected value"
  | badEscape => "invalid escape"
  | badNumber => "invalid number"
  | numberTooLarge => "number out of range"
  | controlCharacter => "control character (\\u0000-\\u001F) found while parsing a string"
  | nameExpected => "key must be a string"
  | loneSurrogate => "lone leading surrogate in hex escape"
  | unendedSurrogate => "unexpected end of hex escape"
  | trailingComma => "trailing comma"
  | trailingText => "trailing characters"
  | tooDeep => "recursion limit exceeded"

/-- A fault, with its line and column if they are known. -/
structure Error where
  fault : Fault
  place : Option (Nat × Nat) := none

namespace Error

def message (e : Error) : String :=
  match e.place with
  | none => e.fault.message
  | some (line, column) => s!"{e.fault.message} at line {line} column {column}"

/-- Line and column; zero where they are not known. -/
def lineColumn (e : Error) : Nat × Nat := e.place.getD (0, 0)

end Error

/-- Reads something off the front of a text. A failure keeps the place reached. -/
abbrev Reading := EStateM Error Cursor

namespace Reading

def peek : Reading (Option UInt8) := do
  return (← get).rest.head?

def next : Reading (Option UInt8) := fun c =>
  match c.rest with
  | [] => .ok none c
  | b :: rest => .ok (some b) (c.after b rest)

def skip : Reading Unit := discard next

def fail (fault : Fault) : Reading α := fun c =>
  .error { fault, place := some (c.line, c.column) } c

/-- Fails at the byte in front, which counts as reached. -/
def failNext (fault : Fault) : Reading α := fun c =>
  let reached := match c.rest with
    | [] => c
    | b :: rest => c.after b rest
  .error { fault, place := some (reached.line, reached.column) } c

/-- Fails without a place; what encloses the failure will supply one. -/
def failMismatch (cause : Mismatch) : Reading α := throw { fault := .mismatch cause }

/-- Gives a failure without a place the place reached. -/
def located (r : Reading α) : Reading α := fun c =>
  match r c with
  | .error { fault, place := none } c =>
    .error { fault, place := some (c.line, c.column) } c
  | result => result

/-- Reads the end of brackets after their contents, and even after a failure inside, which then
prevails. -/
def closing (contents : Reading α) (close : Reading Unit) : Reading α := fun c =>
  match contents c with
  | .ok a c =>
    match close c with
    | .ok () c => .ok a c
    | .error e c => .error e c
  | .error e c =>
    match close c with
    | .ok () c => .error e c
    | .error _ c => .error e c

/-- Enters a bracket, which is the next byte, and leaves it after the contents. -/
def nested (contents : Reading α) : Reading α := fun c =>
  if c.depth ≤ 1 then failNext .tooDeep c
  else
    match (do skip; contents) { c with depth := c.depth - 1 } with
    | .ok a inner => .ok a { inner with depth := c.depth }
    | .error e inner => .error e { inner with depth := c.depth }

def isSpace (b : UInt8) : Bool := b = 32 || b = 9 || b = 10 || b = 13

def skipSpace : Reading Unit := fun c => .ok () (drop c c.rest)
where
  /-- The cursor with the white space at the front of `rest` dropped. -/
  drop (c : Cursor) : List UInt8 → Cursor
    | [] => { c with rest := [] }
    | b :: rest => if isSpace b then drop (c.after b rest) rest else { c with rest := b :: rest }

def peekToken : Reading (Option UInt8) := do
  skipSpace
  peek

def word (letters : String) : Reading Unit :=
  letters.toUTF8.data.toList.forM fun letter => do
    match ← next with
    | none => fail .unendedValue
    | some b => if b ≠ letter then fail .wordExpected

end Reading
end KernelTree.Json
