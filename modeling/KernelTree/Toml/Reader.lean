import KernelTree.Toml.Scalar
import KernelTree.Toml.Table
/-! Reading a document of TOML 1.1. Other than in TOML 1.0, an inline table may span lines and may
have a comma behind its last member, strings know the escapes `\e` and `\x` as well, and times may
leave out their seconds. -/
namespace KernelTree.Toml

def skipSpace (cs : List Char) : List Char := cs.dropWhile isSpace

/-- The text behind the comment at its front, if there is one. -/
def skipComment : List Char → Option (List Char)
  | '#' :: rest =>
    let after := rest.dropWhile isPlain
    match after with
    | [] => some []
    | after => if (lineEnd? after).isSome then some after else none
  | cs => some cs

/-- The text behind blanks, comments and line ends. Each step takes a character. -/
def skipLines : Nat → List Char → Option (List Char)
  | 0, cs => some cs
  | steps + 1, cs => do
    let after ← skipComment (skipSpace cs)
    match lineEnd? after with
    | some rest => skipLines steps rest
    | none => some after

/-- Blanks, comments and line ends, as they may stand inside brackets. -/
def skipGap (cs : List Char) : Option (List Char) := skipLines (cs.length + 1) cs

def simpleKey : Step String := fun cs =>
  let bare := cs.takeWhile isBareKey
  if bare.isEmpty then shortString cs else some (String.ofList bare, cs.drop bare.length)

/-- A key with its dots: the names on the way, and the last name. Each step takes a character. -/
def dottedKey : Nat → Step (List String × String)
  | 0, _ => none
  | steps + 1, cs => do
    let (name, cs) ← simpleKey cs
    match skipSpace cs with
    | '.' :: rest =>
      let ((path, last), rest) ← dottedKey steps (skipSpace rest)
      return ((name :: path, last), rest)
    | rest => return (([], name), rest)

def key : Step (List String × String) := fun cs => dottedKey (cs.length + 1) cs

mutual

/-- A value inside fewer than the given number of brackets. -/
def value : Nat → Step Datum
  | 0, _ => none
  | levels + 1, cs =>
    match cs with
    | '[' :: rest => (items levels (cs.length + 1) rest).map fun (ds, rest) => (.list ds, rest)
    | '\x7b' :: rest =>
      (members levels (cs.length + 1) {} rest).map fun (t, rest) => (t.toDatum, rest)
    | '"' :: _ | '\'' :: _ => (string cs).map fun (s, rest) => (.text s, rest)
    | cs => bareValue cs
termination_by levels => (levels, 0)

/-- The items of a list, behind its bracket or a comma. Each takes a character at least. -/
def items (levels : Nat) : Nat → Step (List Datum)
  | 0, _ => none
  | steps + 1, cs => do
    let cs ← skipGap cs
    if cs.head? = some ']' then return ([], cs.tail)
    let (d, cs) ← value levels cs
    match ← skipGap cs with
    | ',' :: rest =>
      let (ds, rest) ← items levels steps rest
      return (d :: ds, rest)
    | ']' :: rest => return ([d], rest)
    | _ => none
termination_by steps => (levels, steps + 1)

/-- The members of an inline table, behind its brace or a comma. -/
def members (levels : Nat) : Nat → Table → Step Table
  | 0, _, _ => none
  | steps + 1, t, cs => do
    let cs ← skipGap cs
    if cs.head? = some '\x7d' then return (t, cs.tail)
    let ((path, name), cs) ← key cs
    let ((), cs) ← mark '=' cs
    let (d, cs) ← value levels (skipSpace cs)
    let t ← t.define path name d
    match ← skipGap cs with
    | ',' :: rest => members levels steps t rest
    | '\x7d' :: rest => return (t, rest)
    | _ => none
termination_by steps => (levels, steps + 1)

end

/-- The tables defined so far, and the one that is being defined. -/
structure State where
  root : Table := {}
  /-- The header of the table at hand: whether it is one of a list, the way to it, and its name. -/
  header : Option (Bool × List String × String) := none
  current : Table := {}

namespace State

/-- The document with the table at hand in its place. -/
def close (s : State) : Option Table :=
  match s.header with
  | none => some s.current
  | some (isList, path, name) => s.root.insert path name isList s.current

/-- Goes on to the table of the next header. -/
def enter (s : State) (isList : Bool) (path : List String) (name : String) : Option State := do
  let root ← s.close
  let members ← if isList then some [] else root.open? path name
  return { root, header := some (isList, path, name), current := { members } }

end State

/-- The text behind the rest of a line that holds no more than a comment. -/
def endLine (cs : List Char) : Option (List Char) := do
  match ← skipComment (skipSpace cs) with
  | [] => some []
  | cs => lineEnd? cs

/-- How deep brackets may be nested. -/
def levelLimit : Nat := 80

def expression (s : State) : Step State
  | '[' :: '[' :: rest => do
    let ((path, name), rest) ← key (skipSpace rest)
    let ((), rest) ← mark ']' rest
    let ((), rest) ← mark ']' rest
    return (← s.enter true path name, ← endLine rest)
  | '[' :: rest => do
    let ((path, name), rest) ← key (skipSpace rest)
    let ((), rest) ← mark ']' rest
    return (← s.enter false path name, ← endLine rest)
  | cs => do
    let ((path, name), rest) ← key cs
    let ((), rest) ← mark '=' rest
    let (d, rest) ← value levelLimit (skipSpace rest)
    let current ← s.current.define path name d
    return ({ s with current }, ← endLine rest)

/-- Reads the lines of a document. Each step takes a character. -/
def lines : Nat → State → List Char → Option State
  | 0, s, _ => some s
  | steps + 1, s, cs => do
    match ← skipGap cs with
    | [] => return s
    | cs =>
      let (s, rest) ← expression s cs
      lines steps s rest

/-- The data of a document, with the members of its tables sorted; nothing if the text is not well
formed by TOML 1.1. -/
def parse? (source : String) : Option Datum := do
  let cs := source.toList
  let cs := if cs.head? = some '\ufeff' then cs.tail else cs
  let s ← lines (cs.length + 1) {} cs
  let root ← s.close
  return root.toDatum.sorted

end KernelTree.Toml
