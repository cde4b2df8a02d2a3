import KernelTree.Json.Reader
/-! Schemas: how the values of a type are written as structured data. A schema reads a value off a
JSON text as it goes along, or off data that have been read already. The two ways meet the same
faults in different order and words, since a text is read from left to right and data are looked at
with the members of a table sorted. -/
namespace KernelTree

structure Schema (α : Type) where
  read : Json.Reading α
  convert : Datum → Except Mismatch α

namespace Schema

open Json Json.Reading

instance : Functor Schema where
  map f s := { read := f <$> s.read, convert := fun d => f <$> s.convert d }

/-- Reads the next token, of which there has to be one, and fails at the place reached if what it
opens is not in order. -/
def token (r : UInt8 → Reading α) : Reading α := do
  match ← peekToken with
  | none => failNext .unendedValue
  | some b => located (r b)

def text : Schema String where
  read := token fun b => do
    if b = quoteMark then
      skip
      string
    else failType "a string"
  convert
    | .text s => .ok s
    | d => .error (.wrongType d.found "a string")

def bool : Schema Bool where
  read := token fun b => do
    if b = 116 then
      skip
      word "rue"
      return true
    else if b = 102 then
      skip
      word "alse"
      return false
    else failType "a boolean"
  convert
    | .bool b => .ok b
    | d => .error (.wrongType d.found "a boolean")

/-- Takes a datum for a whole number from zero to `greatest`. -/
def toNat (greatest : Nat) (title : String) : Datum → Except Mismatch Nat
  | .integer n =>
    if 0 ≤ n ∧ n ≤ greatest then .ok n.toNat else .error (.wrongValue (.integer n) title)
  | d => .error (.wrongType d.found title)

def natural (greatest : Nat) (title : String) : Schema Nat where
  read := token fun b => do
    if b = 45 ∨ (digit? b).isSome then
      if b = 45 then skip
      match toNat greatest title (← number (b = 45)) with
      | .ok n => return n
      | .error e => failMismatch e
    else failType title
  convert := toNat greatest title

/-- Nothing at all, where an alternative has no data. -/
def unit : Schema Unit where
  read := token fun b => do
    if b = 110 then
      skip
      word "ull"
    else failType "unit"
  convert
    | .null => .ok ()
    | d => .error (.wrongType d.found "unit")

def optional (s : Schema α) : Schema (Option α) where
  read := do
    if (← peekToken) = some 110 then
      skip
      word "ull"
      return none
    else return some (← s.read)
  convert
    | .null => .ok none
    | d => some <$> s.convert d

def list (s : Schema α) : Schema (List α) where
  read := token fun b => do
    if b = openList then
      closing (nested do items s.read (← stepBound) true) endList
    else failType "a sequence"
  convert
    | .list ds => ds.mapM s.convert
    | d => .error (.wrongType d.found "a sequence")

/-- A table whose members all have values of one type. -/
def table (s : Schema α) : Schema (List (String × α)) where
  read := token fun b => do
    if b = openObject then
      closing (nested do members s.read (← stepBound) true) endObject
    else failType "a map"
  convert
    | .table ms => ms.mapM fun (name, d) => (name, ·) <$> s.convert d
    | d => .error (.wrongType d.found "a map")

/-- A value made of a datum as a whole. What is wrong with it has no place of its own. -/
def whole (convert : Datum → Except Mismatch α) : Schema α where
  read := do
    match convert (← datum) with
    | .ok a => return a
    | .error e => failMismatch e
  convert

/-- A value made of a datum as a whole, with the members of its tables sorted. -/
def wholeSorted (convert : Datum → Except Mismatch α) : Schema α where
  read := (whole (convert ·.sorted)).read
  convert

/-! ### Records -/

/-- A named part of a record, put into the draft of the record when it is met. -/
structure Member (σ : Type) where
  name : String
  /-- Whether the draft has this part. -/
  given : σ → Bool
  /-- A record written as a list has to reach as far as this part. -/
  needed : Bool
  put : Schema (σ → σ)

/-- The parts of a record: drafts of type `σ` become values of type `α`. -/
structure Fields (σ α : Type) where
  draft : σ
  members : List (Member σ)
  finish : σ → Except Mismatch α

/-- A part that has to be there. -/
def required (name : String) (s : Schema α) : Fields (Option α) α where
  draft := none
  members := [{ name, given := Option.isSome, needed := true, put := (fun a _ => some a) <$> s }]
  finish
    | some a => .ok a
    | none => .error (.missingField name)

/-- A part that has a value even if it is left out. -/
def defaulted (name : String) (value : α) (s : Schema α) : Fields (Option α) α where
  draft := none
  members := [{ name, given := Option.isSome, needed := false, put := (fun a _ => some a) <$> s }]
  finish d := .ok (d.getD value)

/-- A part that a table may leave out and a list may not. -/
def tableOptional (name : String) (s : Schema α) : Fields (Option α) (Option α) where
  draft := none
  members := [{ name, given := Option.isSome, needed := true, put := (fun a _ => some a) <$> s }]
  finish := .ok

/-- A part of a pair of drafts. -/
def Member.inPair (m : Member σ) (part : ρ → σ) (set : (σ → σ) → ρ → ρ) : Member ρ where
  name := m.name
  given r := m.given (part r)
  needed := m.needed
  put := set <$> m.put

def Fields.and (f : Fields σ α) (g : Fields τ β) : Fields (σ × τ) (α × β) where
  draft := (f.draft, g.draft)
  members :=
    f.members.map (·.inPair Prod.fst fun h r => (h r.1, r.2)) ++
      g.members.map (·.inPair Prod.snd fun h r => (r.1, h r.2))
  finish r := do
    let a ← f.finish r.1
    let b ← g.finish r.2
    return (a, b)

/-- How strictly records are read. -/
structure Strictness where
  /-- A member that is not a part of the record is a fault. -/
  refuseUnknown : Bool
  /-- A list longer than the record is a fault. -/
  refuseLonger : Bool

namespace Fields

variable {σ α : Type}

def titleWithSize (f : Fields σ α) (title : String) : String :=
  let n := f.members.length
  s!"{title} with {n} element" ++ if n = 1 then "" else "s"

def readMembers (f : Fields σ α) (strict : Strictness) : Nat → Bool → σ → Reading σ
  | 0, _, draft => return draft
  | steps + 1, first, draft => do
    if ← moreMembers first then
      let name ← memberName
      match f.members.find? (·.name == name) with
      | some m =>
        if m.given draft then failMismatch (.duplicateField name)
        memberColon
        let put ← m.put.read
        f.readMembers strict steps false (put draft)
      | none =>
        if strict.refuseUnknown then
          failMismatch (.unknownField name (f.members.map (·.name)))
        memberColon
        skipValue
        f.readMembers strict steps false draft
    else return draft

/-- Reads the items of a list into a draft, part by part; `place` counts those read. -/
def readItems (title : String) : List (Member σ) → Nat → Bool → σ → Reading σ
  | [], _, _, draft => return draft
  | m :: rest, place, first, draft => do
    if ← moreItems first then
      let put ← m.put.read
      readItems title rest (place + 1) false (put draft)
    else if m.needed then failMismatch (.wrongLength place title)
    else readItems title rest (place + 1) first draft

def complete (f : Fields σ α) (draft : σ) : Reading α := do
  match f.finish draft with
  | .ok a => return a
  | .error e => failMismatch e

def convertMembers (f : Fields σ α) (strict : Strictness) :
    List (String × Datum) → σ → Except Mismatch σ
  | [], draft => .ok draft
  | (name, d) :: rest, draft =>
    match f.members.find? (·.name == name) with
    | some m => do
      if m.given draft then throw (.duplicateField name)
      let put ← m.put.convert d
      f.convertMembers strict rest (put draft)
    | none =>
      if strict.refuseUnknown then .error (.unknownField name (f.members.map (·.name)))
      else f.convertMembers strict rest draft

/-- Puts the items of a list into a draft; also the items left over. -/
def convertItems (title : String) :
    List (Member σ) → Nat → List Datum → σ → Except Mismatch (σ × List Datum)
  | [], _, left, draft => .ok (draft, left)
  | m :: rest, place, d :: left, draft => do
    let put ← m.put.convert d
    convertItems title rest (place + 1) left (put draft)
  | m :: rest, place, [], draft =>
    if m.needed then .error (.wrongLength place title)
    else convertItems title rest (place + 1) [] draft

end Fields

/-- A record, written as a table of its parts or as a list of them in order. -/
def record (strict : Strictness) (title : String) (f : Fields σ α) : Schema α where
  read := token fun b => do
    if b = openList then
      closing
        (nested do
          f.complete (← Fields.readItems (f.titleWithSize title) f.members 0 true f.draft))
        endList
    else if b = openObject then
      closing
        (nested do f.complete (← f.readMembers strict (← stepBound) true f.draft))
        endObject
    else failType title
  convert
    | .table ms => do f.finish (← f.convertMembers strict ms f.draft)
    | .list ds => do
      let (draft, left) ← Fields.convertItems (f.titleWithSize title) f.members 0 ds f.draft
      let a ← f.finish draft
      if strict.refuseLonger ∧ left ≠ [] then
        throw (.wrongLength ds.length "fewer elements in array")
      return a
    | d => .error (.wrongType d.found title)

/-! ### Alternatives -/

/-- One of several forms of a value, told apart by name. -/
inductive Alternative (α : Type) where
  /-- Nothing but its name. -/
  | bare (name : String) (value : α)
  /-- One value under its name. -/
  | holding (name : String) (schema : Schema α)
  /-- The parts of a record under its name. -/
  | parts (name : String) (schema : Schema α)

namespace Alternative

def name : Alternative α → String
  | bare name _ | holding name _ | parts name _ => name

def ofName : Alternative α → Except Mismatch α
  | bare _ value => .ok value
  | holding .. => .error (.wrongType .bareName "newtype variant")
  | parts .. => .error (.wrongType .bareName "struct variant")

def readData : Alternative α → Reading α
  | bare _ value => do
    unit.read
    return value
  | holding _ schema | parts _ schema => schema.read

def convertData : Alternative α → Datum → Except Mismatch α
  | bare _ value, d => do
    unit.convert d
    return value
  | holding _ schema, d => schema.convert d
  | parts _ schema, .table ms => schema.convert (.table ms)
  | parts .., d => .error (.wrongType d.found "struct variant")

def find (known : List (Alternative α)) (name : String) : Except Mismatch (Alternative α) :=
  match known.find? (·.name == name) with
  | some a => .ok a
  | none => .error (.unknownAlternative name (known.map Alternative.name))

def readName (known : List (Alternative α)) : Reading (Alternative α) :=
  token fun b => do
    if b = quoteMark then
      skip
      match find known (← string) with
      | .ok a => return a
      | .error e => failMismatch e
    else failType "variant identifier"

end Alternative

/-- One of several alternatives: a name alone, or a table whose one member has that name. -/
def choice (known : List (Alternative α)) : Schema α where
  read := do
    match ← peekToken with
    | none => failNext .unendedValue
    | some b =>
      if b = openObject then
        let value ← nested do
          if (← peekToken).any (· ≠ quoteMark) then failNext .nameExpected
          let a ← Alternative.readName known
          memberColon
          a.readData
        match ← peekToken with
        | none => fail .unendedObject
        | some b =>
          if b ≠ closeObject then fail .valueExpected
          skip
          return value
      else if b = quoteMark then
        match (← Alternative.readName known).ofName with
        | .ok value => return value
        | .error e => failMismatch e
      else failNext .valueExpected
  convert
    | .table [(name, d)] => do (← Alternative.find known name).convertData d
    | .table _ => .error (.wrongValue .table "map with a single key")
    | .text name => do (← Alternative.find known name).ofName
    | d => .error (.wrongType d.found "string or map")

/-- The names alone, each for one value. -/
def names (values : List α) (name : α → String) : Schema α :=
  choice (values.map fun value => .bare (name value) value)

def parse (s : Schema α) (source : String) : Except Json.Error α :=
  match (do let a ← s.read; ending; return a : Reading α) (.ofString source) with
  | .ok a _ => .ok a
  | .error e _ => .error e
where
  /-- The end of the text. -/
  ending : Reading Unit := do
    if (← peekToken).isSome then failNext .trailingText

end Schema
end KernelTree
