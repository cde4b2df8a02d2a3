import KernelTree.Data.Datum
/-! The tables of a TOML document while they are being defined. A table is defined once: by its
header, or by the dotted keys that run through it, or by the headers of tables inside it until its
own header comes. -/
namespace KernelTree.Toml

inductive Entry where
  /-- A value, to which nothing can be added. -/
  | value (d : Datum)
  /-- A table: whether it has no header of its own so far, and whether dotted keys made it. -/
  | table (implicit dotted : Bool) (members : List (String × Entry))
  /-- A list of tables with headers, latest first. -/
  | tables (latest : List (String × Entry)) (earlier : List (List (String × Entry)))
deriving Inhabited

structure Table where
  implicit : Bool := false
  dotted : Bool := false
  members : List (String × Entry) := []

namespace Table

def put (t : Table) (name : String) (entry : Entry) : Table :=
  if t.members.any (·.1 == name) then
    { t with members := t.members.map fun m => if m.1 == name then (name, entry) else m }
  else { t with members := t.members ++ [(name, entry)] }

def find? (t : Table) (name : String) : Option Entry := t.members.lookup name

def toEntry (t : Table) : Entry := .table t.implicit t.dotted t.members

/-- Changes the table at the end of a path, and makes the tables on the way that are missing. A path
of dotted keys may not run through a table that has a header. -/
def alter (byDots : Bool) (f : Table → Option Table) : List String → Table → Option Table
  | [], t => f t
  | name :: path, t =>
    match t.find? name with
    | none => do
      let sub ← alter byDots f path { implicit := true, dotted := byDots }
      return t.put name sub.toEntry
    | some (.value _) => none
    | some (.table implicit dotted members) => do
      if byDots ∧ !implicit then none
      let sub ← alter byDots f path { implicit, dotted, members }
      return t.put name sub.toEntry
    | some (.tables latest earlier) => do
      let sub ← alter byDots f path { members := latest }
      return t.put name (.tables sub.members earlier)

/-- Gives a value to a key, which may be dotted. -/
def define (path : List String) (name : String) (d : Datum) (t : Table) : Option Table :=
  t |> alter true (fun sub =>
    -- a dotted key ends in a table made by dotted keys, any other in the table at hand
    if sub.dotted = path.isEmpty ∨ (sub.find? name).isSome then none
    else some (sub.put name (.value d))) path

/-- Puts a finished table under its header. -/
def insert (path : List String) (name : String) (isList : Bool) (root finished : Table) :
    Option Table :=
  root |> alter false (fun sub =>
    if isList then
      match sub.find? name with
      | none => some (sub.put name (.tables finished.members []))
      | some (.tables latest earlier) =>
        some (sub.put name (.tables finished.members (latest :: earlier)))
      | some _ => none
    else some (sub.put name finished.toEntry)) path

/-- What a header may add to: the members of a table that has been named only on the way to others,
or nothing. -/
def open? (path : List String) (name : String) (root : Table) : Option (List (String × Entry)) :=
  go path root
where
  /-- Follows the path. -/
  go : List String → Table → Option (List (String × Entry))
    | [], t =>
      match t.find? name with
      | none => some []
      | some (.table true false members) => some members
      | some _ => none
    | step :: path, t =>
      match t.find? step with
      | none => some []
      | some (.value _) => none
      | some (.table implicit dotted members) => go path { implicit, dotted, members }
      | some (.tables latest _) => go path { members := latest }

end Table

mutual

def Entry.toDatum : Entry → Datum
  | .value d => d
  | .table _ _ members => .table (toMembers members)
  | .tables latest earlier => .list (toTables earlier ++ [.table (toMembers latest)])

def Entry.toMembers : List (String × Entry) → List (String × Datum)
  | [] => []
  | (name, entry) :: rest => (name, entry.toDatum) :: toMembers rest

/-- Tables from the earliest on; they are listed latest first. -/
def Entry.toTables : List (List (String × Entry)) → List Datum
  | [] => []
  | members :: rest => toTables rest ++ [.table (toMembers members)]

end

def Table.toDatum (t : Table) : Datum := .table (Entry.toMembers t.members)

end KernelTree.Toml
