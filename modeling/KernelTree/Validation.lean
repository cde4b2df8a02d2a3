import KernelTree.Diagnostic.Basic
import KernelTree.Tree.Walk
/-! Checks of a finished tree. A switch has one `default` at most, a label is defined once within
its region, and a `goto` names a label of its own region. The region of a statement is the nearest
function around it inside the tree under examination, or else that whole tree. -/
namespace KernelTree

/-- The labels defined so far, by region and name, latest first. -/
structure LabelTable where
  entries : List ((StmtId × String) × StmtId) := []

namespace LabelTable

/-- The statement that defines a label in a region. -/
def find? (table : LabelTable) (region : StmtId) (name : String) : Option StmtId :=
  table.entries.lookup (region, name)

/-- Records a label, unless the region has it already: then the earlier statement is the answer. -/
def define (table : LabelTable) (region : StmtId) (name : String) (label : StmtId) :
    Except StmtId LabelTable :=
  match table.find? region name with
  | some first => .error first
  | none => .ok { entries := ((region, name), label) :: table.entries }

def size (table : LabelTable) (region : StmtId) : Nat :=
  (table.entries.filter fun e => e.1.1 = region).length

end LabelTable

inductive Finding where
  /-- A `default` behind the first one of the same switch. -/
  | extraDefault (first extra : StmtId) (span : Span)
  | duplicateLabel (name : String) (first label : StmtId) (span : Span)
  | undefinedTarget (name : String) (jump : StmtId) (span : Span)
deriving DecidableEq, Repr

namespace Finding

def place : Finding → StmtId
  | extraDefault _ extra _ => extra
  | duplicateLabel _ _ label _ => label
  | undefinedTarget _ jump _ => jump

/-- A jump to nowhere is a warning; the other faults are errors. -/
def isError : Finding → Bool
  | extraDefault .. | duplicateLabel .. => true
  | undefinedTarget .. => false

def toDiagnostic : Finding → Diagnostic
  | extraDefault first _ span =>
    { message := "multiple 'default' labels in one switch", span,
      notes := [s!"first 'default' is statement {first}"] }
  | duplicateLabel name first _ span =>
    { message := s!"duplicate label '{name}'", span,
      notes := [s!"first defined by statement {first}"],
      help := some "labels must be unique within a function" }
  | undefinedTarget name _ span =>
    { severity := .warning,
      message := s!"goto target '{name}' is not defined in this function", span }

end Finding

namespace Tree

/-- The region of a statement in the subtree of `root`. -/
def labelRegion (t : Tree) (root id : StmtId) : StmtId :=
  let around := ((t.ancestors id).drop 1).takeWhile (· ≠ root)
  (around.find? fun a => (t.kind? a).any (·.isLabelRegion)).getD root

/-- The place of a statement in the source; no place for an unknown number. -/
def spanOf (t : Tree) (id : StmtId) : Span := ((t.get? id).map (·.span)).getD .none

/-- The `default` children of a switch behind the first. -/
def extraDefaults (t : Tree) (children : List StmtId) : List Finding :=
  match children.filter fun c => t.kind? c = some .defaultLabel with
  | [] => []
  | first :: rest => rest.map fun extra => .extraDefault first extra (t.spanOf extra)

/-- The errors at the listed statements in order, and the labels defined there, given those
defined before. -/
def examine (t : Tree) (root : StmtId) : LabelTable → List StmtId → List Finding × LabelTable
  | table, [] => ([], table)
  | table, id :: rest =>
    match t.get? id with
    | some { stmt := .switch _ body, .. } =>
      let (found, table) := t.examine root table rest
      (t.extraDefaults body.children ++ found, table)
    | some { stmt := .label name, span, .. } =>
      match table.define (t.labelRegion root id) name.text id with
      | .ok table => t.examine root table rest
      | .error first =>
        let (found, table) := t.examine root table rest
        (.duplicateLabel name.text first id span :: found, table)
    | _ => t.examine root table rest

/-- The warning about a `goto` whose label is not in the table. -/
def undefinedTarget? (t : Tree) (root : StmtId) (table : LabelTable) (id : StmtId) :
    Option Finding :=
  match t.get? id with
  | some { stmt := .goto target, span, .. } =>
    if (table.find? (t.labelRegion root id) target.text).isNone then
      some (.undefinedTarget target.text id span)
    else none
  | _ => none

/-- All faults in the subtree of `root`: the errors in source order, then the warnings. -/
def validate (t : Tree) (root : StmtId) : List Finding :=
  let order := t.preorder root
  let (errors, table) := t.examine root {} order
  errors ++ order.filterMap (t.undefinedTarget? root table)

end Tree
end KernelTree
