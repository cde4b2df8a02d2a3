import KernelTree.Description.Build
import KernelTree.Description.Leaves
import KernelTree.Diagnostic.Basic
/-! The written form of descriptions. A statement is an object whose one member names its kind; a
member `span` beside it gives its place. -/
namespace KernelTree

namespace Schema

def guarded (title : String) (sub : Schema Item) : Schema (Item × List Item) :=
  record lenient title ((required "condition" sub).and (defaulted "body" [] (list sub)))

/-- A part of a `for` header, which may be left out or be `null`. -/
def headerPart (name : String) (sub : Schema Item) : Fields (Option (Option Item)) (Option Item) :=
  defaulted name none (optional sub)

/-- The kinds of statement with what they hold, at a place known beforehand. -/
def node (span : Span) (sub : Schema Item) : Schema Item :=
  choice [
    .holding "block" (.block span <$> list sub),
    .holding "pragma" ((.leaf span <| .pragma ·) <$> text),
    .holding "function" ((.leaf span <| .prototype ·) <$> signature),
    .parts "function_decl" <| (fun (sig, body) => .function span sig body) <$>
      record lenient "struct variant Node::FunctionDecl"
        ((required "sig" signature).and (defaulted "body" [] (list sub))),
    .holding "class_access" ((.leaf span <| .access ·) <$> access),
    .holding "expression" ((.leaf span <| .expression ·) <$> expr),
    .holding "declaration" ((.leaf span <| .declaration ·) <$> list varDecl),
    .holding "goto" ((.leaf span <| .goto ·) <$> lexeme),
    .holding "label" ((.leaf span <| .label ·) <$> lexeme),
    .parts "namespace" <| (fun (name, body) => .namespaceBlock span name body) <$>
      record lenient "struct variant Node::Namespace"
        ((required "name" lexeme).and (defaulted "body" [] (list sub))),
    .parts "if" <| (fun (condition, body, arms, otherwise) =>
        .conditional span condition body arms otherwise) <$>
      record lenient "struct variant Node::If"
        ((required "condition" sub).and ((defaulted "body" [] (list sub)).and
          ((defaulted "elifs" [] (list ((fun (test, body) => .elif test body) <$>
              guarded "struct ElifDesc" sub))).and
            (defaulted "else" none (optional (list sub)))))),
    .parts "for" <| (fun (init, test, update, body) => .forLoop span init test update body) <$>
      record lenient "struct variant Node::For"
        ((headerPart "init" sub).and ((headerPart "test" sub).and
          ((headerPart "update" sub).and (defaulted "body" [] (list sub))))),
    .parts "while" <| (fun (test, body) => .whileLoop span test body false) <$>
      guarded "struct variant Node::While" sub,
    .parts "do_while" <| (fun (test, body) => .whileLoop span test body true) <$>
      guarded "struct variant Node::DoWhile" sub,
    .parts "switch" <| (fun (test, body) => .switch span test body) <$>
      guarded "struct variant Node::Switch" sub,
    .holding "case" ((.leaf span <| .caseLabel ·) <$> expr),
    .bare "default" (.leaf span .defaultLabel),
    .bare "continue" (.leaf span .continueJump),
    .bare "break" (.leaf span .breakJump),
    .holding "return" ((.leaf span <| .returnJump ·) <$> optional expr)]

/-- Takes a datum for a statement: first its place, then the rest. -/
def toItem (sub : Schema Item) : Datum → Except Mismatch Item
  | .table ms => do
    let place ← match ms.lookup "span" with
      | some d => span.convert d
      | none => .ok .none
    (node place sub).convert (.table (ms.filter (·.1 ≠ "span")))
  | d => (node .none sub).convert d

def itemUpTo : Nat → Schema Item
  | 0 => whole fun d => .error (.wrongType d.found "enum Node")
  | n + 1 =>
    let sub := itemUpTo n
    wholeSorted (toItem sub)

def item : Schema Item := itemUpTo levels

def description : Schema Description :=
  (fun (name, statements) => { name, statements }) <$>
    record lenient "struct KernelDescription"
      ((defaulted "name" none (optional text)).and (required "statements" (list item)))

end Schema

inductive DescribeError where
  | malformed (cause : Json.Error)
  | refused (cause : BuildError)

namespace DescribeError

def message : DescribeError → String
  | malformed cause => s!"invalid kernel description: {cause.message}"
  | refused cause => cause.cause.message

def toDiagnostic : DescribeError → Diagnostic
  | malformed cause =>
    let (line, column) := cause.lineColumn
    { message := cause.message, notes := [s!"at line {line}, column {column}"] }
  | refused cause => .ofTreeError cause.cause cause.span

end DescribeError

def Description.parse (source : String) : Except DescribeError Description :=
  (Schema.description.parse source).mapError .malformed

/-- Reads a description off a text and makes its tree; the name of the kernel and the tree. -/
def Description.load (source : String) : Except DescribeError (Option String × Tree) := do
  let d ← Description.parse source
  let t ← d.toTree.mapError .refused
  return (d.name, t)

end KernelTree
