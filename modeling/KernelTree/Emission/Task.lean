import KernelTree.Dialect.Basic
import KernelTree.Tree.Basic
/-! What a statement asks the printer to do: lines at the current depth, changes of depth, and
other statements to print. -/
namespace KernelTree.Emission

inductive Task where
  /-- Prints a statement. -/
  | visit (id : StmtId)
  /-- Prints a line at the current depth. -/
  | line (text : String)
  /-- Prints a line one level further out than the current depth. -/
  | outdented (text : String)
  /-- Prints a header that may stand on the line of the closing brace before it. -/
  | continuation (header : String)
  | indent
  | dedent
deriving DecidableEq, Repr

def openBrace (style : Style) (header : String) : List Task :=
  if style.braceOnNewLine then [.line header, .line "\x7b"] else [.line (header ++ " \x7b")]

/-- Children one level deeper, and the closing brace with what follows on its line. -/
def enclosed (children : List StmtId) (suffix : String := "") : List Task :=
  .indent :: (children.map .visit ++ [.dedent, .line ("\x7d" ++ suffix)])

/-- A statement inside a header, without its semicolon. Only expressions and declarations can
stand there. -/
def inlineText (t : Tree) (d : Dialect) (id : StmtId) : String :=
  match t.get? id with
  | some { stmt := .expression value, .. } => value.render d.toSpelling
  | some { stmt := .declaration vars, .. } => VarDecl.renderGroup d.toSpelling vars
  | _ => ""

/-- The header of a `for` loop. Each part that prints as something has a blank before it, and the
parenthesis takes the place of the last semicolon. -/
def forHeader (init test update : String) : String :=
  let part (text : String) := if text = "" then "" else " " ++ text
  "for (" ++ init ++ ";" ++ part test ++ ";" ++ part update ++ ")"

def signatureText (d : Dialect) (sig : Signature) : String :=
  match d.functionPrefix sig.kind with
  | some word => if word = "" then sig.render d.toSpelling
    else word ++ " " ++ sig.render d.toSpelling
  | none => sig.render d.toSpelling

/-- What one statement asks for, in the order of the printed text. The root has no braces. -/
def tasks (t : Tree) (d : Dialect) (id : StmtId) : Stmt → List Task
  | .block body =>
    if id = Tree.root then body.children.map .visit
    else .line "\x7b" :: enclosed body.children
  | .pragma token => ((d.pragma token.text).map fun text => .line ("#pragma " ++ text)).toList
  | .prototype sig => [.line (signatureText d sig ++ ";")]
  | .function sig body => openBrace d.style (signatureText d sig) ++ enclosed body.children
  | .access level => [.outdented (level.word ++ ":")]
  | .expression value => [.line (value.render d.toSpelling ++ ";")]
  | .declaration vars => [.line (VarDecl.renderGroup d.toSpelling vars ++ ";")]
  | .goto target => [.line ("goto " ++ target.text ++ ";")]
  | .label name => [.outdented (name.text ++ ":")]
  | .namespaceBlock name body =>
    if d.namespaces then openBrace d.style ("namespace " ++ name.text) ++ enclosed body.children
    else body.children.map .visit
  | .conditional condition body elifs last =>
    openBrace d.style (headed "if" condition) ++ enclosed body.children ++
      (elifs ++ last.toList).map .visit
  | .elif condition body => .continuation (headed "else if" condition) :: enclosed body.children
  | .otherwise body => .continuation "else" :: enclosed body.children
  | .forLoop init test update body =>
    openBrace d.style (forHeader (part init) (part test) (part update)) ++ enclosed body.children
  | .whileLoop condition body false =>
    openBrace d.style (headed "while" condition) ++ enclosed body.children
  | .whileLoop condition body true =>
    let test := headed "while" condition ++ ";"
    openBrace d.style "do" ++
      if d.style.braceOnNewLine then enclosed body.children ++ [.line test]
      else enclosed body.children (" " ++ test)
  | .switch condition body =>
    openBrace d.style (headed "switch" condition) ++ enclosed body.children
  | .caseLabel value => [.outdented ("case " ++ value.render d.toSpelling ++ ":")]
  | .defaultLabel => [.outdented "default:"]
  | .continueJump => [.line "continue;"]
  | .breakJump => [.line "break;"]
  | .returnJump none => [.line "return;"]
  | .returnJump (some value) => [.line ("return " ++ value.render d.toSpelling ++ ";")]
where
  /-- A keyword and its condition. -/
  headed (word : String) (condition : StmtId) : String :=
    word ++ " (" ++ inlineText t d condition ++ ")"
  /-- A part of a `for` header. -/
  part (slot : Option StmtId) : String := (slot.map (inlineText t d)).getD ""

end KernelTree.Emission
