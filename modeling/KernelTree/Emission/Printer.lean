import KernelTree.Emission.Task
/-! Printing a tree with an explicit stack of tasks, so that the depth of nesting costs nothing but
memory. -/
namespace KernelTree.Emission

/-- The text printed so far, and what the next line begins with. -/
structure Output where
  text : String := ""
  /-- The indentation of the current depth, kept in step with it. -/
  margin : String := ""
  depth : Nat := 0
deriving DecidableEq, Repr, Inhabited

namespace Output

/-- A text without that many bytes at its end. -/
def cutBack (s : String) (bytes : Nat) : String :=
  String.Pos.Raw.extract s 0 ⟨s.utf8ByteSize - bytes⟩

def line (content : String) (o : Output) : Output :=
  { o with text := o.text ++ o.margin ++ content ++ "\n" }

/-- Prints a line one level further out than the current depth. -/
def outdented (style : Style) (content : String) (o : Output) : Output :=
  { o with text := o.text ++ cutBack o.margin style.indent.utf8ByteSize ++ content ++ "\n" }

def indent (style : Style) (o : Output) : Output :=
  { o with margin := o.margin ++ style.indent, depth := o.depth + 1 }

def dedent (style : Style) (o : Output) : Output :=
  if o.depth = 0 then o
  else { o with margin := cutBack o.margin style.indent.utf8ByteSize, depth := o.depth - 1 }

/-- Prints a header and its opening brace. -/
def opening (style : Style) (header : String) (o : Output) : Output :=
  if style.braceOnNewLine then (o.line header).line "\x7b" else o.line (header ++ " \x7b")

/-- Prints a header and its opening brace: behind the closing brace that has just been printed, if
the style has it so, else as any other header. -/
def continuation (style : Style) (header : String) (o : Output) : Output :=
  if style.cuddleElse && o.text.endsWith "\x7d\n" then
    let joined := (o.text.dropEnd 1).copy ++ " " ++ header
    if style.braceOnNewLine then { o with text := joined ++ "\n" }.line "\x7b"
    else { o with text := joined ++ " \x7b\n" }
  else o.opening style header

end Output

/-- Does one task that asks for no other statement. -/
def perform (style : Style) (o : Output) : Task → Output
  | .visit _ => o
  | .line content => o.line content
  | .outdented content => o.outdented style content
  | .continuation header => o.continuation style header
  | .indent => o.indent style
  | .dedent => o.dedent style

/-- Does the pending tasks in order. At most `visits` statements are printed, which is enough when
none is printed twice. -/
def run (t : Tree) (d : Dialect) (visits : Nat) (pending : List Task) (o : Output) : Output :=
  match pending with
  | [] => o
  | .visit id :: rest =>
    match visits, t.get? id with
    | 0, _ => o
    | visits + 1, none => run t d visits rest o
    | visits + 1, some node => run t d visits (tasks t d id node.stmt ++ rest) o
  | task :: rest => run t d visits rest (perform d.style o task)
termination_by (visits, pending.length)

/-- The text of a subtree; nothing for an unknown number. -/
def emit (t : Tree) (id : StmtId) (d : Dialect) : String :=
  (run t d t.slots.size [.visit id] {}).text

/-- The text of the whole program behind the prelude of the dialect. -/
def emitProgram (t : Tree) (d : Dialect) : String :=
  (d.prelude.map (· ++ "\n")).getD "" ++ emit t Tree.root d

end KernelTree.Emission
