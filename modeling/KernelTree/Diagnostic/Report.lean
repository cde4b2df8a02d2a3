import KernelTree.Diagnostic.Basic
import KernelTree.Text.Blank
/-! Reports with the line of the source that they are about. The place is underlined, and the
message hangs below the middle of the underline. -/
namespace KernelTree

def Text.isLineEnd (c : Char) : Bool :=
  c == '\n' || c == '\x0b' || c == '\x0c' || c == '\r' || c == '\u0085' || c == '\u2028' ||
    c == '\u2029'

/-- The lines of a text with their ends. A carriage return and the line feed behind it are one
end. -/
def Text.lines : List Char → List (List Char)
  | [] => []
  | c :: rest =>
    if isLineEnd c ∧ ¬(c = '\r' ∧ rest.head? = some '\n') then [c] :: lines rest
    else match lines rest with
      | [] => [[c]]
      | line :: later => (c :: line) :: later

/-- The index of the line on which an offset lies, that line, and the column. The offset behind the
last character lies on the last line. -/
def Text.locate (offset : Nat) : List (List Char) → Option (Nat × List Char × Nat)
  | [] => none
  | [line] => if offset ≤ line.length then some (0, line, offset) else none
  | line :: later =>
    if offset < line.length then some (0, line, offset)
    else (locate (offset - line.length) later).map fun (index, found, column) =>
      (index + 1, found, column)

namespace Diagnostic

/-- The column of the message: the middle of the underline. -/
def hook (first stop : Nat) : Nat := if stop ≤ first then first else (first + stop) / 2

/-- The marks below the columns from `first` up to `stop`; a single mark if there are none. -/
def underline (first stop : Nat) : String :=
  "".pushn ' ' first ++
    if stop ≤ first then "│"
    else "".pushn '─' (hook first stop - first) ++ "┬" ++
      "".pushn '─' (stop - hook first stop - 1)

def arrow (first stop : Nat) : String :=
  "".pushn ' ' (hook first stop) ++ "╰" ++ "".pushn '─' (max first stop + 1 - hook first stop)

/-- The frame around a line of the source, with what is said about it. -/
def frame (d : Diagnostic) (file : String) (index : Nat) (line : String) (column : Nat) :
    List String :=
  let number := toString (index + 1)
  let margin := "".pushn ' ' (number.length + 2)
  let stop := column + (d.span.stop - d.span.start)
  let remark (title : String) (text : String) := [margin ++ "│", margin ++ s!"│ {title}: {text}"]
  [margin ++ s!"╭─[{file}:{number}:{column + 1}]",
    margin ++ "│",
    s!" {number} │ {line}",
    margin ++ "│ " ++ underline column stop,
    margin ++ "│ " ++ arrow column stop ++ " " ++ d.message] ++
  (d.help.map (remark "Help")).getD [] ++
  (d.notes.getLast?.map (remark "Note")).getD [] ++
  ["".pushn '─' (number.length + 2) ++ "╯"]

/-- The lines of a report, which end without blanks. Of several notes the last is shown. A place
outside the source is not shown at all. -/
def report (d : Diagnostic) (file source : String) : List String :=
  let title := match d.severity with
    | .error => "Error"
    | .warning => "Warning"
  let lines := Text.lines source.toList
  let shown := do
    let (index, line, column) ← Text.locate d.span.start lines
    if d.span.start < d.span.stop then discard (Text.locate (d.span.stop - 1) lines)
    return d.frame file index (String.ofList line) column
  ((title ++ ": " ++ d.message) :: shown.getD []).map Text.trimEnd

end Diagnostic
end KernelTree
