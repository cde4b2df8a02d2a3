import KernelTree.Span
import KernelTree.Text.Blank
/-! Lexemes: the leaf spellings that statements and expressions carry. -/
namespace KernelTree

inductive TokenKind where
  | identifier
  | literal
  | pragma
deriving DecidableEq, Repr, Inhabited

/-- A numeral, a text that opens with a point or a quote, and a numeral behind a minus sign are
literals; every other spelling is taken for an identifier. -/
def TokenKind.ofSpelling (s : String) : TokenKind :=
  match s.toList with
  | '-' :: c :: _ => if c.isDigit then .literal else .identifier
  | c :: _ => if c.isDigit || c == '.' || c == '"' || c == '\'' then .literal else .identifier
  | [] => .identifier

def TokenKind.name : TokenKind → String
  | .identifier => "identifier"
  | .literal => "literal"
  | .pragma => "pragma"

structure Token where
  kind : TokenKind
  text : String
  span : Span := .none
deriving DecidableEq, Repr, Inhabited

namespace Token

/-- The token that a bare spelling stands for. -/
def ofSpelling (text : String) (span : Span := .none) : Token :=
  { kind := .ofSpelling text, text, span }

/-- The body of a pragma, without the blanks around it. -/
def pragma (text : String) (span : Span := .none) : Token :=
  { kind := .pragma, text := Text.trim text, span }

/-- A name made by the program. -/
def identifier (text : String) : Token :=
  { kind := .identifier, text }

end Token
end KernelTree
