import KernelTree.Text.Marked
/-! Texts between double quotes, in which a backslash introduces what cannot stand for itself. -/
namespace KernelTree.Text

/-- A character as it stands between the quotes: quotes, backslashes and line ends have short
escapes, and a character that cannot be seen is given by its code point. -/
def escapeChar (c : Char) : String :=
  match c with
  | '\x00' => "\\0"
  | '\t' => "\\t"
  | '\n' => "\\n"
  | '\r' => "\\r"
  | '"' => "\\\""
  | '\\' => "\\\\"
  | c =>
    if isMarked c then String.singleton c
    else "\\u\x7b" ++ String.ofList (Nat.toDigits 16 c.toNat) ++ "\x7d"

def quote (s : String) : String :=
  "\"" ++ String.join (s.toList.map escapeChar) ++ "\""

end KernelTree.Text
