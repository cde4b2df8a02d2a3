import KernelTree.Proofs.Expr.Grammar
/-! The expressions of C99, with the address spaces of compute devices among the qualifiers, as a
parser by recursive descent. Here casts and unary expressions are two levels: a unary expression is
what an increment applies to and what is assigned to, and a cast is none. The last part of a
conditional expression is a conditional expression as well, and no assignment. Braces stand around
the values of an initializer and behind the type of a compound literal. -/
namespace KernelTree.C99

open Grammar

/-- Keywords that are types by themselves. -/
def typeKeywords : List String :=
  ["void", "char", "short", "int", "long", "float", "double", "signed", "unsigned", "_Bool"]

def keywords : List String := typeKeywords ++ [
  "auto", "break", "case", "const", "continue", "default", "do", "else", "enum", "extern", "for",
  "goto", "if", "inline", "register", "restrict", "return", "sizeof", "static", "struct", "switch",
  "typedef", "union", "volatile", "while", "_Complex", "_Imaginary"]

/-- The qualifiers that stand before the name of a type. -/
def qualifierWords : List (String × Qualifier) := [
  ("const", .const), ("volatile", .volatile), ("__global", .global), ("__local", .shared),
  ("__constant", .constant)]

def isReserved (s : String) : Bool := s ∈ keywords || (qualifierWords.lookup s).isSome

def isIdentifier (s : String) : Bool := isName s && !isReserved s

/-- Keywords for types, and the identifiers, each of which may be declared as a type. -/
def isTypeName (s : String) : Bool := isName s && (s ∈ typeKeywords || !isReserved s)

/-- The words at the front that stand for qualifiers. -/
def qualifiers : List Lexeme → List Qualifier × List Lexeme
  | .word text :: rest =>
    match qualifierWords.lookup text with
    | some q => (q :: (qualifiers rest).1, (qualifiers rest).2)
    | none => ([], .word text :: rest)
  | ts => ([], ts)

/-- A type in parentheses, behind the opening one. -/
def typeName (ts : List Lexeme) : Option (TypeSpec × List Lexeme) := do
  let (before, ts) := qualifiers ts
  let (type, ts) ← castType ts
  if isTypeName type.name then
    return ({ type with qualifiers := before ++ type.qualifiers }, ts)
  else none

/-- Constants and identifiers. -/
def leaf? (text : String) : Option Expr :=
  if isNumeral text || isIdentifier text then some (leaf text) else none

/-- Increments and decrements, which apply to unary expressions. -/
def isStep (op : UnaryOp) : Bool := op == .preIncrement || op == .preDecrement

def isAssignment (t : Lexeme) : Bool :=
  match t with
  | .sign s => (assignments.lookup s).isSome
  | .word _ => false

/-- What is read in front of something else than an assignment operator. -/
def unassigned {α : Type} (read : Option (α × List Lexeme)) : Option (α × List Lexeme) :=
  read.filter fun (_, ts) => !ts.head?.any isAssignment

mutual

/-- Assignments and conditional expressions. -/
def assignment (ts : List Lexeme) : Option (Expr × List Lexeme) := do
  let (lhs, ⟨ts', _⟩) ← next ts (conditional ts)
  match _ : ts' with
  | .sign s :: rest =>
    match assignments.lookup s with
    | some op =>
      if (unary ts).any (·.2 = ts') then
        let (rhs, ts) ← assignment rest
        return (.binary op lhs rhs, ts)
      else none
    | none => return (lhs, ts')
  | _ => return (lhs, ts')
termination_by (ts.length, levels.length + 6)
decreasing_by
  · exact .right _ (by omega)
  · exact .right _ (by omega)
  all_goals
    subst_vars
    simp only [List.length_cons] at *
    exact .left _ _ (by omega)

def conditional (ts : List Lexeme) : Option (Expr × List Lexeme) := do
  let (condition, ⟨ts', _⟩) ← next ts (binary levels ts)
  match _ : ts' with
  | .sign s :: rest =>
    if s = "?" then
      let (consequent, ⟨ts'', _⟩) ← next rest (upTo ":" (assignment rest))
      let (alternative, ts) ← unassigned (conditional ts'')
      return (.ternary condition consequent alternative, ts)
    else return (condition, ts')
  | _ => return (condition, ts')
termination_by (ts.length, levels.length + 5)
decreasing_by
  · exact .right _ (by omega)
  all_goals
    subst_vars
    simp only [List.length_cons] at *
    exact .left _ _ (by omega)

/-- Operands joined by the operators of some levels, the loosest first. -/
def binary (levels : List (List (String × BinaryOp))) (ts : List Lexeme) :
    Option (Expr × List Lexeme) :=
  match levels with
  | [] => cast ts
  | level :: tighter => do
    let (lhs, ⟨ts', _⟩) ← next ts (binary tighter ts)
    operands level tighter lhs ts'
termination_by (ts.length, levels.length + 4)

/-- The operators of one level and their right operands, behind the first operand. -/
def operands (level : List (String × BinaryOp)) (tighter : List (List (String × BinaryOp)))
    (lhs : Expr) (ts : List Lexeme) : Option (Expr × List Lexeme) :=
  match ts with
  | .sign s :: rest =>
    match level.lookup s with
    | some op => do
      let (rhs, ⟨ts', _⟩) ← next rest (binary tighter rest)
      operands level tighter (.binary op lhs rhs) ts'
    | none => some (lhs, ts)
  | _ => some (lhs, ts)
termination_by (ts.length, 0)

/-- Casts and unary expressions. With braces behind it, a type opens a compound literal. -/
def cast (ts : List Lexeme) : Option (Expr × List Lexeme) :=
  match ts with
  | .sign "(" :: rest =>
    match next rest (typeName rest) with
    | some (type, ⟨rest', _⟩) =>
      if (expect "\x7b" rest').isSome then unary (.sign "(" :: rest)
      else do
        let (operand, ts) ← cast rest'
        return (.cast type operand, ts)
    | none => unary (.sign "(" :: rest)
  | ts => unary ts
termination_by (ts.length, 3)

def unary (ts : List Lexeme) : Option (Expr × List Lexeme) :=
  match ts with
  | .sign s :: rest =>
    match prefixes.lookup s with
    | some op => do
      let (operand, ts) ← if isStep op then unary rest else cast rest
      return (.unary op operand, ts)
    | none => postfixed (.sign s :: rest)
  | ts => postfixed ts
termination_by (ts.length, 2)

def postfixed (ts : List Lexeme) : Option (Expr × List Lexeme) := do
  let (base, ⟨ts', _⟩) ← next ts (primary ts)
  suffixes base ts'
termination_by (ts.length, 1)

/-- Increments, decrements, calls, subscripts and fields, behind what they apply to. -/
def suffixes (base : Expr) (ts : List Lexeme) : Option (Expr × List Lexeme) :=
  match ts with
  | .sign "++" :: rest => suffixes (.unary .postIncrement base) rest
  | .sign "--" :: rest => suffixes (.unary .postDecrement base) rest
  | .sign "(" :: rest => do
    let (args, ⟨ts', _⟩) ← next rest (items false rest)
    suffixes (.call base args) ts'
  | .sign "[" :: rest => do
    let (subscript, ⟨ts', _⟩) ← next rest (upTo "]" (assignment rest))
    suffixes (.index base subscript) ts'
  | .sign "." :: .word field :: rest =>
    if isIdentifier field then suffixes (.member base (.identifier field) false) rest else none
  | .sign "->" :: .word field :: rest =>
    if isIdentifier field then suffixes (.member base (.identifier field) true) rest else none
  | _ => some (base, ts)
termination_by (ts.length, 0)

/-- Constants, identifiers, expressions in parentheses and, as the cast of a list, compound
literals. -/
def primary (ts : List Lexeme) : Option (Expr × List Lexeme) :=
  match ts with
  | .word text :: rest => (leaf? text).map (·, rest)
  | .sign "(" :: rest =>
    match next rest (typeName rest) with
    | some (type, ⟨rest', _⟩) =>
      if (expect "\x7b" rest').isSome then do
        let (values, ts) ← initializer rest'
        return (.cast type values, ts)
      else none
    | none => upTo ")" (assignment rest)
  | _ => none
termination_by (ts.length, 0)

/-- An expression, or values in braces. -/
def initializer (ts : List Lexeme) : Option (Expr × List Lexeme) :=
  match ts with
  | .sign "\x7b" :: rest => do
    let (values, ts) ← items true rest
    return (.list values, ts)
  | ts => assignment ts
termination_by (ts.length, levels.length + 7)

/-- Values with commas between them and the closing brace, or arguments and the closing parenthesis.
There may be no arguments, but there is at least one value. -/
def items (braced : Bool) (ts : List Lexeme) : Option (List Expr × List Lexeme) :=
  match if braced then none else expect ")" ts with
  | some rest => some ([], rest)
  | none => do
    let (first, ⟨ts', _⟩) ← next ts (if braced then initializer ts else assignment ts)
    let (others, ts) ← moreItems braced ts'
    return (first :: others, ts)
termination_by (ts.length, levels.length + 8)

def moreItems (braced : Bool) (ts : List Lexeme) : Option (List Expr × List Lexeme) :=
  match ts with
  | .sign s :: rest =>
    if s = (if braced then "\x7d" else ")") then some ([], rest)
    else if s = "," then do
      let (first, ⟨ts', _⟩) ← next rest (if braced then initializer rest else assignment rest)
      let (others, ts) ← moreItems braced ts'
      return (first :: others, ts)
    else none
  | _ => none
termination_by (ts.length, 0)

end

/-- The expression or initializer that makes up a whole text. The text is cut at the longest signs,
as in C++: the signs that C lacks stand in no printed expression. -/
def parse (text : String) : Option Expr :=
  match initializer (Lexeme.lex text.toList) with
  | some (e, []) => some e
  | _ => none

end KernelTree.C99
