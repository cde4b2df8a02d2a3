import KernelTree.Expr.Basic
import KernelTree.Proofs.Expr.Lexing
/-! The expressions of C++ as a parser by recursive descent, with a function for each kind of
operand and a table of the operators that group to the left. -/
namespace KernelTree.Grammar

open Lexeme

/-- Identifiers of C that are not words for qualifiers. -/
def isName (s : String) : Bool :=
  match s.toList with
  | [] => false
  | c :: rest =>
    (c.isAlpha || c == '_') && rest.all Lexeme.isWordChar &&
      s ∉ ["const", "volatile", "restrict"]

/-- Unsigned decimal numerals. -/
def isNumeral (s : String) : Bool := !s.toList.isEmpty && s.toList.all Char.isDigit

section
variable {w : String}

theorem isWord_of_isName (h : isName w) : isWord w := by
  rw [isName] at h
  split at h
  · cases h
  next c rest spelled =>
    simp only [Bool.and_eq_true, Bool.or_eq_true] at h
    rw [isWord, spelled, List.all_cons, h.1.2]
    rcases h.1.1 with letter | underscore
    · simp [isWordChar, Char.isAlphanum, letter]
    · simp [isWordChar, underscore]

theorem isWord_of_isNumeral (h : isNumeral w) : isWord w := by
  rw [isNumeral, Bool.and_eq_true, List.all_eq_true] at h
  rw [isWord, Bool.and_eq_true, List.all_eq_true]
  refine ⟨h.1, fun c inside => ?_⟩
  simp [isWordChar, Char.isAlphanum, h.2 c inside]

theorem not_mem_of_isName (named : isName w) : w ∉ ["const", "volatile", "restrict"] := by
  rw [isName] at named
  split at named
  · cases named
  · exact of_decide_eq_true (Bool.and_eq_true_iff.mp named).2

theorem exists_of_isNumeral (numeral : isNumeral w) :
    ∃ c rest, w.toList = c :: rest ∧ c.isDigit := by
  rw [isNumeral, Bool.and_eq_true, List.all_eq_true] at numeral
  obtain ⟨c, rest, spelled⟩ := List.exists_cons_of_ne_nil (l := w.toList) (by simpa using numeral.1)
  exact ⟨c, rest, spelled, numeral.2 c (spelled ▸ List.mem_cons_self)⟩

/-- No name opens with a digit. -/
theorem not_digit_of_isName {c : Char} {more : List Char} (named : isName w)
    (spelled : w.toList = c :: more) : c.isDigit = false := by
  by_contra digit
  have range : 48 ≤ c.toNat ∧ c.toNat ≤ 57 := by
    simpa [Char.isDigit, UInt32.le_iff_toNat_le] using digit
  have below : ¬ 65 ≤ c.toNat ∧ ¬ 97 ≤ c.toNat := by omega
  have upper : c.isUpper = false := by simp [Char.isUpper, UInt32.le_iff_toNat_le, below]
  have lower : c.isLower = false := by simp [Char.isLower, UInt32.le_iff_toNat_le, below]
  have other : (c == '_') = false := by
    rw [beq_eq_false_iff_ne]
    rintro rfl
    simp at range
  simp [isName, spelled, Char.isAlpha, upper, lower, other] at named

end

/-- Assignments, which group to the right. -/
def assignments : List (String × BinaryOp) :=
  [("=", .assign), ("+=", .addAssign), ("-=", .subAssign), ("*=", .mulAssign), ("/=", .divAssign)]

/-- The operators that group to the left, from the loosest to the tightest. -/
def levels : List (List (String × BinaryOp)) := [
  [("||", .or)], [("&&", .and)], [("|", .bitOr)], [("^", .bitXor)], [("&", .bitAnd)],
  [("==", .eq), ("!=", .ne)], [("<", .lt), ("<=", .le), (">", .gt), (">=", .ge)],
  [("<<", .shl), (">>", .shr)], [("+", .add), ("-", .sub)],
  [("*", .mul), ("/", .div), ("%", .rem)]]

def prefixes : List (String × UnaryOp) := [
  ("-", .neg), ("!", .not), ("~", .bitNot), ("*", .deref), ("&", .addressOf),
  ("++", .preIncrement), ("--", .preDecrement)]

/-- The lexemes behind a mark that has to stand there. -/
def expect (mark : String) : List Lexeme → Option (List Lexeme)
  | .sign s :: rest => if s = mark then some rest else none
  | _ => none

/-- A word that opens with a digit is a literal. -/
def leaf (text : String) : Expr :=
  if text.toList.head?.any Char.isDigit then .literal { kind := .literal, text }
  else .ident (.identifier text)

theorem leaf_of_isName {s : String} (named : isName s) : leaf s = .ident (.identifier s) := by
  have other : s.toList.head?.any Char.isDigit = false := by
    cases spelled : s.toList with
    | nil => rfl
    | cons c more => exact not_digit_of_isName named spelled
  rw [leaf, other]
  rfl

theorem leaf_of_isNumeral {s : String} (numeral : isNumeral s) :
    leaf s = .literal { kind := .literal, text := s } := by
  obtain ⟨c, rest, spelled, digit⟩ := exists_of_isNumeral numeral
  rw [leaf, spelled]
  exact if_pos digit

/-- The words at the front that stand for some of the qualifiers. -/
def qualifiers (known : List Qualifier) : List Lexeme → List Qualifier × List Lexeme
  | .word text :: rest =>
    match known.find? (·.name == text) with
    | some q => (q :: (qualifiers known rest).1, (qualifiers known rest).2)
    | none => ([], .word text :: rest)
  | ts => ([], ts)

def isStar (t : Lexeme) : Bool := t == .sign "*"

/-- The type of a cast behind its opening parenthesis: `const` and `volatile`, a name, stars and
`restrict`, up to the closing parenthesis. -/
def castType (ts : List Lexeme) : Option (TypeSpec × List Lexeme) :=
  let (before, ts) := qualifiers [.const, .volatile] ts
  match ts with
  | .word name :: ts =>
    if isName name then
      let stars := ts.takeWhile isStar
      let (behind, ts) := qualifiers [.restrict] (ts.dropWhile isStar)
      (expect ")" ts).map fun ts =>
        ({ name, qualifiers := before ++ behind, pointers := .ofNat stars.length }, ts)
    else none
  | _ => none

/-- What is read in front of a mark, and the lexemes behind the mark. -/
def upTo {α : Type} (mark : String) (read : Option (α × List Lexeme)) :
    Option (α × List Lexeme) := do
  let (a, ts) ← read
  let ts ← expect mark ts
  return (a, ts)

/-- Hands on what has been read at the front of some lexemes. Fewer of them must be left, which the
recursion of the grammar rests on. -/
def next {α : Type} (ts : List Lexeme) (read : Option (α × List Lexeme)) :
    Option (α × { rest : List Lexeme // rest.length < ts.length }) :=
  match read with
  | some (a, rest) => if h : rest.length < ts.length then some (a, ⟨rest, h⟩) else none
  | none => none

theorem next_some {α : Type} {a : α} {ts rest : List Lexeme} (shorter : rest.length < ts.length) :
    next ts (some (a, rest)) = some (a, ⟨rest, shorter⟩) := by
  rw [next, dif_pos shorter]

theorem upTo_some {α : Type} (a : α) (mark : String) (rest : List Lexeme) :
    upTo mark (some (a, .sign mark :: rest)) = some (a, rest) := by
  simp [upTo, expect]

mutual

/-- Assignments and conditional expressions. -/
def expression (ts : List Lexeme) : Option (Expr × List Lexeme) := do
  let (lhs, ⟨ts', _⟩) ← next ts (binary levels ts)
  match _ : ts' with
  | .sign s :: rest =>
    if s = "?" then
      let (consequent, ⟨ts'', _⟩) ← next rest (upTo ":" (expression rest))
      let (alternative, ts) ← expression ts''
      return (.ternary lhs consequent alternative, ts)
    else
      match assignments.lookup s with
      | some op => do
        let (rhs, ts) ← expression rest
        return (.binary op lhs rhs, ts)
      | none => return (lhs, ts')
  | _ => return (lhs, ts')
termination_by (ts.length, levels.length + 4)
decreasing_by
  · exact .right _ (by omega)
  all_goals
    subst_vars
    simp only [List.length_cons] at *
    exact .left _ _ (by omega)

/-- Operands joined by the operators of some levels, the loosest first. -/
def binary (levels : List (List (String × BinaryOp))) (ts : List Lexeme) :
    Option (Expr × List Lexeme) :=
  match levels with
  | [] => unary ts
  | level :: tighter => do
    let (lhs, ⟨ts', _⟩) ← next ts (binary tighter ts)
    operands level tighter lhs ts'
termination_by (ts.length, levels.length + 3)

/-- The operators of one level and their right operands, behind the first operand. -/
def operands (level : List (String × BinaryOp)) (tighter : List (List (String × BinaryOp)))
    (lhs : Expr) (ts : List Lexeme) : Option (Expr × List Lexeme) :=
  match ts with
  | .sign s :: rest =>
    match level.lookup s with
    | some op => do
      let (rhs, ⟨ts', _⟩) ← next rest (binary tighter rest)
      operands level tighter (.binary op lhs rhs) ts'
    | none => some (lhs, ts)
  | _ => some (lhs, ts)
termination_by (ts.length, 0)

/-- Prefix operators and casts. -/
def unary (ts : List Lexeme) : Option (Expr × List Lexeme) :=
  match ts with
  | .sign s :: rest =>
    if s = "(" then
      match next rest (castType rest) with
      | some (type, ⟨rest', _⟩) => do
        let (operand, ts) ← unary rest'
        return (.cast type operand, ts)
      | none => postfixed (.sign s :: rest)
    else
      match prefixes.lookup s with
      | some op => do
        let (operand, ts) ← unary rest
        return (.unary op operand, ts)
      | none => postfixed (.sign s :: rest)
  | ts => postfixed ts
termination_by (ts.length, 2)

def postfixed (ts : List Lexeme) : Option (Expr × List Lexeme) := do
  let (base, ⟨ts', _⟩) ← next ts (primary ts)
  suffixes base ts'
termination_by (ts.length, 1)

/-- Increments, decrements, calls, subscripts and fields, behind what they apply to. -/
def suffixes (base : Expr) (ts : List Lexeme) : Option (Expr × List Lexeme) :=
  match ts with
  | .sign "++" :: rest => suffixes (.unary .postIncrement base) rest
  | .sign "--" :: rest => suffixes (.unary .postDecrement base) rest
  | .sign "(" :: rest => do
    let (args, ⟨ts', _⟩) ← next rest (items ")" rest)
    suffixes (.call base args) ts'
  | .sign "[" :: rest => do
    let (subscript, ⟨ts', _⟩) ← next rest (upTo "]" (expression rest))
    suffixes (.index base subscript) ts'
  | .sign "." :: .word field :: rest => suffixes (.member base (.identifier field) false) rest
  | .sign "->" :: .word field :: rest => suffixes (.member base (.identifier field) true) rest
  | _ => some (base, ts)
termination_by (ts.length, 0)

def primary (ts : List Lexeme) : Option (Expr × List Lexeme) :=
  match ts with
  | .word text :: rest => some (leaf text, rest)
  | .sign "(" :: rest => upTo ")" (expression rest)
  | .sign "\x7b" :: rest => do
    let (entries, ts) ← items "\x7d" rest
    return (.list entries, ts)
  | _ => none
termination_by (ts.length, 0)

/-- Expressions with commas between them, and the mark that closes them. -/
def items (close : String) (ts : List Lexeme) : Option (List Expr × List Lexeme) :=
  match expect close ts with
  | some rest => some ([], rest)
  | none => do
    let (first, ⟨ts', _⟩) ← next ts (expression ts)
    let (others, ts) ← moreItems close ts'
    return (first :: others, ts)
termination_by (ts.length, Grammar.levels.length + 5)

def moreItems (close : String) (ts : List Lexeme) : Option (List Expr × List Lexeme) :=
  match ts with
  | .sign s :: rest =>
    if s = close then some ([], rest)
    else if s = "," then do
      let (first, ⟨ts', _⟩) ← next rest (expression rest)
      let (others, ts) ← moreItems close ts'
      return (first :: others, ts)
    else none
  | _ => none
termination_by (ts.length, 0)

end

/-- The expression that makes up a whole text. -/
def parse (text : String) : Option Expr :=
  match expression (Lexeme.lex text.toList) with
  | some (e, []) => some e
  | _ => none

end KernelTree.Grammar
