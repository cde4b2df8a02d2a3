import KernelTree.Data.Datum
/-! Strings, numbers, truth values and dates of TOML. -/
namespace KernelTree.Toml

/-- Reads something off the front of a text, if it is there; the rest of the text. -/
abbrev Step (α : Type) := List Char → Option (α × List Char)

def isSpace (c : Char) : Bool := c == ' ' || c == '\t'

/-- What may stand in a comment or a quoted string: no control character but the tab. -/
def isPlain (c : Char) : Bool := c == '\t' || (0x20 ≤ c.toNat && c.toNat ≠ 0x7F)

def isBareKey (c : Char) : Bool := c.isAlphanum || c == '_' || c == '-'

def hexDigit? (c : Char) : Option Nat :=
  if c.isDigit then some (c.toNat - 48)
  else if 'a' ≤ c ∧ c ≤ 'f' then some (c.toNat - 87)
  else if 'A' ≤ c ∧ c ≤ 'F' then some (c.toNat - 55)
  else none

def ofDigits (base : Nat) (digits : List Nat) : Nat :=
  digits.foldl (fun n d => n * base + d) 0

/-- A character given by as many hexadecimal digits. Halves of characters outside the basic plane
are no characters. -/
def codePoint (length : Nat) : Step Char := fun cs => do
  let digits ← (cs.take length).mapM hexDigit?
  if digits.length ≠ length then none
  let n := ofDigits 16 digits
  if n.isValidChar then some (Char.ofNat n, cs.drop length) else none

def escape : Step Char
  | 'b' :: rest => some ('\x08', rest)
  | 't' :: rest => some ('\t', rest)
  | 'n' :: rest => some ('\n', rest)
  | 'f' :: rest => some ('\x0c', rest)
  | 'r' :: rest => some ('\r', rest)
  | 'e' :: rest => some ('\x1b', rest)
  | '"' :: rest => some ('"', rest)
  | '\\' :: rest => some ('\\', rest)
  | 'x' :: rest => codePoint 2 rest
  | 'u' :: rest => codePoint 4 rest
  | 'U' :: rest => codePoint 8 rest
  | _ => none

/-- A string with escapes on one line, behind its opening quote. Each step takes a character. -/
def basicString : Nat → Step (List Char)
  | 0, _ => none
  | _, '"' :: rest => some ([], rest)
  | steps + 1, '\\' :: rest => do
    let (c, rest) ← escape rest
    let (cs, rest) ← basicString steps rest
    return (c :: cs, rest)
  | steps + 1, c :: rest => do
    if !isPlain c then none
    let (cs, rest) ← basicString steps rest
    return (c :: cs, rest)
  | _, [] => none

/-- A string without escapes on one line, behind its opening quote. -/
def literalString : Step (List Char)
  | '\'' :: rest => some ([], rest)
  | c :: rest => do
    if !isPlain c then none
    let (cs, rest) ← literalString rest
    return (c :: cs, rest)
  | [] => none

def lineEnd? : List Char → Option (List Char)
  | '\n' :: rest => some rest
  | '\r' :: '\n' :: rest => some rest
  | _ => none

/-- The quotes that end a string of several lines. Two more of them may belong to the string. -/
def closingQuotes (mark : Char) (cs : List Char) : Option (List Char × List Char) :=
  let n := (cs.takeWhile (· == mark)).length
  if n < 3 then none
  else if 5 < n then none
  else some (List.replicate (n - 3) mark, cs.drop n)

/-- The text behind a line end and all blanks and line ends that follow it. Each step takes a
character. -/
def skipBlankLines : Nat → List Char → List Char
  | 0, cs => cs
  | steps + 1, c :: rest =>
    if isSpace c then skipBlankLines steps rest
    else match lineEnd? (c :: rest) with
      | some rest => skipBlankLines steps rest
      | none => c :: rest
  | _, [] => []

/-- A backslash at the end of a line, blanks aside: the text behind the gap that it spans. -/
def lineJoin? (cs : List Char) : Option (List Char) := do
  let rest ← lineEnd? (cs.dropWhile isSpace)
  return skipBlankLines rest.length rest

/-- A string of several lines, behind its opening quotes. Each step takes a character. -/
def longString (mark : Char) (escapes : Bool) : Nat → Step (List Char)
  | 0, _ => none
  | steps + 1, cs =>
    if cs.take 3 == [mark, mark, mark] then closingQuotes mark cs
    else match cs with
      | [] => none
      | c :: rest => do
        if escapes ∧ c = '\\' then
          match lineJoin? rest with
          | some rest => longString mark escapes steps rest
          | none =>
            let (c, rest) ← escape rest
            let (found, rest) ← longString mark escapes steps rest
            return (c :: found, rest)
        else match lineEnd? (c :: rest) with
          | some after => do
            let (found, left) ← longString mark escapes steps after
            return ((if c = '\r' then ['\r', '\n'] else ['\n']) ++ found, left)
          | none => do
            if !isPlain c then none
            let (found, rest) ← longString mark escapes steps rest
            return (c :: found, rest)

/-- A string on one line, as a key may be one. -/
def shortString : Step String := fun cs =>
  match cs with
  | '"' :: rest => (basicString cs.length rest).map fun (s, rest) => (String.ofList s, rest)
  | '\'' :: rest => (literalString rest).map fun (s, rest) => (String.ofList s, rest)
  | _ => none

/-- A string. A line end right behind the opening quotes of a long one is not part of it. -/
def string : Step String := fun cs =>
  let long (mark : Char) (escapes : Bool) (rest : List Char) :=
    let body := (lineEnd? rest).getD rest
    (longString mark escapes (body.length + 1) body).map fun (s, rest) => (String.ofList s, rest)
  match cs with
  | '"' :: '"' :: '"' :: rest => long '"' true rest
  | '\'' :: '\'' :: '\'' :: rest => long '\'' false rest
  | cs => shortString cs

/-- Digits with single underscores between them, as their values; at least one. -/
def groupedDigits (value : Char → Option Nat) : List Char → Option (List Nat)
  | [] => none
  | [c] => (value c).map ([·])
  | c :: '_' :: rest => do return (← value c) :: (← groupedDigits value rest)
  | c :: rest => do return (← value c) :: (← groupedDigits value rest)

def digitOf (base : Nat) (c : Char) : Option Nat := (hexDigit? c).filter (· < base)

def integer? (n : Int) : Option Datum :=
  if -0x8000000000000000 ≤ n ∧ n ≤ 0x7FFFFFFFFFFFFFFF then some (.integer n) else none

def signed : List Char → Bool × List Char
  | '-' :: rest => (true, rest)
  | '+' :: rest => (false, rest)
  | cs => (false, cs)

/-- Decimal digits without a superfluous zero in front. -/
def wholePart (cs : List Char) : Option (List Nat) := do
  let digits ← groupedDigits (digitOf 10) cs
  if digits.head? = some 0 ∧ 1 < digits.length then none else some digits

/-- The number `n * 10 ^ e`, if it is not too large. -/
def floatOf (negative : Bool) (n : Nat) (e : Int) : Option Datum :=
  let size := (Nat.toDigits 10 n).length + e
  let x :=
    if n = 0 ∨ size < -400 then 0.0
    else if 400 < size then 1.0 / 0.0
    else if 0 ≤ e then Float.ofScientific n false e.toNat
    else Float.ofScientific n true (-e).toNat
  if x.isInf then none else some (.float (if negative then -x else x))

/-- A power of ten behind its `e`. -/
def powerOfTen (cs : List Char) : Option Int := do
  let (negative, cs) := signed cs
  let n := ofDigits 10 (← groupedDigits (digitOf 10) cs)
  return if negative then -n else n

def decimal (cs : List Char) : Option Datum := do
  let (negative, cs) := signed cs
  let isPower (c : Char) := c == 'e' || c == 'E'
  let before := cs.takeWhile fun c => !isPower c
  let power := cs.dropWhile fun c => !isPower c
  let e ← match power with
    | [] => some 0
    | _ :: digits => powerOfTen digits
  let whole ← wholePart (before.takeWhile (· ≠ '.'))
  match before.dropWhile (· ≠ '.') with
  | [] =>
    let n := ofDigits 10 whole
    if power.isEmpty then integer? (if negative then -n else n)
    else floatOf negative n e
  | _ :: places => do
    let fraction ← groupedDigits (digitOf 10) places
    floatOf negative (ofDigits 10 (whole ++ fraction)) (e - fraction.length)

def fixedDigits (length : Nat) : Step Nat := fun cs => do
  let digits ← (cs.take length).mapM (digitOf 10)
  if digits.length = length then some (ofDigits 10 digits, cs.drop length) else none

def mark (c : Char) : Step Unit
  | d :: rest => if c = d then some ((), rest) else none
  | [] => none

def daysIn (year month : Nat) : Nat :=
  if month = 2 then
    if year % 4 = 0 ∧ (year % 100 ≠ 0 ∨ year % 400 = 0) then 29 else 28
  else if month = 4 ∨ month = 6 ∨ month = 9 ∨ month = 11 then 30 else 31

/-- A number with as many digits as asked for, filled up with zeros. -/
def padded (length n : Nat) : String :=
  let digits := toString n
  "".pushn '0' (length - digits.length) ++ digits

def date : Step String := fun cs => do
  let (year, cs) ← fixedDigits 4 cs
  let ((), cs) ← mark '-' cs
  let (month, cs) ← fixedDigits 2 cs
  let ((), cs) ← mark '-' cs
  let (day, cs) ← fixedDigits 2 cs
  if month < 1 ∨ 12 < month ∨ day < 1 ∨ daysIn year month < day then none
  return (s!"{padded 4 year}-{padded 2 month}-{padded 2 day}", cs)

/-- Decimal places of a second, cut off after the ninth. -/
def places : Step String
  | '.' :: cs =>
    let digits := cs.takeWhile Char.isDigit
    if digits.isEmpty then none
    else
      let kept := ((digits.take 9).reverse.dropWhile (· == '0')).reverse
      some (if kept.isEmpty then "" else "." ++ String.ofList kept, cs.drop digits.length)
  | cs => some ("", cs)

/-- A time of day. Its seconds may be left out. -/
def time : Step String := fun cs => do
  let (hour, cs) ← fixedDigits 2 cs
  let ((), cs) ← mark ':' cs
  let (minute, cs) ← fixedDigits 2 cs
  if 23 < hour ∨ 59 < minute then none
  let head := s!"{padded 2 hour}:{padded 2 minute}"
  match mark ':' cs with
  | none => return (head, cs)
  | some ((), cs) =>
    let (second, cs) ← fixedDigits 2 cs
    if 60 < second then none
    let (fraction, cs) ← places cs
    return (head ++ s!":{padded 2 second}" ++ fraction, cs)

/-- How far a time is from that of Greenwich; nothing if it is not said. -/
def offset : Step String
  | [] => some ("", [])
  | 'Z' :: cs | 'z' :: cs => some ("Z", cs)
  | sign :: cs => do
    if sign ≠ '+' ∧ sign ≠ '-' then none
    let (hours, cs) ← fixedDigits 2 cs
    let ((), cs) ← mark ':' cs
    let (minutes, cs) ← fixedDigits 2 cs
    if 23 < hours ∨ 59 < minutes then none
    return (s!"{sign}{padded 2 hours}:{padded 2 minutes}", cs)

/-- The name under which a date stands as the one member of a table. -/
def dateKey : String := "$__toml_private_datetime"

/-- A date, a time, or both, which is the whole of the text. -/
def moment (cs : List Char) : Option Datum := do
  let finished (s : String) (cs : List Char) : Option Datum :=
    if cs.isEmpty then some (.table [(dateKey, .text s)]) else none
  match date cs with
  | some (day, []) => finished day []
  | some (day, separator :: cs) =>
    if separator ≠ 'T' ∧ separator ≠ 't' ∧ separator ≠ ' ' then none
    let (hour, cs) ← time cs
    let (zone, cs) ← offset cs
    finished (day ++ "T" ++ hour ++ zone) cs
  | none =>
    let (hour, cs) ← time cs
    finished hour cs

def unquoted (cs : List Char) : Option Datum :=
  match cs with
  | ['t', 'r', 'u', 'e'] => some (.bool true)
  | ['f', 'a', 'l', 's', 'e'] => some (.bool false)
  | '0' :: 'x' :: digits =>
    (groupedDigits (digitOf 16) digits).bind fun ds => integer? (ofDigits 16 ds)
  | '0' :: 'o' :: digits =>
    (groupedDigits (digitOf 8) digits).bind fun ds => integer? (ofDigits 8 ds)
  | '0' :: 'b' :: digits =>
    (groupedDigits (digitOf 2) digits).bind fun ds => integer? (ofDigits 2 ds)
  | cs =>
    let (negative, rest) := signed cs
    if rest = ['i', 'n', 'f'] then some (.float (if negative then -1.0 / 0.0 else 1.0 / 0.0))
    else if rest = ['n', 'a', 'n'] then some (.float (0.0 / 0.0))
    else (decimal cs).orElse fun _ => moment cs

def endsUnquoted (c : Char) : Bool :=
  isSpace c || c == '\n' || c == '\r' || c == ',' || c == ']' || c == '\x7d' || c == '#'

/-- An unquoted value. A blank between a date and a digit belongs to it. -/
def bareValue : Step Datum := fun cs => do
  let first := cs.takeWhile fun c => !endsUnquoted c
  let rest := cs.drop first.length
  let (word, rest) := match (date first).map Prod.snd, rest with
    | some [], ' ' :: d :: after =>
      if d.isDigit then
        let second := (d :: after).takeWhile fun c => !endsUnquoted c
        (first ++ ' ' :: second, (d :: after).drop second.length)
      else (first, rest)
    | _, _ => (first, rest)
  return (← unquoted word, rest)

end KernelTree.Toml
