import KernelTree.Json.Cursor
/-! Strings and numbers of JSON. -/
namespace KernelTree.Json.Reading

def hexDigit? (b : UInt8) : Option Nat :=
  let n := b.toNat
  if 48 ≤ n ∧ n ≤ 57 then some (n - 48)
  else if 65 ≤ n ∧ n ≤ 70 then some (n - 55)
  else if 97 ≤ n ∧ n ≤ 102 then some (n - 87)
  else none

def digit? (b : UInt8) : Option Nat :=
  if 48 ≤ b.toNat ∧ b.toNat ≤ 57 then some (b.toNat - 48) else none

def hexEscape : Reading Nat := do
  match (← get).rest with
  | a :: b :: c :: d :: _ =>
    skip; skip; skip; skip
    match hexDigit? a, hexDigit? b, hexDigit? c, hexDigit? d with
    | some a, some b, some c, some d => return ((a * 16 + b) * 16 + c) * 16 + d
    | _, _, _, _ => fail .badEscape
  | rest =>
    rest.forM fun _ => skip
    fail .unendedString

/-- Reads on behind the first half of a character outside the basic plane, up to the second. -/
def lowSurrogate : Reading Nat := do
  for expected in [92, 117] do
    match ← peek with
    | none => fail .unendedString
    | some b =>
      skip
      if b ≠ expected then fail .unendedSurrogate
  hexEscape

/-- The character that the digits behind a backslash and a `u` stand for. -/
def unicodeEscape : Reading Char := do
  let high ← hexEscape
  if 0xDC00 ≤ high ∧ high ≤ 0xDFFF then fail .loneSurrogate
  if high < 0xD800 ∨ 0xDBFF < high then return Char.ofNat high
  let low ← lowSurrogate
  if low < 0xDC00 ∨ 0xDFFF < low then fail .loneSurrogate
  return Char.ofNat ((high - 0xD800) * 0x400 + (low - 0xDC00) + 0x10000)

/-- The bytes that an escape stands for; `checked` asks for its digits to form a character. -/
def escape (checked : Bool) : Reading (List UInt8) := do
  match ← next with
  | none => fail .unendedString
  | some b =>
    match Char.ofNat b.toNat with
    | '"' => return [34]
    | '\\' => return [92]
    | '/' => return [47]
    | 'b' => return [8]
    | 'f' => return [12]
    | 'n' => return [10]
    | 'r' => return [13]
    | 't' => return [9]
    | 'u' =>
      if checked then
        let c ← unicodeEscape
        return (String.singleton c).toUTF8.data.toList
      else
        discard hexEscape
        return []
    | _ => fail .badEscape

/-- The bytes of a string up to its closing quote, in front of those read before (latest first).
Every step takes a byte, so the length of the text bounds them. -/
def stringBytes (checked : Bool) : Nat → List UInt8 → Reading (List UInt8)
  | 0, _ => fail .unendedString
  | steps + 1, before => do
    match ← next with
    | none => fail .unendedString
    | some 34 => return before.reverse
    | some 92 => do
      let bytes ← escape checked
      stringBytes checked steps (bytes.reverse ++ before)
    | some b =>
      if b < 32 then fail .controlCharacter
      stringBytes checked steps (b :: before)

/-- A string behind its opening quote. Cuts are made at ASCII bytes only, so the bytes between them
are text. -/
def string : Reading String := do
  let bytes ← stringBytes true ((← get).rest.length + 1) []
  return (String.fromUTF8? ⟨bytes.toArray⟩).getD ""

def skipString : Reading Unit := do
  discard (stringBytes false ((← get).rest.length + 1) [])

def digits : Reading (List Nat) := fun c =>
  let taken := (c.rest.takeWhile fun b => (digit? b).isSome).filterMap digit?
  .ok taken { c with rest := c.rest.drop taken.length, column := c.column + taken.length }

/-- The number `significand * 10 ^ exponent`, rounded once more by each power of ten that is
applied; nothing if it is too large. -/
def scale (significand : Float) (exponent : Int) : Option Float :=
  if exponent.natAbs ≤ 308 then
    let power := Float.ofScientific 1 false exponent.natAbs
    if 0 ≤ exponent then
      let x := significand * power
      if x.isInf then none else some x
    else some (significand / power)
  else if significand == 0 then some significand
  else if 0 ≤ exponent then none
  else scale (significand / Float.ofScientific 1 false 308) (exponent + 308)
termination_by exponent.natAbs
decreasing_by omega

/-- The greatest whole number that is read exactly. -/
def wordMax : Nat := 0xFFFFFFFFFFFFFFFF

/-- Adds digits to a significand as long as it stays within a word, and counts those added. -/
def extend (significand : Nat) : List Nat → Nat × Nat
  | [] => (significand, 0)
  | d :: rest =>
    if significand * 10 + d ≤ wordMax then
      let (s, n) := extend (significand * 10 + d) rest
      (s, n + 1)
    else (significand, 0)

def finish (negative : Bool) (significand : Nat) (exponent : Int) : Reading Datum := do
  match scale significand.toUInt64.toFloat exponent with
  | some x => return .float (if negative then -x else x)
  | none => fail .numberTooLarge

/-- The power of ten behind its `e`. -/
def exponent (negative : Bool) (significand : Nat) (start : Int) : Reading Datum := do
  skip
  let sign ← peek
  if sign = some 43 ∨ sign = some 45 then skip
  match ← next with
  | none => fail .unendedValue
  | some b =>
    let some first := digit? b | fail .badNumber
    power (sign = some 45) first ((← get).rest.length + 1)
where
  /-- Reads on behind the digits of the power read so far. -/
  power (down : Bool) (e : Nat) : Nat → Reading Datum
    | 0 => fail .badNumber
    | steps + 1 => do
      match (← peek).bind digit? with
      | none => finish negative significand (if down then start - e else start + e)
      | some d =>
        skip
        if e * 10 + d ≤ 0x7FFFFFFF then power down (e * 10 + d) steps
        else if significand ≠ 0 ∧ ¬down then fail .numberTooLarge
        else
          discard digits
          return .float (if negative then -0.0 else 0.0)

def opensPower (b : Option UInt8) : Bool := b = some 101 || b = some 69

/-- The digits behind the point. Those that no longer fit into the significand are passed over. -/
def fraction (negative : Bool) (significand : Nat) (start : Int) : Reading Datum := do
  skip
  let found ← digits
  if found.isEmpty then
    failNext (if (← peek).isNone then .unendedValue else .badNumber)
  let (significand, used) := extend significand found
  let e := start - used
  if opensPower (← peek) then exponent negative significand e else finish negative significand e

/-- A whole number, unless it leaves the range of a word: then, as with a minus before a zero, it
counts as one with a fraction. -/
def whole (negative : Bool) (significand : Nat) : Datum :=
  if !negative then .integer significand
  else if significand = 0 ∨ 0x8000000000000000 < significand then
    .float (-significand.toUInt64.toFloat)
  else .integer (-significand)

def number (negative : Bool) : Reading Datum := do
  match ← next with
  | none => fail .unendedValue
  | some b =>
    let some first := digit? b | fail .badNumber
    if first = 0 then
      if ((← peek).bind digit?).isSome then failNext .badNumber
      tail 0 0
    else
      let more ← digits
      let (significand, used) := extend first more
      tail significand (more.length - used)
where
  /-- Reads on behind the digits before the point, of which the last `dropped` did not fit. -/
  tail (significand dropped : Nat) : Reading Datum := do
    match ← peek with
    | some 46 => fraction negative significand dropped
    | b =>
      if opensPower b then exponent negative significand dropped
      else if dropped = 0 then return whole negative significand
      else finish negative significand dropped

def skipNumber : Reading Unit := do
  match (← next).bind digit? with
  | none => fail .badNumber
  | some 0 => if ((← peek).bind digit?).isSome then failNext .badNumber
  | some _ => discard digits
  if (← peek) = some 46 then
    skip
    if (← digits).isEmpty then failNext .badNumber
  if opensPower (← peek) then
    skip
    let sign ← peek
    if sign = some 43 ∨ sign = some 45 then skip
    if ((← next).bind digit?).isNone then fail .badNumber
    discard digits

end KernelTree.Json.Reading
