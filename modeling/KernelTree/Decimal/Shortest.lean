/-! The fewest decimal digits that read back as the same binary floating-point number, and the
texts made of them. -/
namespace KernelTree.Decimal

/-- A positive number in binary: `mantissa * 2 ^ exponent`. -/
structure Binary where
  mantissa : Nat
  exponent : Int
  /-- The next smaller number is only half as far away as the next greater one. -/
  narrowBelow : Bool
deriving DecidableEq, Repr

def Binary.ofFloat (x : Float) : Binary :=
  let bits := x.toBits.toNat
  let exponent : Nat := (bits >>> 52) % (1 <<< 11)
  let fraction := bits % (1 <<< 52)
  if exponent = 0 then { mantissa := fraction, exponent := -1074, narrowBelow := false }
  else
    { mantissa := fraction + (1 <<< 52), exponent := (exponent : Int) - 1075,
      narrowBelow := fraction = 0 && 1 < exponent }

/-- Decimal digits, most significant first, of which the last counts powers of ten. -/
structure Digits where
  digits : List Char
  exponent : Int
deriving DecidableEq, Repr

/-- Numerator and denominator of `n * 10 ^ e`. -/
def scaleTen (n : Nat) (e : Int) : Nat × Nat :=
  if 0 ≤ e then (n * Nat.pow 10 e.toNat, 1) else (n, Nat.pow 10 (-e).toNat)

/-- The exponent of the leading decimal digit of a positive fraction. -/
def leadingExponent (num den : Nat) : Int :=
  if den ≤ num then ((Nat.toDigits 10 (num / den)).length : Int) - 1
  else -((Nat.toDigits 10 ((den + num - 1) / num - 1)).length : Int)

/-- Which of two texts is taken when a number lies half-way between them. -/
inductive Tie where
  /-- The one that ends in an even digit. -/
  | even
  /-- The greater one. -/
  | up
deriving DecidableEq, Repr

/-- Whether the lower of two neighbours is taken in a tie. -/
def Tie.takesLower (t : Tie) (below : Nat) : Bool := t == .even && below % 2 == 0

/-- The multiple of `10 ^ e` nearest to a positive number among its two neighbours on that grid,
provided that it reads back as the number. Quantities are compared in quarters of the last binary
place; the ends of the interval belong to it when the mantissa is even. -/
def onGrid? (tie : Tie) (b : Binary) (e : Int) : Option Nat :=
  -- `num / den` is a quarter of the last binary place, measured in units of the grid
  let (ten, tenDen) := scaleTen 1 e
  let num := (if 0 ≤ b.exponent then 1 <<< b.exponent.toNat else 1) * tenDen
  let den := (if 0 ≤ b.exponent then 1 else 1 <<< (-b.exponent).toNat) * ten * 4
  let value := 4 * b.mantissa * num
  let low := (4 * b.mantissa - (if b.narrowBelow then 1 else 2)) * num
  let high := (4 * b.mantissa + 2) * num
  let inside (n : Nat) : Bool :=
    if b.mantissa % 2 = 0 then low ≤ n * den && n * den ≤ high
    else low < n * den && n * den < high
  let below := value / den
  let above := below + 1
  match inside below, inside above with
  | true, true =>
    let down := value - below * den
    let up := above * den - value
    if down < up || (down == up && tie.takesLower below) then some below else some above
  | true, false => some below
  | false, true => some above
  | false, false => none

def Digits.trim (d : Digits) : Digits :=
  let kept := (d.digits.reverse.dropWhile (· == '0')).reverse
  { digits := kept, exponent := d.exponent + (d.digits.length - kept.length : Nat) }

/-- The fewest digits that read back; seventeen always do. -/
def Binary.shortest (tie : Tie) (b : Binary) : Digits :=
  let lead :=
    if 0 ≤ b.exponent then leadingExponent (b.mantissa <<< b.exponent.toNat) 1
    else leadingExponent b.mantissa (1 <<< (-b.exponent).toNat)
  let found := (List.range 17).findSome? fun (places : Nat) =>
    let e := lead - (places : Int)
    (onGrid? tie b e).map fun n => (n, e)
  match found with
  | some (n, e) => Digits.trim { digits := Nat.toDigits 10 n, exponent := e }
  | none => { digits := ['0'], exponent := 0 }

/-- How a number is written out. -/
structure Layout where
  /-- The exponents of the leading digit, from the first to the last, for which no power of ten is
  written; without bounds no power is ever written. -/
  positional : Option (Int × Int)
  tie : Tie

/-- Structured data: no powers of ten from a hundred-thousandth up to sixteen places. -/
def Layout.bounded : Layout := ⟨some (-5, 15), .even⟩

def Layout.unbounded : Layout := ⟨none, .up⟩

/-- An exponent with its sign and at least two digits. -/
def exponentText (e : Int) : String :=
  let digits := toString e.natAbs
  (if e < 0 then "e-" else "e+") ++ (if digits.length < 2 then "0" ++ digits else digits)

/-- Digits with a point in their place, and with at least one digit on either side of it. -/
def Digits.positional (d : Digits) : String :=
  let n := d.digits.length
  let point : Int := n + d.exponent
  if 0 ≤ d.exponent then
    String.ofList (d.digits ++ List.replicate d.exponent.toNat '0') ++ ".0"
  else if 0 < point then
    String.ofList (d.digits.take point.toNat) ++ "." ++ String.ofList (d.digits.drop point.toNat)
  else "0." ++ String.ofList (List.replicate (-point).toNat '0' ++ d.digits)

/-- One digit before the point, the others behind it, and the power of ten. -/
def Digits.scientific (d : Digits) : String :=
  let lead : Int := d.digits.length + d.exponent - 1
  String.ofList (d.digits.take 1) ++
    (if d.digits.length ≤ 1 then "" else "." ++ String.ofList (d.digits.drop 1)) ++
    exponentText lead

def render (layout : Layout) (x : Float) : String :=
  if x.isNaN then "NaN"
  else
    let sign := if x.toBits.toNat >>> 63 = 1 then "-" else ""
    if x.isInf then sign ++ "inf"
    else if x == 0 then sign ++ "0.0"
    else
      let d := (Binary.ofFloat x).shortest layout.tie
      let lead : Int := d.digits.length + d.exponent - 1
      match layout.positional with
      | some (first, last) =>
        sign ++ if first ≤ lead ∧ lead ≤ last then d.positional else d.scientific
      | none => sign ++ d.positional

end KernelTree.Decimal
