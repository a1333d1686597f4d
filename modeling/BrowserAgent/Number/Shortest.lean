import BrowserAgent.Number.Binary

/-!
# The fewest digits that read back

A number stands for every real that rounds to it: the interval up to halfway to each neighbour.
`shortest` finds the decimal with the fewest digits in that interval, of several the nearest to
the number. A `Notation` says how such a decimal is laid out.
-/

namespace BrowserAgent.Number

/-- Digits and the power of ten of the last one. -/
structure Digits where
  digits : Nat
  exponent : Int
deriving DecidableEq, Repr

/-- Compares `a * 10 ^ i` with `b * 2 ^ j`. -/
def compareScaled (a : Nat) (i : Int) (b : Nat) (j : Int) : Ordering :=
  compare (a * Nat.pow 10 i.toNat * Nat.pow 2 (-j).toNat)
    (b * Nat.pow 2 j.toNat * Nat.pow 10 (-i).toNat)

/-- The interval of a number, in quarters of a unit of its significand. The gap below a power of
two is half as wide as the one above. Both ends belong to the interval of an even significand. -/
structure Interval where
  low : Nat
  high : Nat
  /-- The power of two of a quarter. -/
  unit : Int
  closed : Bool

def Format.interval (f : Format) (significand : Nat) (exponent : Int) : Interval where
  low := if significand = Nat.pow 2 (f.precision - 1) ∧ f.minExponent < exponent
    then 4 * significand - 1 else 4 * significand - 2
  high := 4 * significand + 2
  unit := exponent - 2
  closed := significand % 2 = 0

/-- The decimal `n * 10 ^ i` lies in the interval. -/
def Interval.contains (v : Interval) (n : Nat) (i : Int) : Bool :=
  match compareScaled n i v.low v.unit, compareScaled n i v.high v.unit with
  | .gt, .lt => true
  | .eq, _ => v.closed
  | _, .eq => v.closed
  | _, _ => false

/-- The whole part of `significand * 2 ^ exponent / 10 ^ i`. -/
def floorAt (significand : Nat) (exponent i : Int) : Nat :=
  (significand * Nat.pow 2 exponent.toNat * Nat.pow 10 (-i).toNat) /
    (Nat.pow 2 (-exponent).toNat * Nat.pow 10 i.toNat)

/-- The least power of ten above the number, from the guess upward. -/
def tensAbove (significand : Nat) (exponent : Int) : Nat → Int → Int
  | 0, guess => guess
  | steps + 1, guess =>
    if compareScaled 1 guess significand exponent = .gt then guess
    else tensAbove significand exponent steps (guess + 1)

/-- The neighbour of the number on the grid of `10 ^ i` that reads back, the nearer if both do. -/
def onGrid? (v : Interval) (significand : Nat) (exponent i : Int) : Option Digits :=
  let below := floorAt significand exponent i
  match v.contains below i, v.contains (below + 1) i with
  | true, true =>
    match compareScaled (2 * below + 1) i (2 * significand) exponent with
    | .lt => some ⟨below + 1, i⟩
    | .gt => some ⟨below, i⟩
    | .eq => some ⟨if below % 2 = 0 then below else below + 1, i⟩
  | true, false => some ⟨below, i⟩
  | false, true => some ⟨below + 1, i⟩
  | false, false => none

/-- Without zeros at the end of the digits. -/
def Digits.strip : Nat → Digits → Digits
  | 0, d => d
  | steps + 1, d =>
    if d.digits % 10 = 0 && d.digits ≠ 0 then strip steps ⟨d.digits / 10, d.exponent + 1⟩ else d

/-- The first hit on the grids of one digit, two digits and so on; seventeen always do. -/
def searchGrids (v : Interval) (significand : Nat) (exponent top : Int) : Nat → Nat → Digits
  | 0, n => ⟨floorAt significand exponent (top - n), top - n⟩
  | steps + 1, n =>
    (onGrid? v significand exponent (top - n)).getD
      (searchGrids v significand exponent top steps (n + 1))

/-- The decimal with the fewest digits that reads back as the number; zero has the digit zero. -/
def Format.shortest (f : Format) (significand : Nat) (exponent : Int) : Digits :=
  if significand = 0 then ⟨0, 0⟩
  else
    let guess : Int := (significand.log2 + exponent) * 3 / 10 - 20
    let top := tensAbove significand exponent 60 guess
    (searchGrids (f.interval significand exponent) significand exponent top 17 1).strip 20

/-! ## Layout -/

/-- How a number is laid out. -/
structure Notation where
  /-- The decimal exponents of the first digit that are written with a point in place; without
  bounds all are. -/
  positional : Option (Int × Int)
  /-- What follows a number without a fraction that is written in place. -/
  wholeEnd : String
  nan : String
  infinite : String

/-- Digits in place, zeros filled in on either side. -/
def layoutInPlace (wholeEnd : String) (digits : List Char) (exponent : Int) : String :=
  if 0 ≤ exponent then
    String.ofList (digits ++ List.replicate exponent.toNat '0') ++ wholeEnd
  else
    let places := (-exponent).toNat
    let padded := List.replicate (places + 1 - digits.length) '0' ++ digits
    let whole := padded.take (padded.length - places)
    String.ofList (whole ++ '.' :: padded.drop (padded.length - places))

/-- One digit, a point before the others, and the exponent of ten with its sign. -/
def layoutExponent (digits : List Char) (lead : Int) : String :=
  let mantissa := match digits with
    | [] => []
    | [d] => [d]
    | d :: more => d :: '.' :: more
  String.ofList mantissa ++ (if lead < 0 then "e-" else "e+") ++ toString lead.natAbs

def Notation.layout (style : Notation) (d : Digits) : String :=
  let digits := Nat.toDigits 10 d.digits
  let lead := d.exponent + digits.length - 1
  match style.positional with
  | none => layoutInPlace style.wholeEnd digits d.exponent
  | some (least, greatest) =>
    if d.digits = 0 || (least ≤ lead && lead ≤ greatest) then
      layoutInPlace style.wholeEnd digits d.exponent
    else layoutExponent digits lead

def Notation.render (style : Notation) (f : Format) : Binary → String
  | .nan => style.nan
  | .infinite negative => (if negative then "-" else "") ++ style.infinite
  | .finite negative m q => (if negative then "-" else "") ++ style.layout (f.shortest m q)

/-- Every digit in place, no point in a whole number. -/
def plain : Notation := ⟨none, "", "NaN", "inf"⟩

/-- A number of a JSON text: always a point, and an exponent when it is far from one. -/
def jsonNumber : Notation := ⟨some (-5, 15), ".0", "null", "null"⟩

/-- A number of a message: every digit in place, always a point. -/
def messageNumber : Notation := ⟨none, ".0", "NaN", "inf"⟩

/-- A number of a settings file: every digit in place, always a point. -/
def settingsNumber : Notation := ⟨none, ".0", "nan", "inf"⟩

end BrowserAgent.Number
