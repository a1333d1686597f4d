import BrowserAgent.Number.Binary

/-!
# Decimals

A decimal is a whole number of units of a power of ten, as it is written. Its value in a binary
format is the nearest number of that format.
-/

namespace BrowserAgent.Number

structure Decimal where
  negative : Bool
  digits : Nat
  exponent : Int
deriving DecidableEq, Repr

namespace Decimal

def digitsValue (cs : List Char) : Nat := cs.foldl (fun n c => n * 10 + (c.toNat - '0'.toNat)) 0

/-- Digits, then the digits after a point, if there are any. -/
def ofDigits (negative : Bool) (whole fraction : List Char) (exponent : Int) : Decimal :=
  ⟨negative, digitsValue (whole ++ fraction), exponent - fraction.length⟩

/-- The number of the format nearest to the decimal. -/
def toBinary (f : Format) (d : Decimal) : Binary :=
  if d.digits = 0 then f.round d.negative 0 1
  else
    let size : Int := d.digits.log2 * 3 / 10 + d.exponent
    -- Beyond `10 ^ 400` every format has infinity and below `10 ^ -400` zero, so the power of ten
    -- is never computed there.
    if 400 < size then .infinite d.negative
    else if size < -450 then f.round d.negative 0 1
    else f.round d.negative (d.digits * Nat.pow 10 d.exponent.toNat)
      (Nat.pow 10 (-d.exponent).toNat)

/-! ## Reading -/

def splitSign : List Char → Bool × List Char
  | '-' :: cs => (true, cs)
  | '+' :: cs => (false, cs)
  | cs => (false, cs)

/-- An exponent: an optional sign and at least one digit, and nothing after. -/
def readExponent? (cs : List Char) : Option Int :=
  let (negative, digits) := splitSign cs
  if digits.isEmpty || !digits.all Char.isDigit then none
  else some (if negative then -(digitsValue digits : Int) else digitsValue digits)

/-- Digits with an optional point, at least one digit on either side of it, and an optional
exponent. -/
def readUnsigned? (negative : Bool) (cs : List Char) : Option Decimal :=
  let whole := cs.takeWhile Char.isDigit
  let (fraction, rest) := match cs.dropWhile Char.isDigit with
    | '.' :: more => (more.takeWhile Char.isDigit, more.dropWhile Char.isDigit)
    | more => ([], more)
  if whole.isEmpty && fraction.isEmpty then none
  else match rest with
    | [] => some (ofDigits negative whole fraction 0)
    | e :: more =>
      if e = 'e' || e = 'E' then (readExponent? more).map (ofDigits negative whole fraction)
      else none

/-- A number as a person writes one: a decimal, or a word for infinity or for no number, in any
mix of capitals, with an optional sign. -/
def readNumber? (f : Format) (s : String) : Option Binary :=
  let (negative, body) := splitSign s.toList
  let word := String.ofList (body.map Char.toLower)
  if word = "inf" || word = "infinity" then some (.infinite negative)
  else if word = "nan" then some .nan
  else (readUnsigned? negative body).map (toBinary f)

end Decimal

end BrowserAgent.Number
