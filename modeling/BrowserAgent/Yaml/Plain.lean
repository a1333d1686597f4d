import BrowserAgent.Mismatch
import BrowserAgent.Number.Decimal
import BrowserAgent.Number.Shortest
import BrowserAgent.Number.Word
import BrowserAgent.Text.Hex
import BrowserAgent.Text.Search

/-!
# What a plain scalar reads as

A scalar without quotes may be read as no value, a truth value or a number. A text that would be
is not a text without quotes. Digits after a leading zero are no number, yet they are quoted too,
since some readers take them for one.
-/

namespace BrowserAgent.Yaml

/-- The words that stand for no value; so does a plain scalar without characters. -/
def nullWords : List String := ["~", "null", "Null", "NULL"]

/-- What a word for a truth value says. -/
def bool? (s : String) : Option Bool :=
  if ["true", "True", "TRUE"].contains s then some true
  else if ["false", "False", "FALSE"].contains s then some false
  else none

/-- A leading zero with more digits after it. -/
def isPaddedDigits (s : String) : Bool :=
  match (Number.Decimal.splitSign s.toList).2 with
  | '0' :: d :: more => (d :: more).all Char.isDigit
  | _ => false

/-- The value of the digits in the base, if there is at least one. -/
def digitsIn? (base : Nat) (cs : List Char) : Option Nat :=
  if cs.isEmpty then none
  else cs.foldlM (fun n c =>
    ((Text.hexDigit? c).filter (· < base)).map (n * base + ·)) 0

/-- A whole number without its sign; a base may be given by a letter after a zero. -/
def natural? : List Char → Option Nat
  | '0' :: 'x' :: cs => digitsIn? 16 cs
  | '0' :: 'o' :: cs => digitsIn? 8 cs
  | '0' :: 'b' :: cs => digitsIn? 2 cs
  | cs => digitsIn? 10 cs

/-- A whole number of at most 128 bits. -/
def integer? (s : String) : Option Int :=
  if isPaddedDigits s then none
  else match Number.Decimal.splitSign s.toList with
    | (true, cs) => ((natural? cs).filter (· ≤ Nat.pow 2 127)).map fun n => -Int.ofNat n
    | (false, cs) => ((natural? cs).filter (· < Nat.pow 2 128)).map Int.ofNat

/-- An integer as it is found: one of more than 64 bits is of a kind of its own. -/
def integerValue (n : Int) : Found :=
  if n < Number.Word.least then .wide n "i128"
  else if Number.Word.count ≤ n then .wide n "u128"
  else .integer n

def isFinite : Number.Binary → Bool
  | .finite .. => true
  | _ => false

def hasSign (s : String) : Bool := (Number.Decimal.splitSign s.toList).2 != s.toList

/-- A number with a point or an exponent, or a word for one that is not finite. -/
def float? (s : String) : Option Number.Binary :=
  let unsigned := if Text.startsWith "+" s then String.ofList s.toList.tail else s
  if [".inf", ".Inf", ".INF"].contains unsigned then some (.infinite false)
  else if ["-.inf", "-.Inf", "-.INF"].contains s then some (.infinite true)
  else if [".nan", ".NaN", ".NAN"].contains s then some .nan
  else if unsigned != s && hasSign unsigned then none
  else (Number.Decimal.readNumber? Number.double unsigned).filter isFinite

def floatValue (x : Number.Binary) : Found :=
  .decimal (Number.messageNumber.render Number.double x)

def plainValue (s : String) : Found :=
  if s = "" || nullWords.contains s then .nothing "unit value"
  else match bool? s, integer? s, if isPaddedDigits s then none else float? s with
    | some b, _, _ => .bool b
    | none, some n, _ => integerValue n
    | none, none, some x => floatValue x
    | none, none, none => .text s

/-- The text would not be read as a text, or is digits that some would not. -/
def isAmbiguous (s : String) : Bool :=
  s == "" || nullWords.contains s || (bool? s).isSome || isPaddedDigits s || (integer? s).isSome ||
    (float? s).isSome

end BrowserAgent.Yaml
