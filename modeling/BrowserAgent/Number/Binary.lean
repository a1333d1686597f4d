/-!
# Binary floating-point numbers

A finite number is a whole significand times a power of two. A format fixes how many binary
digits a significand has and how small and large the power may be. Every operation takes the
exact rational result and rounds it to the nearest number of the format, a tie going to the even
significand.
-/

namespace BrowserAgent.Number

/-- The binary digits of a significand, and the least and greatest power of two it is scaled by. -/
structure Format where
  precision : Nat
  minExponent : Int
  maxExponent : Int
deriving DecidableEq, Repr

/-- Numbers of 64 bits. -/
def double : Format := ⟨53, -1074, 971⟩

/-- Numbers of 32 bits. -/
def single : Format := ⟨24, -149, 104⟩

inductive Binary where
  | nan
  | infinite (negative : Bool)
  /-- The significand times two to the exponent. -/
  | finite (negative : Bool) (significand : Nat) (exponent : Int)
deriving DecidableEq, Repr

/-- The quotient rounded to the nearest whole number, a tie to the even one. -/
def roundQuotient (num den : Nat) : Nat :=
  let quotient := num / den
  let rest := num % den
  if 2 * rest < den then quotient
  else if den < 2 * rest then quotient + 1
  else if quotient % 2 = 0 then quotient else quotient + 1

/-- The quotient as a fraction whose value is `num / den` divided by two to the exponent. -/
def scaleDown (num den : Nat) (exponent : Int) : Nat × Nat :=
  (num * Nat.pow 2 (-exponent).toNat, den * Nat.pow 2 exponent.toNat)

/-- The power of two that leaves the quotient a significand of full precision, or the least one. -/
def Format.exponentFor (f : Format) (num den : Nat) : Int :=
  let guess : Int := num.log2 - den.log2 - f.precision
  let (n, d) := scaleDown num den guess
  let exact := if d * Nat.pow 2 f.precision ≤ n then guess + 1 else guess
  max exact f.minExponent

/-- The number of the format nearest to `num / den`. -/
def Format.round (f : Format) (negative : Bool) (num den : Nat) : Binary :=
  if num = 0 then .finite negative 0 f.minExponent
  else
    let exponent := f.exponentFor num den
    let (n, d) := scaleDown num den exponent
    let significand := roundQuotient n d
    let (significand, exponent) :=
      if significand = Nat.pow 2 f.precision then (Nat.pow 2 (f.precision - 1), exponent + 1)
      else (significand, exponent)
    if f.maxExponent < exponent then .infinite negative
    else .finite negative significand exponent

def Format.ofNat (f : Format) (n : Nat) : Binary := f.round false n 1

def Format.convert (f : Format) : Binary → Binary
  | .nan => .nan
  | .infinite negative => .infinite negative
  | .finite negative m q => f.round negative (m * Nat.pow 2 q.toNat) (Nat.pow 2 (-q).toNat)

namespace Binary

def isNegative : Binary → Bool
  | .nan => false
  | .infinite negative => negative
  | .finite negative _ _ => negative

/-- The size of a finite number as numerator and denominator. -/
def ratio? : Binary → Option (Nat × Nat)
  | .finite _ m q => some (m * Nat.pow 2 q.toNat, Nat.pow 2 (-q).toNat)
  | _ => none

/-- The number lies between zero and the bound, both included; a negative zero does too. -/
def isWithin (x : Binary) (bound : Nat) : Bool :=
  match x.ratio? with
  | some (num, den) => num == 0 || (!x.isNegative && num ≤ bound * den)
  | none => false

end Binary

end BrowserAgent.Number
