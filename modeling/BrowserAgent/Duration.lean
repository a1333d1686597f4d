import BrowserAgent.Number.Shortest

/-!
# Durations

A duration is a whole number of nanoseconds below `2 ^ 64` seconds.
-/

namespace BrowserAgent

open Number

structure Duration where
  nanos : Nat
deriving DecidableEq, Repr

inductive DurationError where
  | negative
  | outOfRange
deriving DecidableEq, Repr

def DurationError.message : DurationError → String
  | .negative => "cannot convert float seconds to Duration: value is negative"
  | .outOfRange => "cannot convert float seconds to Duration: value is either too big or NaN"

namespace Duration

def nanosPerMicro : Nat := 1000

def nanosPerMilli : Nat := 1000000

def nanosPerSecond : Nat := 1000000000

def ofMillis (n : Nat) : Duration := ⟨n * nanosPerMilli⟩

def ofWholeSeconds (n : Nat) : Duration := ⟨n * nanosPerSecond⟩

/-- The nearest nanosecond, a tie to the even one. -/
def ofSeconds (seconds : Binary) : Except DurationError Duration :=
  match seconds.ratio? with
  | some (num, den) =>
    if num = 0 then .ok ⟨0⟩
    -- Anything below zero is refused, however small.
    else if seconds.isNegative then .error .negative
    else
      let nanos := roundQuotient (num * nanosPerSecond) den
      if nanos / nanosPerSecond < Nat.pow 2 64 then .ok ⟨nanos⟩ else .error .outOfRange
  | none => if seconds.isNegative then .error .negative else .error .outOfRange

/-- The whole seconds and the fraction, each rounded, and their rounded sum. -/
def toSeconds (d : Duration) : Binary :=
  let whole := double.ofNat (d.nanos / nanosPerSecond)
  let fraction := double.round false (d.nanos % nanosPerSecond) nanosPerSecond
  match whole.ratio?, fraction.ratio? with
  | some (a, b), some (c, d) => double.round false (a * d + c * b) (b * d)
  | _, _ => .nan

/-- A whole part and a fraction of so many digits, zeros at its end left out. -/
def fractionText (whole fraction places : Nat) : String :=
  let digits := Nat.toDigits 10 fraction
  let padded := List.replicate (places - digits.length) '0' ++ digits
  let kept := (padded.reverse.dropWhile (· = '0')).reverse
  toString whole ++ (if kept.isEmpty then "" else String.ofList ('.' :: kept))

/-- The duration in the largest unit that leaves a whole part. -/
def text (d : Duration) : String :=
  let n := d.nanos
  if nanosPerSecond ≤ n then fractionText (n / nanosPerSecond) (n % nanosPerSecond) 9 ++ "s"
  else if nanosPerMilli ≤ n then fractionText (n / nanosPerMilli) (n % nanosPerMilli) 6 ++ "ms"
  else if nanosPerMicro ≤ n then fractionText (n / nanosPerMicro) (n % nanosPerMicro) 3 ++ "µs"
  else toString n ++ "ns"

end Duration

end BrowserAgent
