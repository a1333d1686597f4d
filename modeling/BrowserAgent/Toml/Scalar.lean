import BrowserAgent.Number.Decimal
import BrowserAgent.Text.Hex
import BrowserAgent.Toml.Value

/-!
# Reading TOML scalars

Texts stand in double quotes, with escapes, or in single quotes, without; three quotes in a row
enclose a text of several lines. All other scalars are one word.
-/

namespace BrowserAgent.Toml

def prepend (cs : List Char) : Option (List Char × List Char) → Option (List Char × List Char) :=
  Option.map fun (more, rest) => (cs ++ more, rest)

/-- A control character that may stand nowhere. -/
def isRefused (c : Char) : Bool := (c.toNat < 0x20 && c != '\t') || c.toNat == 0x7F

/-! ## Texts -/

def escapes : List (Char × Char) :=
  [('b', '\x08'), ('t', '\t'), ('n', '\n'), ('f', '\x0c'), ('r', '\r'), ('e', '\x1b'), ('"', '"'),
    ('\\', '\\')]

/-- How many hexadecimal digits follow the letter after a backslash. -/
def escapeWidth? : Char → Option Nat
  | 'x' => some 2
  | 'u' => some 4
  | 'U' => some 8
  | _ => none

def readEscape : List Char → Option (Char × List Char)
  | [] => none
  | c :: cs =>
    match escapes.lookup c, escapeWidth? c with
    | some x, _ => some (x, cs)
    | none, some width => do
      let n ← Text.hexValue? (cs.take width)
      if cs.length < width || !n.isValidChar then none else some (Char.ofNat n, cs.drop width)
    | none, none => none

/-- The rest of a text in double quotes. -/
def readBasic : Nat → List Char → Option (List Char × List Char)
  | 0, _ => none
  | fuel + 1, cs =>
    match cs with
    | [] => none
    | '"' :: cs => some ([], cs)
    | '\\' :: cs => do
      let (x, cs) ← readEscape cs
      prepend [x] (readBasic fuel cs)
    | c :: cs => if isRefused c then none else prepend [c] (readBasic fuel cs)

/-- The rest of a text in single quotes. -/
def readLiteral : List Char → Option (List Char × List Char)
  | [] => none
  | '\'' :: cs => some ([], cs)
  | c :: cs => if isRefused c then none else prepend [c] (readLiteral cs)

def isSpace (c : Char) : Bool := c == ' ' || c == '\t'

/-- What follows a line end, if one is there. -/
def afterLineEnd? : List Char → Option (List Char)
  | '\n' :: cs => some cs
  | '\r' :: '\n' :: cs => some cs
  | _ => none

def dropLineEnd (cs : List Char) : List Char := (afterLineEnd? cs).getD cs

def dropBlankLines : List Char → List Char
  | ' ' :: cs => dropBlankLines cs
  | '\t' :: cs => dropBlankLines cs
  | '\n' :: cs => dropBlankLines cs
  | '\r' :: '\n' :: cs => dropBlankLines cs
  | cs => cs

/-- The rest of a text of several lines, which ends at three of the quotes. -/
def readLines (quote : Char) (escaped : Bool) : Nat → List Char → Option (List Char × List Char)
  | 0, _ => none
  | fuel + 1, cs =>
    let quotes := (cs.takeWhile (· == quote)).length
    if 3 ≤ quotes then
      -- Up to two more directly before those belong to the text.
      let n := min quotes 5
      some (List.replicate (n - 3) quote, cs.drop n)
    else match cs with
      | [] => none
      | '\r' :: '\n' :: cs => prepend ['\r', '\n'] (readLines quote escaped fuel cs)
      | '\n' :: cs => prepend ['\n'] (readLines quote escaped fuel cs)
      | c :: cs =>
        if c == '\\' && escaped then
          match afterLineEnd? (cs.dropWhile isSpace) with
          -- A backslash at the end of a line drops the gap that follows.
          | some cs => readLines quote escaped fuel (dropBlankLines cs)
          | none => do
            let (x, cs) ← readEscape cs
            prepend [x] (readLines quote escaped fuel cs)
        else if isRefused c then none
        else prepend [c] (readLines quote escaped fuel cs)

def readText (allowLines : Bool) (cs : List Char) : Option (String × List Char) :=
  let read : Option (List Char × List Char) := match allowLines, cs with
    | true, '"' :: '"' :: '"' :: cs => readLines '"' true (cs.length + 1) (dropLineEnd cs)
    | true, '\'' :: '\'' :: '\'' :: cs => readLines '\'' false (cs.length + 1) (dropLineEnd cs)
    | _, '"' :: cs => readBasic (cs.length + 1) cs
    | _, '\'' :: cs => readLiteral cs
    | _, _ => none
  read.map fun (text, rest) => (String.ofList text, rest)

/-! ## Numbers -/

/-- Digits without the low lines, each of which has to stand between two digits. -/
def plainDigits? (isDigit : Char → Bool) : List Char → Option (List Char)
  | [] => none
  | [c] => if isDigit c then some [c] else none
  | c :: '_' :: more => if isDigit c then (plainDigits? isDigit more).map (c :: ·) else none
  | c :: more => if isDigit c then (plainDigits? isDigit more).map (c :: ·) else none

def digitsIn? (base : Nat) (cs : List Char) : Option Nat := do
  let digits ← plainDigits? (fun c => (Text.hexDigit? c).any (· < base)) cs
  return digits.foldl (fun n c => n * base + (Text.hexDigit? c).getD 0) 0

/-- Decimal digits, not a zero with more digits after it. -/
def wholeDigits? (cs : List Char) : Option (List Char) :=
  match plainDigits? Char.isDigit cs with
  | some ('0' :: _ :: _) => none
  | found => found

def integer? (cs : List Char) : Option Int :=
  match cs with
  | '0' :: 'x' :: cs => (digitsIn? 16 cs).map Int.ofNat
  | '0' :: 'o' :: cs => (digitsIn? 8 cs).map Int.ofNat
  | '0' :: 'b' :: cs => (digitsIn? 2 cs).map Int.ofNat
  | cs =>
    let (negative, digits) := Number.Decimal.splitSign cs
    (wholeDigits? digits).map fun digits =>
      let n : Int := Number.Decimal.digitsValue digits
      if negative then -n else n

/-- An integer of at most 128 bits. -/
def fits (n : Int) : Bool := -Int.ofNat (Nat.pow 2 127) ≤ n && n < Int.ofNat (Nat.pow 2 128)

/-- A part of a decimal after its mark, and what stands before it. -/
def splitAtMark (isMark : Char → Bool) (cs : List Char) : List Char × Option (List Char) :=
  match cs.dropWhile fun c => !isMark c with
  | [] => (cs, none)
  | _ :: after => (cs.takeWhile fun c => !isMark c, some after)

/-- A decimal with a fraction or an exponent, if it is not too large. -/
def decimal? (cs : List Char) : Option Number.Binary := do
  let (negative, unsigned) := Number.Decimal.splitSign cs
  let (mantissa, exponent) := splitAtMark (fun c => c == 'e' || c == 'E') unsigned
  let (whole, fraction) := splitAtMark (· == '.') mantissa
  if exponent.isNone && fraction.isNone then none
  else
    let whole ← wholeDigits? whole
    let fraction ← fraction.elim (some []) (plainDigits? Char.isDigit)
    let (below, power) := Number.Decimal.splitSign (exponent.getD ['0'])
    let power : Int := Number.Decimal.digitsValue (← plainDigits? Char.isDigit power)
    let exponent := if below then -power else power
    let value := (Number.Decimal.ofDigits negative whole fraction exponent).toBinary
      Number.double
    match value with
    | .infinite _ => none
    | value => some value

def float? (cs : List Char) : Option Number.Binary :=
  let (negative, word) := Number.Decimal.splitSign cs
  if word = "inf".toList then some (.infinite negative)
  else if word = "nan".toList then some .nan
  else decimal? cs

/-! ## Dates and times -/

def isLeapYear (year : Nat) : Bool := year % 4 == 0 && (year % 100 != 0 || year % 400 == 0)

def daysIn (year month : Nat) : Nat :=
  if month = 2 then (if isLeapYear year then 29 else 28)
  else if [4, 6, 9, 11].contains month then 30
  else 31

/-- A number of exactly so many digits. -/
def fixedNumber (width : Nat) (cs : List Char) : Option (Nat × List Char) :=
  let digits := cs.take width
  if digits.length = width && digits.all Char.isDigit then
    some (Number.Decimal.digitsValue digits, cs.drop width)
  else none

/-- What follows the character, which has to be there. -/
def after (c : Char) : List Char → Option (List Char)
  | x :: cs => if x = c then some cs else none
  | [] => none

/-- What follows a date. -/
def date? (cs : List Char) : Option (List Char) := do
  let (year, cs) ← fixedNumber 4 cs
  let (month, cs) ← fixedNumber 2 (← after '-' cs)
  let (day, cs) ← fixedNumber 2 (← after '-' cs)
  if 1 ≤ month && month ≤ 12 && 1 ≤ day && day ≤ daysIn year month then some cs else none

/-- What follows a time of day, whose seconds may be missing. -/
def time? (cs : List Char) : Option (List Char) := do
  let (hour, cs) ← fixedNumber 2 cs
  let (minute, cs) ← fixedNumber 2 (← after ':' cs)
  if 23 < hour || 59 < minute then none
  else match cs with
    | ':' :: cs =>
      let (second, cs) ← fixedNumber 2 cs
      if 60 < second then none
      else match cs with
        | '.' :: cs =>
          if cs.head?.any Char.isDigit then some (cs.dropWhile Char.isDigit) else none
        | cs => some cs
    | cs => some cs

/-- A distance from universal time, or nothing at all. -/
def isOffset : List Char → Bool
  | [] => true
  | [c] => c == 'Z' || c == 'z'
  | c :: cs =>
    (c == '+' || c == '-') &&
      match fixedNumber 2 cs with
      | some (hour, ':' :: cs) =>
        match fixedNumber 2 cs with
        | some (minute, []) => hour ≤ 23 && minute ≤ 59
        | _ => false
      | _ => false

def isMoment (cs : List Char) : Bool :=
  match date? cs with
  | some [] => true
  | some (c :: rest) => (c == 'T' || c == 't' || c == ' ') && (time? rest).any isOffset
  | none => (time? cs).any List.isEmpty

/-! ## Words -/

def isWordChar (c : Char) : Bool :=
  c.isAlphanum || c == '+' || c == '-' || c == '_' || c == '.' || c == ':'

/-- The word at the front; a blank between a date and a time belongs to it. -/
def takeWord (cs : List Char) : List Char × List Char :=
  let word := cs.takeWhile isWordChar
  let rest := cs.dropWhile isWordChar
  match date? word, rest with
  | some [], ' ' :: d :: more =>
    if d.isDigit then
      (word ++ ' ' :: (d :: more).takeWhile isWordChar, (d :: more).dropWhile isWordChar)
    else (word, rest)
  | _, _ => (word, rest)

def wordValue? (word : List Char) : Option Value :=
  if word = "true".toList then some (.bool true)
  else if word = "false".toList then some (.bool false)
  else match integer? word, float? word with
    | some n, _ => if fits n then some (.integer n) else none
    | none, some x => some (.float x)
    | none, none => if isMoment word then some (.moment (String.ofList word)) else none

end BrowserAgent.Toml
