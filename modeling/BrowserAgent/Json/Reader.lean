import BrowserAgent.Json.Fault
import BrowserAgent.Number.Decimal
import BrowserAgent.Number.Shortest
import BrowserAgent.Text.Hex

/-!
# Reading JSON

A reader walks through the text and stops at the first thing that is wrong. A value that nobody asks
for is passed over: of it only the form counts. A character beyond `\uFFFF` may be spelled by two
escapes in a row, a half by each.
-/

namespace BrowserAgent.Json

structure Cursor where
  rest : List Char
  /-- The bytes passed so far. -/
  index : Nat

/-- Where a reader stops, in bytes, and why. -/
structure Stop where
  problem : Problem
  index : Nat

abbrev Reader := StateT Cursor (Except Stop)

namespace Cursor

def pass (n : Nat) (c : Cursor) : Cursor :=
  ⟨c.rest.drop n, (c.rest.take n).foldl (fun i x => i + x.utf8Size) c.index⟩

end Cursor

namespace Reader

def isBlank (c : Char) : Bool := c == ' ' || c == '\n' || c == '\r' || c == '\t'

def peek : Reader (Option Char) := do return (← get).rest.head?

def pass (n : Nat) : Reader Unit := modify (Cursor.pass n)

def takeWhile (p : Char → Bool) : Reader (List Char) := do
  let found := (← get).rest.takeWhile p
  pass found.length
  return found

/-- The character behind blanks. -/
def peekValue : Reader (Option Char) := do
  let _ ← takeWhile isBlank
  peek

/-- The problem shows behind so many more bytes. -/
def refuseAfter {α : Type} (bytes : Nat) (problem : Problem) : Reader α := do
  throw ⟨problem, (← get).index + bytes⟩

def refuse {α : Type} (problem : Problem) : Reader α := refuseAfter 0 problem

/-- The next character, if there is one, is a problem. -/
def refuseNext {α : Type} (problem : Problem) : Reader α := do
  refuseAfter (if (← peek).isSome then 1 else 0) problem

def readWord : List Char → Reader Unit
  | [] => return
  | c :: more => do
    match ← peek with
    | none => refuse .endInValue
    | some x =>
      if x = c then
        pass 1
        readWord more
      else refuseAfter 1 .word

/-! ## Texts -/

/-- What a letter after a backslash stands for. -/
def unescape? : Char → Option Char
  | '"' => some '"'
  | '\\' => some '\\'
  | '/' => some '/'
  | 'b' => some '\x08'
  | 'f' => some '\x0c'
  | 'n' => some '\n'
  | 'r' => some '\r'
  | 't' => some '\t'
  | _ => none

def readHex : Reader Nat := do
  let digits := (← get).rest.take 4
  let size := digits.foldl (fun n x => n + x.utf8Size) 0
  if size < 4 then refuseAfter size .endInText
  else if digits.length = 4 then
    match Text.hexValue? digits with
    | some n =>
      pass 4
      return n
    | none => refuseAfter 4 .escape
  else refuseAfter 4 .escape

def isLowHalf (n : Nat) : Bool := 0xDC00 ≤ n && n < 0xE000

def isHighHalf (n : Nat) : Bool := 0xD800 ≤ n && n < 0xDC00

/-- The second half has to follow: this character of its escape comes next. -/
def expectHalf (x : Char) : Reader Unit := do
  match ← peek with
  | none => refuse .endInText
  | some y => if y = x then pass 1 else refuseAfter 1 .halfEnd

/-- A character that is spelled by its number. -/
def readNumbered : Reader Char := do
  let n ← readHex
  if isLowHalf n then refuse .half
  else if isHighHalf n then
    expectHalf '\\'
    expectHalf 'u'
    let low ← readHex
    if isLowHalf low then return Char.ofNat (0x10000 + (n - 0xD800) * 0x400 + (low - 0xDC00))
    else refuse .half
  else return Char.ofNat n

/-- What an escape stands for; the backslash is passed. -/
def readEscape : Reader Char := do
  match ← peek with
  | none => refuse .endInText
  | some 'u' =>
    pass 1
    readNumbered
  | some x =>
    match unescape? x with
    | some y =>
      pass 1
      return y
    | none => refuseAfter 1 .escape

def readText : Nat → Reader (List Char)
  | 0 => return []
  | fuel + 1 => do
    match ← peek with
    | none => refuse .endInText
    | some '"' =>
      pass 1
      return []
    | some '\\' =>
      pass 1
      let x ← readEscape
      return x :: (← readText fuel)
    | some x =>
      if x.toNat < 32 then refuseAfter 1 .control
      else
        pass 1
        return x :: (← readText fuel)

/-- Passes the text up to the closing quote. -/
def passText : Nat → Reader Unit
  | 0 => return
  | fuel + 1 => do
    match ← peek with
    | none => refuse .endInText
    | some '"' => pass 1
    | some '\\' =>
      pass 1
      match ← peek with
      | none => refuse .endInText
      | some 'u' =>
        pass 1
        -- Halves of characters may stand alone here.
        let _ ← readHex
      | some x => if (unescape? x).isSome then pass 1 else refuseAfter 1 .escape
      passText fuel
    | some x =>
      if x.toNat < 32 then refuse .control
      else
        pass 1
        passText fuel

/-- Enough steps for what is left of the text. -/
def fuel : Reader Nat := do return (← get).rest.length + 1

/-! ## Numbers -/

/-- The digits of a whole number, without zeros in front. -/
def readWhole (atEnd : Problem) : Reader (List Char) := do
  match ← peek with
  | none => refuse atEnd
  | some '0' =>
    pass 1
    if (← peek).any Char.isDigit then refuseNext .number else return ['0']
  | some x => if x.isDigit then takeWhile Char.isDigit else refuseAfter 1 .number

def readFraction (atEnd : Problem) : Reader (List Char) := do
  if (← peek) = some '.' then
    pass 1
    let digits ← takeWhile Char.isDigit
    if digits.isEmpty then refuseNext (if (← peek).isNone then atEnd else .number)
    else return '.' :: digits
  else return []

def readExponent (atEnd : Problem) : Reader (List Char) := do
  if (← peek).any fun x => x == 'e' || x == 'E' then
    pass 1
    let sign := (← get).rest.take 1 |>.filter fun x => x == '+' || x == '-'
    pass sign.length
    match ← peek with
    | none => refuse atEnd
    | some x =>
      if x.isDigit then return 'e' :: sign ++ (← takeWhile Char.isDigit)
      else refuseAfter 1 .number
  else return []

/-- A number without its sign: its whole part, and what follows that. -/
def readDigits (atEnd : Problem) : Reader (List Char × List Char) := do
  let whole ← readWhole atEnd
  return (whole, (← readFraction atEnd) ++ (← readExponent atEnd))

/-- A whole number of at most 64 bits is an integer. -/
def asInteger? (negative : Bool) (whole : List Char) : Option Int :=
  let n := Number.Decimal.digitsValue whole
  if negative then (if 0 < n && n ≤ Nat.pow 2 63 then some (-Int.ofNat n) else none)
  else if n < Nat.pow 2 64 then some (Int.ofNat n)
  else none

/-- The number, as what stands where it is not wanted. -/
def readNumber (negative : Bool) : Reader Found := do
  let (whole, tail) ← readDigits .endInValue
  match if tail.isEmpty then asInteger? negative whole else none with
  | some n => return .integer n
  | none =>
    let literal := (if negative then ['-'] else []) ++ whole ++ tail
    match Number.Decimal.readNumber? Number.double (String.ofList literal) with
    | some (.finite sign significand exponent) =>
      return .decimal
        (Number.jsonNumber.render Number.double (.finite sign significand exponent))
    | _ => refuse .range

/-! ## Values that nobody asks for -/

mutual

def passValue : Nat → Reader Unit
  | 0 => return
  | fuel + 1 => do
    match ← peekValue with
    | none => refuse .endInValue
    | some '"' =>
      pass 1
      passText (← Reader.fuel)
    | some '[' =>
      pass 1
      if (← peekValue) = some ']' then pass 1
      else if (← peek).isNone then refuse .endInList
      else passItems fuel
    | some '\x7b' =>
      pass 1
      if (← peekValue) = some '\x7d' then pass 1 else passMembers fuel
    | some 'n' => readWord ['n', 'u', 'l', 'l']
    | some 't' => readWord ['t', 'r', 'u', 'e']
    | some 'f' => readWord ['f', 'a', 'l', 's', 'e']
    | some '-' =>
      pass 1
      let _ ← readDigits .number
    | some x =>
      if x.isDigit then
        let _ ← readDigits .number
      else refuseNext .value

/-- One item or more, up to the closing bracket. -/
def passItems : Nat → Reader Unit
  | 0 => return
  | fuel + 1 => do
    passValue fuel
    match ← peekValue with
    | some ',' =>
      pass 1
      passItems fuel
    | some ']' => pass 1
    | some _ => refuseNext .listComma
    | none => refuse .endInList

/-- One member or more, up to the closing brace. -/
def passMembers : Nat → Reader Unit
  | 0 => return
  | fuel + 1 => do
    match ← peekValue with
    | some '"' => pass 1
    | some _ => refuseNext .key
    | none => refuse .endInObject
    passText (← Reader.fuel)
    match ← peekValue with
    | some ':' => pass 1
    | some _ => refuseNext .colon
    | none => refuse .endInObject
    passValue fuel
    match ← peekValue with
    | some ',' =>
      pass 1
      passMembers fuel
    | some '\x7d' => pass 1
    | some _ => refuseNext .objectComma
    | none => refuse .endInObject

end

end Reader

end BrowserAgent.Json
