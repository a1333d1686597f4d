import BrowserAgent.Text.Hex
import BrowserAgent.Text.Lines

/-!
# Writing TOML

A text goes into the quotes that need no escapes: double quotes, single quotes, three double quotes
and three single quotes, in this order. If every kind needs escapes it goes into double quotes,
three of them if it has several lines. A text with a line end starts on a line of its own.
-/

namespace BrowserAgent.Toml

/-- A control character that only an escape can spell. -/
def needsEscape (c : Char) : Bool :=
  (c.toNat < 0x20 && c != '\t' && c != '\n') || c.toNat == 0x7F

/-- The length of the longest run of the character. -/
def longestRun (c : Char) : Nat → List Char → Nat
  | run, [] => run
  | run, x :: xs => if x = c then longestRun c (run + 1) xs else max run (longestRun c 0 xs)

inductive Quotes where
  | double
  | single
  | tripleDouble
  | tripleSingle
deriving DecidableEq, Repr

/-- The quotes that hold the text as it is. -/
def Quotes.hold (cs : List Char) : Quotes → Bool
  | .double => !cs.any fun c => needsEscape c || c == '\\' || c == '"' || c == '\n'
  | .single => !cs.any fun c => needsEscape c || c == '\'' || c == '\n'
  | .tripleDouble => !cs.any (fun c => needsEscape c || c == '\\') && longestRun '"' 0 cs ≤ 2
  | .tripleSingle => !cs.any needsEscape && longestRun '\'' 0 cs ≤ 2

def Quotes.ofText (cs : List Char) : Quotes :=
  match [Quotes.double, .single, .tripleDouble, .tripleSingle].find? (Quotes.hold cs) with
  | some quotes => quotes
  | none => if cs.contains '\n' then .tripleDouble else .double

/-- The letter that stands for a character after a backslash. -/
def escapeLetter? (c : Char) : Option Char :=
  match c with
  | '\x08' => some 'b'
  | '\t' => some 't'
  | '\n' => some 'n'
  | '\x0c' => some 'f'
  | '\r' => some 'r'
  | '"' => some '"'
  | '\\' => some '\\'
  | _ => none

def escapeChar (c : Char) : List Char :=
  match escapeLetter? c with
  | some letter => ['\\', letter]
  | none => if needsEscape c then '\\' :: 'u' :: Text.hexCapitals 4 c.toNat else [c]

/-- The text between double quotes of which so many may stand in a row. -/
def escapeText (quotes : Nat) (keepsLines : Bool) : Nat → List Char → List Char
  | _, [] => []
  | run, c :: cs =>
    if c = '"' then
      if run < quotes then c :: escapeText quotes keepsLines (run + 1) cs
      else escapeChar c ++ escapeText quotes keepsLines 0 cs
    else
      (if c = '\n' && keepsLines then [c] else escapeChar c) ++ escapeText quotes keepsLines 0 cs

def quotedText (s : String) : List Char :=
  let cs := s.toList
  let first := if cs.contains '\n' then ['\n'] else []
  match Quotes.ofText cs with
  | .double => '"' :: escapeText 0 false 0 cs ++ ['"']
  | .single => '\'' :: cs ++ ['\'']
  | .tripleDouble => '"' :: '"' :: '"' :: first ++ escapeText 2 true 0 cs ++ ['"', '"', '"']
  | .tripleSingle => '\'' :: '\'' :: '\'' :: first ++ cs ++ ['\'', '\'', '\'']

/-- A list of texts: on one line if it has at most one item, else one line for each. -/
def textList : List String → List Char
  | [] => ['[', ']']
  | [item] => '[' :: quotedText item ++ [']']
  | items =>
    let line (item : String) := "    ".toList ++ quotedText item ++ [',', '\n']
    '[' :: '\n' :: items.flatMap line ++ [']']

end BrowserAgent.Toml
