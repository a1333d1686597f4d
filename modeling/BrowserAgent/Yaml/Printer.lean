import BrowserAgent.Json.Value
import BrowserAgent.Yaml.Node
import BrowserAgent.Yaml.Plain

/-!
# Writing YAML

Values are written in blocks, a list at the column of its key, and empty collections between
brackets. A text with a line feed is written line by line, any other one without quotes if it then
reads back as itself, else in single quotes, and in double quotes where those cannot hold it. Lines
are never folded.
-/

namespace BrowserAgent.Yaml

/-! ## How a text may be written -/

/-- A character that can be shown as it is. -/
def isPrintable (c : Char) : Bool :=
  let n := c.toNat
  n == 10 || (0x20 ≤ n && n ≤ 0x7E) || (0xA0 ≤ n && n ≤ 0xFFFD && n != 0xFEFF) || 0x10000 ≤ n

/-- The first of the characters stands directly before the second somewhere. -/
def hasPair (first second : Char → Bool) : List Char → Bool
  | x :: y :: more => (first x && second y) || hasPair first second (y :: more)
  | _ => false

/-- Characters that start something other than a plain text. -/
def startIndicators : List Char :=
  ['#', ',', '[', ']', '\x7b', '\x7d', '&', '*', '!', '|', '>', '\'', '"', '%', '@', '\x60']

/-- The text would be taken for something else where it starts. -/
def startsLikeMark : List Char → Bool
  | [] => false
  | x :: more =>
    startIndicators.contains x || ((x == '?' || x == ':' || x == '-') && atGap more) ||
      ['-', '-', '-'].isPrefixOf (x :: more) || ['.', '.', '.'].isPrefixOf (x :: more)

/-- A colon with a gap after it, or a number sign with one before it, behind the first character. -/
def holdsMark : List Char → Bool
  | x :: y :: more =>
    (y == ':' && atGap more) || (y == '#' && atGap [x]) || holdsMark (y :: more)
  | _ => false

def isSpaceOrBreak (c : Char) : Bool := c == ' ' || isBreak c

def fitsSingle (cs : List Char) : Bool :=
  cs.all isPrintable && !hasPair isBreak (· == ' ') cs && !hasPair (· == ' ') isBreak cs

def fitsPlain (cs : List Char) : Bool :=
  fitsSingle cs && !cs.any isBreak &&
    !cs.head?.any isSpaceOrBreak && !cs.getLast?.any isSpaceOrBreak &&
    !startsLikeMark cs && !holdsMark cs

/-- The text can be written line by line. -/
def fitsLines (cs : List Char) : Bool :=
  cs.all isPrintable && !hasPair (· == ' ') isBreak cs && cs.getLast? != some ' '

inductive Style where
  | plain
  | single
  | double
  | lines
deriving DecidableEq, Repr

def styleOf (s : String) : Style :=
  let cs := s.toList
  if cs.contains '\n' then (if fitsLines cs then .lines else .double)
  else if !isAmbiguous s && fitsPlain cs then .plain
  else if fitsSingle cs then .single
  else .double

/-! ## Texts -/

def spaces (n : Nat) : List Char := List.replicate n ' '

/-- The characters, with the indentation before each one that follows a break. -/
def indentLines (indent : Nat) : Bool → List Char → List Char
  | _, [] => []
  | afterBreak, c :: cs =>
    if isBreak c then c :: indentLines indent true cs
    else (if afterBreak then spaces indent else []) ++ c :: indentLines indent false cs

def singleQuoted (indent : Nat) (cs : List Char) : List Char :=
  let doubled := cs.flatMap fun c => if c = '\'' then ['\'', '\''] else [c]
  let close := if cs.getLast?.any isBreak then spaces indent else []
  '\'' :: indentLines indent false doubled ++ close ++ ['\'']

/-- The letter that stands for a character after a backslash. -/
def escapeLetter? (c : Char) : Option Char :=
  match c.toNat with
  | 0 => some '0'
  | 7 => some 'a'
  | 8 => some 'b'
  | 9 => some 't'
  | 10 => some 'n'
  | 11 => some 'v'
  | 12 => some 'f'
  | 13 => some 'r'
  | 27 => some 'e'
  | 34 => some '"'
  | 92 => some '\\'
  | 0x85 => some 'N'
  | 0x2028 => some 'L'
  | 0x2029 => some 'P'
  | _ => none

def escapeChar (c : Char) : List Char :=
  match escapeLetter? c with
  | some letter => ['\\', letter]
  | none =>
    let n := c.toNat
    if isPrintable c then [c]
    else if n ≤ 0xFF then '\\' :: 'x' :: Text.hexCapitals 2 n
    else if n ≤ 0xFFFF then '\\' :: 'u' :: Text.hexCapitals 4 n
    else '\\' :: 'U' :: Text.hexCapitals 8 n

def doubleQuoted (cs : List Char) : List Char := '"' :: cs.flatMap escapeChar ++ ['"']

/-- The marks after the bar: how far the lines are indented, if the first one does not show it, and
what becomes of the breaks at the end. -/
def lineMarks (cs : List Char) : List Char :=
  (if cs.head?.any isSpaceOrBreak then ['2'] else []) ++
    match cs.reverse with
    | last :: before :: _ =>
      if !isBreak last then ['-'] else if isBreak before then ['+'] else []
    | [last] => if isBreak last then ['+'] else ['-']
    | [] => ['-']

/-- A text, its lines so far to the right, with the end of its last line. -/
def scalarLine (indent : Nat) (s : String) : List Char :=
  let cs := s.toList
  match styleOf s with
  | .plain => cs ++ ['\n']
  | .single => singleQuoted indent cs ++ ['\n']
  | .double => doubleQuoted cs ++ ['\n']
  | .lines =>
    '|' :: lineMarks cs ++ '\n' :: indentLines indent true cs ++
      (if cs.getLast?.any isBreak then [] else ['\n'])

/-! ## Values -/

mutual

/-- What stands behind a key of a map at the column, its lines included. -/
def afterKey (column : Nat) : JsonValue → List Char
  | .null => " null\n".toList
  | .bool value => ' ' :: (toString value).toList ++ ['\n']
  | .number literal => ' ' :: literal.toList ++ ['\n']
  | .text value => ' ' :: scalarLine (column + 2) value
  | .list [] => " []\n".toList
  | .list (item :: more) => '\n' :: spaces column ++ listLines column (item :: more)
  | .object [] => " \x7b\x7d\n".toList
  | .object (member :: more) =>
    '\n' :: spaces (column + 2) ++ mapLines (column + 2) (member :: more)

/-- What stands behind the dash of an item at the column. -/
def afterDash (column : Nat) : JsonValue → List Char
  | .null => " null\n".toList
  | .bool value => ' ' :: (toString value).toList ++ ['\n']
  | .number literal => ' ' :: literal.toList ++ ['\n']
  | .text value => ' ' :: scalarLine (column + 2) value
  | .list [] => " []\n".toList
  | .list (item :: more) => ' ' :: listLines (column + 2) (item :: more)
  | .object [] => " \x7b\x7d\n".toList
  | .object (member :: more) => ' ' :: mapLines (column + 2) (member :: more)

/-- The items of a list, the first of which starts at the column. -/
def listLines (column : Nat) : List JsonValue → List Char
  | [] => []
  | [item] => '-' :: afterDash column item
  | item :: next :: more =>
    '-' :: afterDash column item ++ spaces column ++ listLines column (next :: more)

/-- The members of a map, the first of which starts at the column. -/
def mapLines (column : Nat) : List (String × JsonValue) → List Char
  | [] => []
  | [(name, value)] => name.toList ++ ':' :: afterKey column value
  | (name, value) :: next :: more =>
    name.toList ++ ':' :: afterKey column value ++ spaces column ++ mapLines column (next :: more)

end

/-- The text of an object whose names need no quotes. -/
def render (members : List (String × JsonValue)) : String := String.ofList (mapLines 0 members)

end BrowserAgent.Yaml
