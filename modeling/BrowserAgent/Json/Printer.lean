import BrowserAgent.Json.Value

/-!
# Writing JSON

Two layouts: on one line without blanks, and over several lines with two spaces for each level,
where an empty list or object stays on one line.
-/

namespace BrowserAgent

namespace JsonValue

def hexFour (n : Nat) : List Char :=
  [n / 4096 % 16, n / 256 % 16, n / 16 % 16, n % 16].map Nat.digitChar

/-- A character inside quotes. Only quotes, backslashes and control characters are escaped. -/
def escapeChar (c : Char) : List Char :=
  if c = '"' then ['\\', '"']
  else if c = '\\' then ['\\', '\\']
  else if c = '\n' then ['\\', 'n']
  else if c = '\r' then ['\\', 'r']
  else if c = '\t' then ['\\', 't']
  else if c.toNat = 8 then ['\\', 'b']
  else if c.toNat = 12 then ['\\', 'f']
  else if c.toNat < 32 then '\\' :: 'u' :: hexFour c.toNat
  else [c]

def quoted (s : String) : String :=
  String.ofList ('"' :: s.toList.flatMap escapeChar ++ ['"'])

mutual

def compact : JsonValue → String
  | null => "null"
  | bool value => toString value
  | number literal => literal
  | text value => quoted value
  | list items => "[" ++ compactItems items ++ "]"
  | object members => "\x7b" ++ compactMembers members ++ "\x7d"

def compactItems : List JsonValue → String
  | [] => ""
  | [item] => compact item
  | item :: next :: more => compact item ++ "," ++ compactItems (next :: more)

def compactMembers : List (String × JsonValue) → String
  | [] => ""
  | [(name, value)] => quoted name ++ ":" ++ compact value
  | (name, value) :: next :: more =>
    quoted name ++ ":" ++ compact value ++ "," ++ compactMembers (next :: more)

end

/-- A new line, two spaces in for each level. -/
def newLine (level : Nat) : String := String.ofList ('\n' :: List.replicate (2 * level) ' ')

mutual

/-- The value over several lines, its inner lines one level deeper than the given one. -/
def pretty (level : Nat) : JsonValue → String
  | null => "null"
  | bool value => toString value
  | number literal => literal
  | text value => quoted value
  | list [] => "[]"
  | list (item :: more) =>
    "[" ++ prettyItems (level + 1) (item :: more) ++ newLine level ++ "]"
  | object [] => "\x7b\x7d"
  | object (member :: more) =>
    "\x7b" ++ prettyMembers (level + 1) (member :: more) ++ newLine level ++ "\x7d"

def prettyItems (level : Nat) : List JsonValue → String
  | [] => ""
  | [item] => newLine level ++ pretty level item
  | item :: next :: more =>
    newLine level ++ pretty level item ++ "," ++ prettyItems level (next :: more)

def prettyMembers (level : Nat) : List (String × JsonValue) → String
  | [] => ""
  | [(name, value)] => newLine level ++ quoted name ++ ": " ++ pretty level value
  | (name, value) :: next :: more =>
    newLine level ++ quoted name ++ ": " ++ pretty level value ++ "," ++
      prettyMembers level (next :: more)

end

end JsonValue

end BrowserAgent
