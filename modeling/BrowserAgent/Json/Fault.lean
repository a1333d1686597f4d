import BrowserAgent.Mismatch

/-!
# Why a JSON text is not read
-/

namespace BrowserAgent.Json

inductive Problem where
  | endInList
  | endInObject
  | endInText
  | endInValue
  | colon
  | listComma
  | objectComma
  | word
  | value
  | escape
  | number
  | range
  | control
  | key
  | half
  | halfEnd
  | lastComma
  | more
  | mismatch (cause : Mismatch)
deriving DecidableEq, Repr

def Problem.message : Problem → String
  | endInList => "EOF while parsing a list"
  | endInObject => "EOF while parsing an object"
  | endInText => "EOF while parsing a string"
  | endInValue => "EOF while parsing a value"
  | colon => "expected `:`"
  | listComma => "expected `,` or `]`"
  | objectComma => "expected `,` or `\x7d`"
  | word => "expected ident"
  | value => "expected value"
  | escape => "invalid escape"
  | number => "invalid number"
  | range => "number out of range"
  | control => "control character (\\u0000-\\u001F) found while parsing a string"
  | key => "key must be a string"
  | half => "lone leading surrogate in hex escape"
  | halfEnd => "unexpected end of hex escape"
  | lastComma => "trailing comma"
  | more => "trailing characters"
  | mismatch cause => cause.message

/-- What is wrong, and where: the line, from one, and the bytes before it on that line. -/
structure Fault where
  problem : Problem
  line : Nat
  column : Nat
deriving DecidableEq, Repr

namespace Fault

def message (f : Fault) : String :=
  f.problem.message ++ " at line " ++ toString f.line ++ " column " ++ toString f.column

/-- What is wrong behind so many bytes of the text. -/
def behind (text : String) (problem : Problem) (index : Nat) : Fault :=
  let before := text.toUTF8.toList.take index
  ⟨problem, before.count 10 + 1, (before.reverse.takeWhile (· != 10)).length⟩

end Fault

end BrowserAgent.Json
