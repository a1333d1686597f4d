import BrowserAgent.Number.Decimal

/-!
# Statements as they are written

A statement is an optional binding `let name =`, an expression and an optional semicolon, with
any number of spaces and tabs between the parts. An expression is read by the first of these that
fits: a call, a quoted text, a number, a truth value, none, an item of a list, a name. A choice
once made stands, so `true [0]` is no item of a list named `true`.
-/

namespace BrowserAgent

open Number

/-- An expression as it is written; a call keeps its callee's name and its arguments' keywords. -/
inductive Phrase where
  | call (callee : String) (args : List (Option String × Phrase))
  | text (value : String)
  | number (literal : Decimal)
  | bool (value : Bool)
  | nothing
  | var (name : String)
  | item (name : String) (index : Nat)

namespace Action

/-- What a reader leaves is the rest of the line. -/
abbrev Reader (α : Type) := List Char → Option (α × List Char)

/-! ## Tokens -/

def isGap (c : Char) : Bool := c == ' ' || c == '\t'

def skipGaps (cs : List Char) : List Char := cs.dropWhile isGap

def isNameStart (c : Char) : Bool := c.isAlpha || c == '_'

def isNameChar (c : Char) : Bool := c.isAlphanum || c == '_'

/-- The given character, after any gaps. -/
def symbol? (c : Char) (cs : List Char) : Option (List Char) :=
  match skipGaps cs with
  | d :: rest => if d = c then some rest else none
  | [] => none

/-- A letter or underscore, then as many letters, digits and underscores as follow. -/
def readName : Reader (List Char)
  | c :: cs =>
    if isNameStart c then some (c :: cs.takeWhile isNameChar, cs.dropWhile isNameChar)
    else none
  | [] => none

/-- Further names, each after a point and no gap, with their points. -/
def readPath : Nat → List Char → List Char × List Char
  | fuel + 1, '.' :: cs =>
    match readName cs with
    | some (name, rest) =>
      let (more, rest) := readPath fuel rest
      ('.' :: name ++ more, rest)
    | none => ([], '.' :: cs)
  | _, cs => ([], cs)

/-- Names joined by points, without gaps. -/
def readCallee : Reader String := fun cs => do
  let (name, rest) ← readName cs
  let (more, rest) := readPath rest.length rest
  some (String.ofList (name ++ more), rest)

/-- What a backslash and the character after it stand for. -/
def unescape (c : Char) : Char := if c = 'n' then '\n' else if c = 't' then '\t' else c

/-- The text up to the closing quote. -/
def readQuoted (quote : Char) : Reader (List Char)
  | [] => none
  | '\\' :: c :: cs => (readQuoted quote cs).map fun (value, rest) => (unescape c :: value, rest)
  | c :: cs =>
    if c = quote then some ([], cs)
    else if c = '\\' then none
    else (readQuoted quote cs).map fun (value, rest) => (c :: value, rest)

def readText : Reader String
  | c :: cs =>
    if c = '"' || c = '\'' then
      (readQuoted c cs).map fun (value, rest) => (String.ofList value, rest)
    else none
  | [] => none

/-- An optional minus sign, digits, and perhaps a point with any digits after it. -/
def readNumber : Reader Decimal := fun cs =>
  let (negative, body) := match cs with
    | '-' :: more => (true, more)
    | more => (false, more)
  let whole := body.takeWhile Char.isDigit
  if whole.isEmpty then none
  else match body.dropWhile Char.isDigit with
    | '.' :: more =>
      some (.ofDigits negative whole (more.takeWhile Char.isDigit) 0, more.dropWhile Char.isDigit)
    | rest => some (.ofDigits negative whole [] 0, rest)

/-! ## Expressions -/

def trueWords : List String := ["true", "True"]

def falseWords : List String := ["false", "False"]

def noneWords : List String := ["none", "None", "null"]

/-- The index in square brackets that makes the name before it an item. -/
def readIndex : Reader Nat := fun cs => do
  let rest ← symbol? '[' cs
  let rest := skipGaps rest
  let digits := rest.takeWhile Char.isDigit
  if digits.isEmpty then none
  else
    let rest ← symbol? ']' (rest.dropWhile Char.isDigit)
    some (Decimal.digitsValue digits, rest)

/-- A truth value, none, an item or a name. -/
def readWord : Reader Phrase := fun cs => do
  let (name, rest) ← readName cs
  let name := String.ofList name
  if name ∈ trueWords then some (.bool true, rest)
  else if name ∈ falseWords then some (.bool false, rest)
  else if name ∈ noneWords then some (.nothing, rest)
  else match readIndex rest with
    | some (index, rest) => some (.item name index, rest)
    | none => some (.var name, rest)

def readAtom : Reader Phrase := fun cs =>
  (readText cs).map (fun (value, rest) => (.text value, rest)) <|>
  (readNumber cs).map (fun (literal, rest) => (.number literal, rest)) <|>
  readWord cs

def readKeywordArg (expr : Reader Phrase) : Reader (Option String × Phrase) := fun cs => do
  let (key, rest) ← readName cs
  let rest ← symbol? '=' rest
  let (value, rest) ← expr (skipGaps rest)
  some ((some (String.ofList key), value), rest)

def readArg (expr : Reader Phrase) : Reader (Option String × Phrase) := fun cs =>
  readKeywordArg expr cs <|> (expr cs).map fun (value, rest) => ((none, value), rest)

/-- Further arguments, each after a comma. -/
def readMoreArgs (expr : Reader Phrase) :
    Nat → List Char → List (Option String × Phrase) × List Char
  | 0, cs => ([], cs)
  | fuel + 1, cs =>
    match (symbol? ',' cs).bind fun rest => readArg expr (skipGaps rest) with
    | some (arg, rest) =>
      let (args, rest) := readMoreArgs expr fuel rest
      (arg :: args, rest)
    | none => ([], cs)

def readArgs (expr : Reader Phrase) (cs : List Char) :
    List (Option String × Phrase) × List Char :=
  match readArg expr (skipGaps cs) with
  | some (arg, rest) =>
    let (args, rest) := readMoreArgs expr rest.length rest
    (arg :: args, rest)
  | none => ([], cs)

def readCall (expr : Reader Phrase) : Reader Phrase := fun cs => do
  let (callee, rest) ← readCallee cs
  let rest ← symbol? '(' rest
  let (args, rest) := readArgs expr rest
  let rest ← symbol? ')' rest
  some (.call callee args, rest)

/-- An expression whose calls nest less deep than the bound. -/
def readNested : Nat → Reader Phrase
  | 0 => fun _ => none
  | depth + 1 => fun cs => readCall (readNested depth) cs <|> readAtom cs

/-- An expression; a line has no room for deeper nesting than its length. -/
def readPhrase : Reader Phrase := fun cs => readNested (cs.length + 1) cs

/-! ## Statements -/

/-- The rest after the word `let`, if the line starts with it. -/
def skipLet (cs : List Char) : List Char :=
  match readName cs with
  | some (name, rest) => if name = ['l', 'e', 't'] then rest else cs
  | none => cs

def readBinding : Reader String := fun cs => do
  let (name, rest) ← readName (skipGaps (skipLet cs))
  let rest ← symbol? '=' rest
  some (String.ofList name, rest)

/-- The name that a line binds, if any, and its expression. -/
def readStatement? (line : String) : Option (Option String × Phrase) := do
  let cs := line.toList
  let (binding, rest) := match readBinding cs with
    | some (name, rest) => (some name, rest)
    | none => (none, cs)
  let (phrase, rest) ← readPhrase (skipGaps rest)
  let rest := (symbol? ';' rest).getD rest
  if (skipGaps rest).isEmpty then some (binding, phrase) else none

end Action

end BrowserAgent
