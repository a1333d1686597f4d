import BrowserAgent.Toml.Scalar

/-!
# Reading TOML

A text is a sequence of lines: a header, a key with its value, or neither. A comment may end any
line. Between brackets and braces lines may end anywhere but inside a key. Brackets and braces go
only so deep, and a key has only so many names.
-/

namespace BrowserAgent.Toml

/-! ## Gaps -/

def skipSpaces (cs : List Char) : List Char := cs.dropWhile isSpace

/-- What follows a comment, from its line end on. -/
def skipComment : List Char → Option (List Char)
  | [] => some []
  | '\n' :: cs => some ('\n' :: cs)
  | '\r' :: '\n' :: cs => some ('\r' :: '\n' :: cs)
  | c :: cs => if isRefused c then none else skipComment cs

/-- The end of a line: blanks, a comment, and a line end unless the text ends. -/
def endLine (cs : List Char) : Option (List Char) :=
  let rest := match skipSpaces cs with
    | '#' :: cs => skipComment cs
    | cs => some cs
  match rest with
  | some [] => some []
  | some cs => afterLineEnd? cs
  | none => none

def skipLines : Nat → List Char → Option (List Char)
  | 0, _ => none
  | fuel + 1, cs =>
    match skipSpaces cs with
    | '#' :: cs => (skipComment cs).bind (skipLines fuel)
    | cs =>
      match afterLineEnd? cs with
      | some cs => skipLines fuel cs
      | none => some cs

def skipGaps (cs : List Char) : Option (List Char) := skipLines (cs.length + 1) cs

/-! ## Keys -/

def isKeyChar (c : Char) : Bool := c.isAlphanum || c == '_' || c == '-'

def readName (cs : List Char) : Option (String × List Char) :=
  match cs with
  | '"' :: _ | '\'' :: _ => readText false cs
  | cs =>
    let word := cs.takeWhile isKeyChar
    if word.isEmpty then none else some (String.ofList word, cs.dropWhile isKeyChar)

/-- How many names a key may have, and how many brackets and braces may enclose a value. -/
def depthLimit : Nat := 80

/-- At most so many names with points between them: those before the last one, and the last one. -/
def readNames : Nat → List Char → Option ((List String × String) × List Char)
  | 0, _ => none
  | limit + 1, cs => do
    let (name, rest) ← readName (skipSpaces cs)
    match skipSpaces rest with
    | '.' :: rest =>
      let ((path, last), rest) ← readNames limit rest
      return ((name :: path, last), rest)
    | rest => return (([], name), rest)

def readKey (cs : List Char) : Option ((List String × String) × List Char) :=
  readNames depthLimit cs

/-! ## Values -/

mutual

/-- A value that holds brackets and braces of at most the given depth. -/
def readValue (depth : Nat) : Nat → List Char → Option (Value × List Char)
  | 0, _ => none
  | fuel + 1, cs =>
    match cs, depth with
    | '"' :: _, _ | '\'' :: _, _ => (readText true cs).map fun (t, rest) => (.text t, rest)
    | '[' :: cs, depth + 1 =>
      (readItems depth fuel cs).map fun (items, rest) => (.list items false, rest)
    | '\x7b' :: cs, depth + 1 =>
      (readMembers depth fuel [] cs).map fun (members, rest) => (.table .closed members, rest)
    | cs, _ =>
      let (word, rest) := takeWord cs
      (wordValue? word).map (·, rest)

def readItems (depth : Nat) : Nat → List Char → Option (List Value × List Char)
  | 0, _ => none
  | fuel + 1, cs =>
    match skipGaps cs with
    | none => none
    | some (']' :: rest) => some ([], rest)
    | some cs =>
      match readValue depth fuel cs with
      | none => none
      | some (item, rest) =>
        match skipGaps rest with
        | some (',' :: rest) =>
          (readItems depth fuel rest).map fun (items, rest) => (item :: items, rest)
        | some (']' :: rest) => some ([item], rest)
        | _ => none

/-- The rest of a table in braces, after the given members. -/
def readMembers (depth : Nat) : Nat → Members → List Char → Option (Members × List Char)
  | 0, _, _ => none
  | fuel + 1, before, cs =>
    match skipGaps cs with
    | none => none
    | some ('\x7d' :: rest) => some (before, rest)
    | some cs =>
      match readKey cs with
      | none => none
      | some ((path, key), rest) =>
        match (skipGaps rest).bind (after '=') |>.bind skipGaps with
        | none => none
        | some rest =>
          match readValue depth fuel rest with
          | none => none
          | some (value, rest) =>
            match Members.addAt? path key value before, skipGaps rest with
            | some members, some (',' :: rest) => readMembers depth fuel members rest
            | some members, some ('\x7d' :: rest) => some (members, rest)
            | _, _ => none

end

/-! ## Lines -/

/-- The lines of a text: the members so far, and the header that the next ones belong to. -/
def readDocument : Nat → Members → List String → List Char → Option Members
  | 0, _, _, _ => none
  | fuel + 1, members, header, cs =>
    match skipSpaces cs with
    | [] => some members
    | '[' :: '[' :: cs =>
      match readKey cs with
      | some ((path, key), ']' :: ']' :: rest) => do
        let members ← Members.within? false path (Members.openItem? key) members
        readDocument fuel members (path ++ [key]) (← endLine rest)
      | _ => none
    | '[' :: cs =>
      match readKey cs with
      | some ((path, key), ']' :: rest) => do
        let members ← Members.within? false path (Members.openTable? key) members
        readDocument fuel members (path ++ [key]) (← endLine rest)
      | _ => none
    | cs =>
      match endLine cs with
      | some rest => readDocument fuel members header rest
      | none =>
        match readKey cs with
        | some ((path, key), '=' :: rest) => do
          let (value, rest) ← readValue depthLimit (rest.length + 1) (skipSpaces rest)
          let members ← Members.within? false header (Members.addAt? path key value) members
          readDocument fuel members header (← endLine rest)
        | _ => none

/-- The members of the table that a text holds. -/
def read (s : String) : Option Members :=
  let text := match s.toList with
    -- A byte order mark may come first.
    | '\uFEFF' :: rest => rest
    | rest => rest
  readDocument (text.length + 1) [] [] text

end BrowserAgent.Toml
