import BrowserAgent.Yaml.Node

/-!
# Walking through YAML text

A cursor knows what is left of the text, where it is, and whether a key on one line may start
there. Between tokens there are blanks, comments and line breaks. A tab is a gap only where no key
may start, so that it never counts as indentation.
-/

namespace BrowserAgent.Yaml

structure Cursor where
  rest : List Char
  /-- The bytes passed so far. -/
  index : Nat
  line : Nat
  /-- The characters passed on this line. -/
  column : Nat
  keyAllowed : Bool

namespace Cursor

def start (text : List Char) : Cursor := ⟨text, 0, 0, 0, true⟩

def mark (c : Cursor) : Mark := ⟨c.index, c.line, c.column⟩

/-- A fault at the cursor, met while something that starts at the mark is being read. -/
def fault {α : Type} (c : Cursor) (problem : Problem) (activity : Activity) (start : Mark) :
    Except FormFault α :=
  .error ⟨problem, c.mark, some (activity, start)⟩

/-- How many bytes the characters take. -/
def byteCount (cs : List Char) : Nat := cs.foldl (fun n x => n + x.utf8Size) 0

/-- Behind characters that hold no break. -/
def pass (n : Nat) (c : Cursor) : Cursor :=
  { c with
    rest := c.rest.drop n, index := c.index + byteCount (c.rest.take n), column := c.column + n }

/-- Behind a break; a line feed directly after a carriage return belongs to it. -/
def passBreak (c : Cursor) : Cursor :=
  let n := match c.rest with
    | '\r' :: '\n' :: _ => 2
    | _ => 1
  { c with
    rest := c.rest.drop n, index := c.index + byteCount (c.rest.take n), line := c.line + 1
    column := 0 }

/-- What the break at the cursor is read as. -/
def breakChar (c : Cursor) : Char :=
  match c.rest with
  | '\u2028' :: _ => '\u2028'
  | '\u2029' :: _ => '\u2029'
  | _ => '\n'

def atBreak (c : Cursor) : Bool := c.rest.head?.any isBreak

def allowKey (allowed : Bool) (c : Cursor) : Cursor := { c with keyAllowed := allowed }

/-- Behind the characters that pass the test, none of which is a break. -/
def passWhile (p : Char → Bool) (c : Cursor) : Cursor := c.pass (c.rest.takeWhile p).length

def passBlanks (inFlow : Bool) (c : Cursor) : Cursor :=
  c.passWhile fun x => x == ' ' || (x == '\t' && (inFlow || !c.keyAllowed))

def passComment (c : Cursor) : Cursor :=
  if c.rest.head? = some '#' then c.passWhile fun x => !isBreak x else c

/-- Behind a byte order mark, which may start a line and takes a column. -/
def passOrderMark (c : Cursor) : Cursor :=
  if c.column = 0 && c.rest.head? = some '\uFEFF' then c.pass 1 else c

/-- At the next token, or at the end. -/
def skip (inFlow : Bool) : Nat → Cursor → Cursor
  | 0, c => c
  | fuel + 1, c =>
    let c := (c.passOrderMark.passBlanks inFlow).passComment
    -- Outside flow collections a new line may start with a key.
    if c.atBreak then skip inFlow fuel (c.passBreak.allowKey (c.keyAllowed || !inFlow)) else c

def toToken (inFlow : Bool) (c : Cursor) : Cursor := c.skip inFlow (c.rest.length + 1)

/-- The three characters stand at the start of a line, with a gap after them. -/
def atMark (mark : List Char) (c : Cursor) : Bool :=
  c.column == 0 && mark.isPrefixOf c.rest && atGap (c.rest.drop 3)

def atDocumentStart (c : Cursor) : Bool := c.atMark ['-', '-', '-']

def atDocumentEnd (c : Cursor) : Bool := c.atMark ['.', '.', '.']

/-- No more tokens of this document follow. -/
def isDone (c : Cursor) : Bool := c.rest.isEmpty || c.atDocumentStart || c.atDocumentEnd

end Cursor

end BrowserAgent.Yaml
