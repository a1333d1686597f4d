import BrowserAgent.Yaml.Scalar

/-!
# YAML tokens

A text is cut into tokens from left to right. Columns decide which block collections a token opens
or closes. Where a key on one line could start, the place is kept in mind: if a colon follows in
time, a key starts there after all. Between brackets columns mean nothing.

A token is settled once no key can start at it any more. Where the text cannot be cut on, the tokens
that are settled count, and behind them stands what is wrong.
-/

namespace BrowserAgent.Yaml

inductive TokenKind where
  | version (major minor : Nat)
  /-- What tags start with that are written with the handle. -/
  | handle (handle : String) (start : Tag)
  | documentStart
  | documentEnd
  | blockList
  | blockMap
  | blockEnd
  | openList
  | closeList
  | openMap
  | closeMap
  | item
  | comma
  | key
  | value
  | alias (name : String)
  | anchor (name : String)
  /-- A tag, with the handle that it is written with if there is one. -/
  | tag (handle : String) (rest : Tag)
  | scalar (text : String) (isPlain : Bool)
  | textEnd
  /-- The text cannot be cut into tokens from here on. -/
  | broken (fault : Fault)
deriving DecidableEq, Repr

structure Token where
  kind : TokenKind
  start : Mark
  stop : Mark
deriving DecidableEq, Repr

/-! ## Names and tags -/

def isNameChar (x : Char) : Bool := x.isAlphanum || x == '_' || x == '-'

/-- What may follow the name of an anchor or an alias. -/
def endsName (rest : List Char) : Bool :=
  atGap rest || rest.head?.any fun x => ['?', ':', ',', ']', '\x7d', '%', '@', '\x60'].contains x

/-- The name after the character at the cursor. -/
def readName (activity : Activity) (c : Cursor) : Except FormFault (String × Cursor) :=
  let word := c.rest.tail.takeWhile isNameChar
  let next := (c.pass 1).pass word.length
  if !word.isEmpty && endsName next.rest then .ok (String.ofList word, next)
  else next.fault .name activity c.mark

/-- A byte of a tag that is written as an escape, if it may stand there. -/
def readEscapedByte (isFine : Nat → Bool) (problem : Problem) (activity : Activity) (start : Mark)
    (c : Cursor) : Except FormFault (Nat × Cursor) :=
  match c.rest with
  | '%' :: a :: b :: _ =>
    match Text.hexValue? [a, b] with
    | some byte => if isFine byte then .ok (byte, c.pass 3) else c.fault problem activity start
    | none => c.fault .escapedByte activity start
  | _ => c.fault .escapedByte activity start

/-- How many bytes follow the first one of a character. -/
def tailLength? (byte : Nat) : Option Nat :=
  if byte < 0x80 then some 0
  else if byte / 32 = 6 then some 1
  else if byte / 16 = 14 then some 2
  else if byte / 8 = 30 then some 3
  else none

/-- The bytes of an escaped character after its first one. -/
def readTailBytes (activity : Activity) (start : Mark) :
    Nat → Cursor → Except FormFault (Tag × Cursor)
  | 0, c => .ok ([], c)
  | n + 1, c => do
    let (byte, c) ← readEscapedByte (fun b => b / 64 == 2) .laterByte activity start c
    let (bytes, c) ← readTailBytes activity start n c
    return (UInt8.ofNat byte :: bytes, c)

/-- The bytes of one escaped character: as many as its first one says. -/
def readEscapedChar (activity : Activity) (start : Mark) (c : Cursor) :
    Except FormFault (Tag × Cursor) := do
  let (byte, c) ← readEscapedByte (fun b => (tailLength? b).isSome) .firstByte activity start c
  let (bytes, c) ← readTailBytes activity start ((tailLength? byte).getD 0) c
  return (UInt8.ofNat byte :: bytes, c)

def isTagChar (inBrackets : Bool) (x : Char) : Bool :=
  isNameChar x || [';', '/', '?', ':', '@', '&', '=', '+', '$', '.', '!', '~', '*', '\'', '(',
    ')'].contains x || (inBrackets && [',', '[', ']'].contains x)

/-- The characters of a tag with their escapes read. -/
def readTagChars (inBrackets : Bool) (activity : Activity) (start : Mark) :
    Nat → Cursor → Except FormFault (Tag × Cursor)
  | 0, c => .ok ([], c)
  | fuel + 1, c =>
    match c.rest with
    | '%' :: _ => do
      let (bytes, c) ← readEscapedChar activity start c
      let (more, c) ← readTagChars inBrackets activity start fuel c
      return (bytes ++ more, c)
    | x :: _ =>
      if isTagChar inBrackets x then do
        let (more, c) ← readTagChars inBrackets activity start fuel (c.pass 1)
        return (UInt8.ofNat x.toNat :: more, c)
      else .ok ([], c)
    | [] => .ok ([], c)

/-- The text of a tag behind what was read of it so far; there has to be some. -/
def readTagText (inBrackets : Bool) (activity : Activity) (start : Mark) (before : Tag)
    (c : Cursor) : Except FormFault (Tag × Cursor) := do
  let (bytes, next) ← readTagChars inBrackets activity start (c.rest.length + 1) c
  if before.isEmpty && bytes.isEmpty then next.fault .tagText activity start
  else return (before ++ bytes, next)

/-- The start of a tag: a mark, letters, and a second mark if there is one. -/
def readHandle (activity : Activity) (start : Mark) (c : Cursor) :
    Except FormFault (List Char × Cursor) :=
  match c.rest with
  | '!' :: more =>
    let word := more.takeWhile isNameChar
    let isNamed := (more.drop word.length).head? = some '!'
    let handle := if isNamed then '!' :: word ++ ['!'] else '!' :: word
    .ok (handle, c.pass handle.length)
  | _ => c.fault .tagMark activity start

def isWholeHandle (handle : List Char) : Bool := 1 < handle.length && handle.getLast? == some '!'

/-- A tag in angle brackets, which is whole. -/
def readWholeTag (start : Mark) (c : Cursor) : Except FormFault (TokenKind × Cursor) := do
  let (bytes, c) ← readTagText true .tagText start [] (c.pass 2)
  if c.rest.head? = some '>' then return (.tag "" bytes, c.pass 1) else c.fault .tagEnd .tag start

def readShortTag (start : Mark) (c : Cursor) : Except FormFault (TokenKind × Cursor) := do
  let (handle, c) ← readHandle .tag start c
  if isWholeHandle handle then
    let (bytes, c) ← readTagText false .tagText start [] c
    return (.tag (String.ofList handle) bytes, c)
  else
    let letters := handle.tail.map fun x => UInt8.ofNat x.toNat
    let (bytes, c) ← readTagChars false .tagText start (c.rest.length + 1) c
    -- A single mark is a tag of its own.
    if letters.isEmpty && bytes.isEmpty then return (.tag "" [0x21], c)
    else return (.tag "!" (letters ++ bytes), c)

def readTag (inFlow : Bool) (c : Cursor) : Except FormFault (TokenKind × Cursor) := do
  let (kind, next) ←
    if c.rest.tail.head? = some '<' then readWholeTag c.mark c else readShortTag c.mark c
  if atGap next.rest || (inFlow && next.rest.head? == some ',') then return (kind, next)
  else next.fault .gapOrLineEnd .tag c.mark

/-! ## Directives -/

/-- A number of at most nine digits. -/
def readVersionPart (start : Mark) (c : Cursor) : Except FormFault (Nat × Cursor) :=
  let digits := c.rest.takeWhile Char.isDigit
  if 9 < digits.length then (c.pass 9).fault .longVersion .version start
  else if digits.isEmpty then c.fault .versionNumber .version start
  else .ok (digits.foldl (fun n x => n * 10 + (x.toNat - '0'.toNat)) 0, c.pass digits.length)

def readVersion (start : Mark) (c : Cursor) : Except FormFault (TokenKind × Cursor) := do
  let (major, c) ← readVersionPart start (c.passWhile isBlank)
  if c.rest.head? = some '.' then
    let (minor, c) ← readVersionPart start (c.pass 1)
    return (.version major minor, c)
  else c.fault .versionPoint .version start

def readHandleMeaning (start : Mark) (c : Cursor) : Except FormFault (TokenKind × Cursor) := do
  let (handle, c) ← readHandle .handleMark start (c.passWhile isBlank)
  if !(isWholeHandle handle || handle.length == 1) then c.fault .tagMark .handleLetters start
  else if !c.rest.head?.any isBlank then c.fault .gap .handle start
  else
    let (bytes, c) ← readTagText true .handleText start [] (c.passWhile isBlank)
    if atGap c.rest then return (.handle (String.ofList handle) bytes, c)
    else c.fault .gapOrLineEnd .handle start

/-- A line that starts with a percent sign. -/
def readDirective (c : Cursor) : Except FormFault (TokenKind × Cursor) := do
  let start := c.mark
  let name := c.rest.tail.takeWhile isNameChar
  let c := (c.pass 1).pass name.length
  if name.isEmpty then c.fault .directiveName .directive start
  else if !atGap c.rest then c.fault .directiveLetter .directive start
  else
    let (kind, c) ← match String.ofList name with
      | "YAML" => readVersion start c
      | "TAG" => readHandleMeaning start c
      | _ => c.fault .directive .directive start
    let c := (c.passWhile isBlank).passComment
    if c.atBreak then return (kind, c.passBreak)
    else if c.rest.isEmpty then return (kind, c)
    else c.fault .lineEnd .directive start

/-! ## Scanning -/

/-- A place where a key on one line could start. -/
structure KeyPlace where
  /-- How many tokens come before it. -/
  before : Nat
  /-- A key has to start here. -/
  isRequired : Bool
  mark : Mark
deriving DecidableEq, Repr

structure Scan where
  cursor : Cursor
  /-- The column of the block around the cursor, or `-1`. -/
  indent : Int
  /-- The columns of the blocks around that one. -/
  indents : List Int
  /-- The place in mind, in each flow collection around the cursor and outside of them. -/
  places : List (Option KeyPlace)
  /-- The tokens so far, the last one first. -/
  tokens : List Token
  count : Nat
  /-- How many of the tokens are settled. -/
  settled : Nat
  isEnded : Bool

namespace Scan

def start (text : List Char) : Scan := ⟨.start text, -1, [], [none], [], 0, 0, false⟩

def inFlow (s : Scan) : Bool := 1 < s.places.length

/-- Adds a token that ends at the cursor. -/
def addFrom (start : Mark) (kind : TokenKind) (s : Scan) : Scan :=
  { s with tokens := ⟨kind, start, s.cursor.mark⟩ :: s.tokens, count := s.count + 1 }

/-- Adds a token without characters at the cursor. -/
def add (kind : TokenKind) (s : Scan) : Scan := s.addFrom s.cursor.mark kind

/-- Puts a token without characters at the place. -/
def insert (place : KeyPlace) (kind : TokenKind) (s : Scan) : Scan :=
  let later := s.count - place.before
  { s with
    tokens := s.tokens.take later ++ ⟨kind, place.mark, place.mark⟩ :: s.tokens.drop later
    count := s.count + 1 }

def allowKey (allowed : Bool) (s : Scan) : Scan := { s with cursor := s.cursor.allowKey allowed }

def take (n : Nat) (kind : TokenKind) (s : Scan) : Scan :=
  { s with cursor := s.cursor.pass n }.addFrom s.cursor.mark kind

def setPlace (place : Option KeyPlace) (s : Scan) : Scan :=
  { s with places := place :: s.places.tail }

/-- Nothing, if no key has to start at the place. -/
def giveUp (s : Scan) (place : KeyPlace) : Except FormFault (Option KeyPlace) :=
  if place.isRequired then s.cursor.fault .colon .simpleKey place.mark else .ok none

/-- Forgets the place in mind, unless a key has to start there. -/
def dropPlace (s : Scan) : Except FormFault Scan :=
  match s.places.head?.join with
  | some place => do return s.setPlace (← s.giveUp place)
  | none => .ok s

/-- Keeps in mind that a key could start at the cursor. -/
def keepPlace (s : Scan) : Except FormFault Scan :=
  let c := s.cursor
  if c.keyAllowed then do
    let required := !s.inFlow && s.indent == (c.column : Int)
    return (← s.dropPlace).setPlace (some ⟨s.count, required, c.mark⟩)
  else .ok s

/-- A key ends on the line where it starts, and takes at most 1024 bytes. -/
def isStale (c : Cursor) (place : KeyPlace) : Bool :=
  place.mark.line < c.line || place.mark.index + 1024 < c.index

/-- Forgets the places where no key can start any more. -/
def dropStale (s : Scan) : Except FormFault Scan := do
  let places ← s.places.mapM fun place =>
    match place with
    | none => .ok none
    | some place => if isStale s.cursor place then s.giveUp place else .ok (some place)
  return { s with places := places }

/-- Opens a block collection at the column if it is right of the block around it. -/
def openBlock (column : Nat) (put : TokenKind → Scan → Scan) (kind : TokenKind) (s : Scan) :
    Scan :=
  if !s.inFlow && s.indent < column then
    put kind { s with indent := column, indents := s.indent :: s.indents }
  else s

/-- Closes the blocks right of the column. -/
def closeBlocks (column : Int) : List Int → Scan → Scan
  | outer :: more, s =>
    if column < s.indent then
      closeBlocks column more ({ s with indent := outer, indents := more }.add .blockEnd)
    else s
  | [], s => s

def closeTo (column : Int) (s : Scan) : Scan :=
  if s.inFlow then s else closeBlocks column s.indents s

/-! ### The tokens that start at a character -/

/-- A token that no block collection goes on through. -/
def documentMark (kind : TokenKind) (s : Scan) : Except FormFault Scan := do
  return ((← (s.closeTo (-1)).dropPlace).allowKey false).take 3 kind

def directive (s : Scan) : Except FormFault Scan := do
  let s := (← (s.closeTo (-1)).dropPlace).allowKey false
  let (kind, c) ← readDirective s.cursor
  return { s with cursor := c }.addFrom s.cursor.mark kind

def openFlow (kind : TokenKind) (s : Scan) : Except FormFault Scan := do
  let s ← s.keepPlace
  return ({ s with places := none :: s.places }.allowKey true).take 1 kind

def closeFlow (kind : TokenKind) (s : Scan) : Except FormFault Scan := do
  let s ← s.dropPlace
  let places := if s.inFlow then s.places.tail else s.places
  return ({ s with places := places }.allowKey false).take 1 kind

def comma (s : Scan) : Except FormFault Scan := do
  return ((← s.dropPlace).allowKey true).take 1 .comma

/-- An indicator may not stand at the cursor. -/
def misplaced (s : Scan) (problem : Problem) : Except FormFault Scan :=
  .error ⟨problem, s.cursor.mark, none⟩

def item (s : Scan) : Except FormFault Scan :=
  if !s.inFlow && !s.cursor.keyAllowed then s.misplaced .misplacedItem
  else do
    let s := s.openBlock s.cursor.column add .blockList
    return ((← s.dropPlace).allowKey true).take 1 .item

def key (s : Scan) : Except FormFault Scan :=
  if !s.inFlow && !s.cursor.keyAllowed then s.misplaced .misplacedKey
  else do
    let s := s.openBlock s.cursor.column add .blockMap
    return ((← s.dropPlace).allowKey (!s.inFlow)).take 1 .key

/-- A colon: the key starts at the place in mind, or was announced before. -/
def value (s : Scan) : Except FormFault Scan :=
  match s.places.head?.join with
  | some place =>
    let s := (s.insert place .key).openBlock place.mark.column (insert place) .blockMap
    .ok (((s.setPlace none).allowKey false).take 1 .value)
  | none =>
    if !s.inFlow && !s.cursor.keyAllowed then s.misplaced .misplacedValue
    else
      let s := s.openBlock s.cursor.column add .blockMap
      .ok ((s.allowKey (!s.inFlow)).take 1 .value)

/-- A token that may start a key and is read on its own. -/
def leaf (read : Cursor → Except FormFault (TokenKind × Cursor)) (s : Scan) :
    Except FormFault Scan := do
  let s ← s.keepPlace
  let (kind, c) ← read (s.cursor.allowKey false)
  return { s with cursor := c }.addFrom s.cursor.mark kind

/-- A scalar with its lines below it, which starts no key. -/
def block (literal : Bool) (s : Scan) : Except FormFault Scan := do
  let s ← s.dropPlace
  let start := s.cursor.mark
  let (text, c) ← readBlock literal s.indent start (s.cursor.pass 1)
  return { s with cursor := c }.addFrom start (.scalar (String.ofList text) false)

def readScalar (isPlain : Bool) (read : Cursor → Except FormFault (List Char × Cursor))
    (c : Cursor) : Except FormFault (TokenKind × Cursor) :=
  (read c).map fun (text, c) => (.scalar (String.ofList text) isPlain, c)

/-- The token at the cursor, which is at no gap. -/
def next (s : Scan) : Except FormFault Scan :=
  let c := s.cursor
  let start := c.mark
  let length := c.rest.length + 1
  let breaksOff := s.inFlow || atGap c.rest.tail
  if c.column == 0 && c.rest.head? == some '%' then s.directive
  else if c.atDocumentStart then s.documentMark .documentStart
  else if c.atDocumentEnd then s.documentMark .documentEnd
  else match c.rest with
    | '[' :: _ => s.openFlow .openList
    | '\x7b' :: _ => s.openFlow .openMap
    | ']' :: _ => s.closeFlow .closeList
    | '\x7d' :: _ => s.closeFlow .closeMap
    | ',' :: _ => s.comma
    | '*' :: _ => s.leaf fun c => (readName .alias c).map fun (name, c) => (.alias name, c)
    | '&' :: _ => s.leaf fun c => (readName .anchor c).map fun (name, c) => (.anchor name, c)
    | '!' :: _ => s.leaf (readTag s.inFlow)
    | '\'' :: _ => s.leaf (readScalar false fun c => readSingle start length (c.pass 1))
    | '"' :: _ => s.leaf (readScalar false fun c => readDouble start length (c.pass 1))
    | x :: _ =>
      if x == '-' && atGap c.rest.tail then s.item
      else if x == '?' && breaksOff then s.key
      else if x == ':' && breaksOff then s.value
      else if (x == '|' || x == '>') && !s.inFlow then s.block (x == '|')
      else if startsPlain s.inFlow c.rest then
        s.leaf (readScalar true (readPlain s.inFlow s.indent start length []))
      else c.fault .token .nextToken start
    | [] => c.fault .token .nextToken start

/-- The end of the text, which is at the start of a line. -/
def finish (s : Scan) : Except FormFault Scan := do
  let c := s.cursor
  let c := if c.column = 0 then c else { c with line := c.line + 1, column := 0 }
  let s ← ({ s with cursor := c }.closeTo (-1)).dropPlace
  return { s.add .textEnd with isEnded := true }

/-- One more token, with those that come before it for its column. -/
def advance (s : Scan) : Except FormFault Scan := do
  let s := { s with cursor := s.cursor.toToken s.inFlow }
  let s := (← s.dropStale).closeTo s.cursor.column
  if s.cursor.rest.isEmpty then s.finish else s.next

/-- The next token is not there yet, or a key could still start at it. -/
def isOpen (s : Scan) : Bool :=
  s.settled == s.count || s.places.any fun place => place.any fun p => p.before == s.settled

/-- One more token, or one more of them is settled. -/
def step (s : Scan) : Except FormFault Scan := do
  let s ← if s.settled = s.count then .ok s else s.dropStale
  if s.isOpen then s.advance else return { s with settled := s.settled + 1 }

/-- The settled tokens, and what is wrong behind them. -/
def stopped (s : Scan) (f : FormFault) : List Token :=
  s.tokens.reverse.take s.settled ++ [⟨.broken (.form f), f.mark, f.mark⟩]

def run : Nat → Scan → List Token
  | 0, s => s.tokens.reverse
  | fuel + 1, s =>
    if s.isEnded && s.settled == s.count then s.tokens.reverse
    else match s.step with
      | .ok s => run fuel s
      | .error f => s.stopped f

end Scan

/-- Characters that may stand in a text at all. -/
def isAllowed (x : Char) : Bool :=
  let n := x.toNat
  n == 9 || n == 10 || n == 13 || n == 0x85 || (0x20 ≤ n && n ≤ 0x7E) ||
    (0xA0 ≤ n && n ≤ 0xFFFD) || 0x10000 ≤ n

def Token.ofText (s : String) : List Token :=
  let text := s.toList
  if text.all isAllowed then (Scan.start text).run (6 * text.length + 16)
  else
    let c := Cursor.start text
    let before := text.takeWhile isAllowed
    [⟨.broken (.character (Cursor.byteCount before)), c.mark, c.mark⟩]

end BrowserAgent.Yaml
