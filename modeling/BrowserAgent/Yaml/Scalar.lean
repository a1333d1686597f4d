import BrowserAgent.Text.Hex
import BrowserAgent.Yaml.Cursor

/-!
# Reading YAML scalars

Plain and quoted scalars fold their line breaks: one break is a space, and of several the first
goes away. Blanks around a folded break go away too. A literal scalar keeps its breaks, and a
folded one folds those between two lines that do not start with a blank.
-/

namespace BrowserAgent.Yaml

/-- Line breaks as they are read after folding. -/
def foldBreaks : List Char → List Char
  | [] => []
  | first :: more =>
    if first = '\n' then (if more.isEmpty then [' '] else more) else first :: more

/-! ## Gaps inside a scalar -/

/-- Blanks without a break after them, or the breaks; blanks before and after a break are dropped.
-/
inductive Gap where
  | blanks (text : List Char)
  | breaks (chars : List Char)

def Gap.text : Gap → List Char
  | blanks text => text
  | breaks chars => foldBreaks chars

/-- The gap at the cursor, and whether a tab in it is left of the indent after a break. The cursor
then stays at that tab. -/
def readGap (indent : Int) : Nat → Gap → Cursor → Gap × Bool × Cursor
  | 0, gap, c => (gap, false, c)
  | fuel + 1, gap, c =>
    match c.rest, gap with
    | [], _ => (gap, false, c)
    | x :: _, .blanks text =>
      if isBlank x then readGap indent fuel (.blanks (text ++ [x])) (c.pass 1)
      else if isBreak x then readGap indent fuel (.breaks [c.breakChar]) c.passBreak
      else (gap, false, c)
    | x :: _, .breaks chars =>
      if isBlank x then
        if x == '\t' && (c.column : Int) < indent then (gap, true, c)
        else readGap indent fuel gap (c.pass 1)
      else if isBreak x then readGap indent fuel (.breaks (chars ++ [c.breakChar])) c.passBreak
      else (gap, false, c)

/-! ## Plain scalars -/

def isFlowMark (x : Char) : Bool := x == ',' || x == '[' || x == ']' || x == '\x7b' || x == '\x7d'

/-- Characters that start something other than a plain scalar. -/
def indicators : List Char :=
  ['-', '?', ':', ',', '[', ']', '\x7b', '\x7d', '#', '&', '*', '!', '|', '>', '\'', '"', '%', '@',
    '\x60']

def startsPlain (inFlow : Bool) : List Char → Bool
  | [] => false
  | x :: more =>
    !(isBlank x || isBreak x || indicators.contains x) ||
      (x == '-' && !more.head?.any isBlank) ||
      (!inFlow && (x == '?' || x == ':') && !atGap more)

/-- In a flow collection a colon directly before a mark is refused. -/
def isRefusedColon (inFlow : Bool) : List Char → Bool
  | ':' :: y :: _ => inFlow && (isFlowMark y || y == '?')
  | _ => false

/-- A run without blanks, and what follows it. -/
def plainWord (inFlow : Bool) : List Char → List Char × List Char
  | [] => ([], [])
  | x :: more =>
    if isBlank x || isBreak x || isRefusedColon inFlow (x :: more) || (x == ':' && atGap more) ||
        (inFlow && isFlowMark x) then
      ([], x :: more)
    else
      let (word, rest) := plainWord inFlow more
      (x :: word, rest)

/-- Words and the gaps between them. A line that is not indented far enough goes no further, nor
does one that marks the start or the end of a document. -/
def readPlain (inFlow : Bool) (indent : Int) (start : Mark) :
    Nat → List Char → Cursor → Except FormFault (List Char × Cursor)
  | 0, _, c => .ok ([], c)
  | fuel + 1, before, c =>
    if c.isDone || c.rest.head? = some '#' then .ok ([], c)
    else
      let (word, rest) := plainWord inFlow c.rest
      let reached := c.pass word.length
      if isRefusedColon inFlow rest then reached.fault .colonInFlow .plainScalar start
      else if word.isEmpty then .ok ([], c)
      else if !(rest.head?.any fun x => isBlank x || isBreak x) then .ok (before ++ word, reached)
      else
        let (gap, isTabbed, next) := readGap (indent + 1) (rest.length + 1) (.blanks []) reached
        if isTabbed then next.fault .tabBeforeText .plainScalar start
        else
          let (ended, after) := match gap with
            | .blanks _ => (false, next)
            | .breaks _ => (!inFlow && (next.column : Int) ≤ indent, next.allowKey true)
          if ended then .ok (before ++ word, after)
          else
            match readPlain inFlow indent start fuel gap.text (after.allowKey c.keyAllowed) with
            | .error f => .error f
            | .ok ([], _) => .ok (before ++ word, after)
            | .ok (more, last) => .ok (before ++ word ++ more, last)

/-! ## Quoted scalars -/

/-- The gap at the cursor inside quotes, where tabs may stand anywhere. -/
def quotedGap (gap : Gap) (c : Cursor) : Gap × Cursor :=
  let (gap, _, next) := readGap 0 (c.rest.length + 1) gap c
  (gap, next)

def readSingle (start : Mark) : Nat → Cursor → Except FormFault (List Char × Cursor)
  | 0, c => .ok ([], c)
  | fuel + 1, c =>
    if c.atDocumentStart || c.atDocumentEnd then c.fault .documentMark .quotedScalar start
    else match c.rest with
      | [] => c.fault .textEnd .quotedScalar start
      | '\'' :: '\'' :: _ => (readSingle start fuel (c.pass 2)).map fun (t, c) => ('\'' :: t, c)
      | '\'' :: _ => .ok ([], c.pass 1)
      | x :: _ =>
        if isBlank x || isBreak x then
          let (gap, next) := quotedGap (.blanks []) c
          (readSingle start fuel next).map fun (t, c) => (gap.text ++ t, c)
        else (readSingle start fuel (c.pass 1)).map fun (t, c) => (x :: t, c)

/-- What a letter after a backslash stands for. -/
def escaped? : Char → Option Char
  | '0' => some '\x00'
  | 'a' => some '\x07'
  | 'b' => some '\x08'
  | 't' => some '\t'
  | '\t' => some '\t'
  | 'n' => some '\n'
  | 'v' => some '\x0b'
  | 'f' => some '\x0c'
  | 'r' => some '\r'
  | 'e' => some '\x1b'
  | ' ' => some ' '
  | '"' => some '"'
  | '/' => some '/'
  | '\\' => some '\\'
  | 'N' => some '\u0085'
  | '_' => some '\u00a0'
  | 'L' => some '\u2028'
  | 'P' => some '\u2029'
  | _ => none

/-- How many hexadecimal digits follow the letter after a backslash. -/
def escapeWidth? : Char → Option Nat
  | 'x' => some 2
  | 'u' => some 4
  | 'U' => some 8
  | _ => none

/-- The breaks of a gap, which are not folded behind an escaped break. -/
def Gap.breakChars : Gap → List Char
  | blanks _ => []
  | breaks chars => chars

/-- The character of an escape: the cursor is behind the backslash and the letter. -/
def readNumbered (width : Nat) (start : Mark) (c : Cursor) : Except FormFault (Char × Cursor) :=
  let digits := c.rest.take width
  match Text.hexValue? digits with
  | some value =>
    if digits.length < width then c.fault .hexDigits .escape start
    else if value.isValidChar then .ok (Char.ofNat value, c.pass width)
    else c.fault .charNumber .escape start
  | none => c.fault .hexDigits .escape start

def readDouble (start : Mark) : Nat → Cursor → Except FormFault (List Char × Cursor)
  | 0, c => .ok ([], c)
  | fuel + 1, c =>
    if c.atDocumentStart || c.atDocumentEnd then c.fault .documentMark .quotedScalar start
    else match c.rest with
      | [] => c.fault .textEnd .quotedScalar start
      | '"' :: _ => .ok ([], c.pass 1)
      | ['\\'] => c.fault .escape .escape start
      | '\\' :: x :: _ =>
        if isBreak x then
          let (gap, next) := quotedGap (.breaks []) (c.pass 1).passBreak
          (readDouble start fuel next).map fun (t, c) => (gap.breakChars ++ t, c)
        else match escaped? x, escapeWidth? x with
          | some y, _ => (readDouble start fuel (c.pass 2)).map fun (t, c) => (y :: t, c)
          | none, some width => do
            let (y, next) ← readNumbered width start (c.pass 2)
            (readDouble start fuel next).map fun (t, c) => (y :: t, c)
          | none, none => c.fault .escape .escape start
      | x :: _ =>
        if isBlank x || isBreak x then
          let (gap, next) := quotedGap (.blanks []) c
          (readDouble start fuel next).map fun (t, c) => (gap.text ++ t, c)
        else (readDouble start fuel (c.pass 1)).map fun (t, c) => (x :: t, c)

/-! ## Block scalars -/

/-- Which of the breaks at its end a block scalar keeps. -/
inductive Chomping where
  | strip
  | clip
  | keep
deriving DecidableEq, Repr

structure BlockHeader where
  literal : Bool
  chomping : Chomping
  /-- How far the lines are indented beyond the node around them, if that is said. -/
  increment : Option Nat

def chompingMark? : Char → Option Chomping
  | '+' => some .keep
  | '-' => some .strip
  | _ => none

def incrementMark? (x : Char) : Option Nat :=
  if '1' ≤ x && x ≤ '9' then some (x.toNat - '0'.toNat) else none

/-- What becomes of the breaks at the end, if that is said at the cursor. -/
def readChomping (c : Cursor) : Option Chomping × Cursor :=
  match c.rest.head?.bind chompingMark? with
  | some m => (some m, c.pass 1)
  | none => (none, c)

/-- How far the lines are indented, if that is said at the cursor. -/
def readIncrement (start : Mark) (c : Cursor) : Except FormFault (Option Nat × Cursor) :=
  -- It cannot be nothing.
  if c.rest.head? = some '0' then c.fault .zeroIndent .blockScalar start
  else match c.rest.head?.bind incrementMark? with
    | some n => .ok (some n, c.pass 1)
    | none => .ok (none, c)

/-- The marks after the indicator, in either order, each at most once. -/
def readHeader (literal : Bool) (start : Mark) (c : Cursor) :
    Except FormFault (BlockHeader × Cursor) := do
  let (before, c) := readChomping c
  let (increment, c) ← readIncrement start c
  let (behind, c) := if before.isNone && increment.isSome then readChomping c else (none, c)
  return (⟨literal, (before.or behind).getD .clip, increment⟩, c)

/-- Empty lines and the indentation of the line after them: the breaks, the cursor and the greatest
indentation seen. -/
def blockGap (indent : Option Nat) (start : Mark) :
    Nat → Nat → List Char → Cursor → Except FormFault (List Char × Nat × Cursor)
  | 0, widest, breaks, c => .ok (breaks, widest, c)
  | fuel + 1, widest, breaks, c =>
    let spaces := (c.rest.takeWhile (· == ' ')).length
    let c := c.pass (match indent with
      | some n => min spaces (n - c.column)
      -- Without an indent all spaces count as indentation.
      | none => spaces)
    let widest := max widest c.column
    if c.rest.head? = some '\t' && indent.all fun n => c.column < n then
      c.fault .tabInIndent .blockScalar start
    else if c.atBreak then blockGap indent start fuel widest (breaks ++ [c.breakChar]) c.passBreak
    else .ok (breaks, widest, c)

/-- The text before the next line: the break that ended the last one, folded or not, and the empty
lines. -/
def joinLines (folds : Bool) (ended : List Char) (breaks : List Char) : List Char :=
  if folds && ended == ['\n'] then (if breaks.isEmpty then [' '] else breaks) else ended ++ breaks

/-- The lines of a block scalar: its text without the breaks at the end, the break that ends the
last line, and the breaks after that. -/
def blockLines (literal : Bool) (indent : Nat) (start : Mark) :
    Nat → Bool → List Char → List Char → Cursor →
      Except FormFault (List Char × List Char × List Char × Cursor)
  | 0, _, ended, breaks, c => .ok ([], ended, breaks, c)
  | fuel + 1, afterBlank, ended, breaks, c =>
    if c.column != indent || c.rest.isEmpty then .ok ([], ended, breaks, c)
    else do
      let startsBlank := c.rest.head?.any isBlank
      let joint := joinLines (!literal && !afterBlank && !startsBlank) ended breaks
      let line := c.rest.takeWhile fun x => !isBreak x
      let c := c.pass line.length
      let (ended, c) := if c.atBreak then ([c.breakChar], c.passBreak) else ([], c)
      let (breaks, _, c) ← blockGap (some indent) start (c.rest.length + 1) 0 [] c
      let (text, last, tail, c) ← blockLines literal indent start fuel startsBlank ended breaks c
      return (joint ++ line ++ text, last, tail, c)

/-- A block scalar after its indicator, inside a node with the given indent. -/
def readBlock (literal : Bool) (around : Int) (start : Mark) (c : Cursor) :
    Except FormFault (List Char × Cursor) := do
  let (header, c) ← readHeader literal start c
  let c := c.passWhile isBlank
  let c := c.passComment
  if !c.rest.isEmpty && !c.atBreak then c.fault .lineEnd .blockScalar start
  else
    let c := if c.atBreak then c.passBreak else c
    let known := header.increment.map fun n => (max around 0).toNat + n
    let (breaks, widest, c) ← blockGap known start (c.rest.length + 1) 0 [] c
    let indent := known.getD (max widest (max 1 (around + 1).toNat))
    let (text, ended, tail, c) ←
      blockLines header.literal indent start (c.rest.length + 1) false [] breaks c
    let kept := match header.chomping with
      | .strip => []
      | .clip => ended
      | .keep => ended ++ tail
    return (text ++ kept, c.allowKey true)

end BrowserAgent.Yaml
