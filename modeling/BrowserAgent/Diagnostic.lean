import BrowserAgent.Interpreter
import BrowserAgent.Text.Utf8
import BrowserAgent.Text.WordChar

/-!
# Diagnostics

What a model is told about a failure: the line that failed, and the first lines of the reason in
a plain form. Terminal escapes are taken out, the surface goes by its alias, runs of spaces and
tabs become one space, and the whole is cut to a number of bytes.
-/

namespace BrowserAgent.Diagnostic

/-- The name of the surface in a prompt. -/
def surfaceAlias : String := "env"

/-- How many lines of the reason are kept. -/
def maxReasonLines : Nat := 6

/-! ## Terminal escapes -/

def isEscapeParam (c : Char) : Bool := c.isDigit || c == ';' || c == '?'

/-- The length of the terminal escape that the list starts with: an escape character, a bracket,
any number of digits, semicolons and question marks, and a letter. -/
def escapeLength? : List Char → Option Nat
  | '\x1b' :: '[' :: cs =>
    match cs.dropWhile isEscapeParam with
    | c :: _ => if c.isAlpha then some ((cs.takeWhile isEscapeParam).length + 3) else none
    | [] => none
  | _ => none

/-- The list without its terminal escapes; so many characters are still part of one. -/
def dropEscapes : Nat → List Char → List Char
  | _, [] => []
  | skip + 1, _ :: cs => dropEscapes skip cs
  | 0, c :: cs =>
    match escapeLength? (c :: cs) with
    | some length => dropEscapes (length - 1) cs
    | none => c :: dropEscapes 0 cs

/-! ## The surface's name -/

/-- One of the two characters is a word character and the other is not, or is not there. -/
def isBoundary (before after : Option Char) : Bool :=
  before.any Text.isWordChar != after.any Text.isWordChar

/-- The name stands at the start of the list, between two word boundaries. -/
def nameStarts (name : List Char) (before : Option Char) (cs : List Char) : Bool :=
  isBoundary before cs.head? && name.isPrefixOf cs &&
    isBoundary name.getLast? (cs.drop name.length).head?

/-- The name replaced where it stands between word boundaries; so many characters are still part
of one that was. -/
def replaceName (name shown : List Char) : Option Char → Nat → List Char → List Char
  | _, _, [] => []
  | _, skip + 1, c :: cs => replaceName name shown (some c) skip cs
  | before, 0, c :: cs =>
    if nameStarts name before (c :: cs) then
      shown ++ replaceName name shown (some c) (name.length - 1) cs
    else c :: replaceName name shown (some c) 0 cs

/-! ## Lines -/

/-- Every run of spaces and tabs made one space. -/
def collapseGaps : List Char → List Char
  | [] => []
  | [c] => if Action.isGap c then [' '] else [c]
  | c :: d :: cs =>
    if Action.isGap c then
      if Action.isGap d then collapseGaps (d :: cs) else ' ' :: collapseGaps (d :: cs)
    else c :: collapseGaps (d :: cs)

/-- The reason without terminal escapes, the surface under its alias.

The name is looked for as it is. Where names are looked for by patterns, one of some hundred
thousand bytes makes a pattern over the limit on their size, and the reason then stays under the
surface's own name. No such limit is set here, so every name goes by the alias. -/
def plainReason (hostName reason : String) : String :=
  let cs := dropEscapes 0 reason.toList
  String.ofList <|
    if hostName.isEmpty then cs else replaceName hostName.toList surfaceAlias.toList none 0 cs

/-- The lines of a reason that are kept. -/
def reasonLines (hostName reason : String) : List String :=
  let lines := (Text.lines (plainReason hostName reason)).map fun line =>
    String.ofList (collapseGaps (Text.trim line).toList)
  (lines.filter fun line => !line.isEmpty).take maxReasonLines

/-- The diagnostic before it is cut. -/
def full (line : Nat) (source hostName reason : String) : String :=
  Text.unlines
    (("Failed on line " ++ toString line ++ ": " ++ source) :: reasonLines hostName reason)

/-- The diagnostic for a failed line, in at most `limit` bytes. -/
def ofReason (line : Nat) (source hostName reason : String) (limit : Nat) : String :=
  Text.cutBytes limit (full line source hostName reason)

def ofFailure (f : ActionFailure) (hostName : String) (limit : Nat) : String :=
  ofReason f.line f.source hostName f.reason limit

end BrowserAgent.Diagnostic
