import BrowserAgent.Record
import BrowserAgent.Table

/-!
# Scripts

A script is read in three steps. Function sections are taken out, with the comment lines. A line
that injects a function becomes the lines of its body. What is left is cut into blocks at the
lines that run a function, whose body is a block of its own. Blank lines go, and so do the blanks
at the end of every line.

Names are looked up among all functions of the script, so a section may stand after its uses. Of
two sections with one name the last counts. A body that was put in is not searched for injections
again, and a body that is run is not searched at all.
-/

namespace BrowserAgent

/-- The first words that make a line something other than text. -/
inductive Marker where
  | beginFunction
  | endFunction
  | injectFunction
  | runFunction
deriving DecidableEq, Repr

namespace Marker

def word : Marker → String
  | beginFunction => "BEGIN_FUNCTION"
  | endFunction => "END_FUNCTION"
  | injectFunction => "INJECT_FUNCTION"
  | runFunction => "RUN_FUNCTION"

def all : List Marker := [beginFunction, endFunction, injectFunction, runFunction]

/-- The marker that is the first word of the line. -/
def ofLine? (line : String) : Option Marker :=
  (Text.words line).head?.bind fun first => all.find? fun m => m.word == first

end Marker

inductive ScriptError where
  | unknownFunction (line : Nat) (name : String)
  | missingFunctionName (line : Nat) (marker : Marker)
  | unterminatedFunction (line : Nat) (name : String)
  | nestedFunction (line : Nat) (name : String)
  | unexpectedEndFunction (line : Nat)
deriving DecidableEq, Repr

namespace ScriptError

def line : ScriptError → Nat
  | unknownFunction line _ => line
  | missingFunctionName line _ => line
  | unterminatedFunction line _ => line
  | nestedFunction line _ => line
  | unexpectedEndFunction line => line

def reason : ScriptError → String
  | unknownFunction _ name => "unknown function `" ++ name ++ "`"
  | missingFunctionName _ marker => "`" ++ marker.word ++ "` requires a function name"
  | unterminatedFunction _ name => "function `" ++ name ++ "` is never closed with `END_FUNCTION`"
  | nestedFunction _ name =>
    "`BEGIN_FUNCTION` inside function `" ++ name ++ "` (functions do not nest)"
  | unexpectedEndFunction _ => "`END_FUNCTION` without a matching `BEGIN_FUNCTION`"

def message (e : ScriptError) : String := "line " ++ toString e.line ++ ": " ++ e.reason

end ScriptError

/-- A line with its number in the script. A line put in by a marker keeps the marker's number. -/
structure SourceLine where
  number : Nat
  text : String
deriving DecidableEq, Repr

/-- The bodies of functions by name. -/
abbrev FunctionTable := Table String

structure Script where
  queue : List Instruction
  functions : FunctionTable
deriving DecidableEq, Repr

namespace Script

/-- A line that starts with `# `, or is nothing but `#`, blanks around it aside. -/
def isComment (line : String) : Bool :=
  let trimmed := Text.trimStart line
  "# ".toList.isPrefixOf trimmed.toList || Text.trimEnd trimmed == "#"

/-- The last word of a marker line after the marker. -/
def functionName (marker : Marker) (line : SourceLine) : Except ScriptError String :=
  match (Text.words line.text).tail.getLast? with
  | some name => .ok name
  | none => .error (.missingFunctionName line.number marker)

/-! ## Function sections -/

/-- A section whose end has not come yet. -/
structure OpenSection where
  name : String
  line : Nat
  /-- The body so far, last line first. -/
  body : List String

/-- The lines outside the sections, and each section's name and body in the order of the text. -/
def extract : Option OpenSection → List SourceLine →
    Except ScriptError (List SourceLine × List (String × String))
  | none, [] => .ok ([], [])
  | some sec, [] => .error (.unterminatedFunction sec.line sec.name)
  | none, line :: more =>
    if isComment line.text then extract none more
    else match Marker.ofLine? line.text with
      | some .beginFunction => do
        let name ← functionName .beginFunction line
        extract (some ⟨name, line.number, []⟩) more
      | some .endFunction => .error (.unexpectedEndFunction line.number)
      | _ => do
        let (outside, defined) ← extract none more
        return (line :: outside, defined)
  | some sec, line :: more =>
    if isComment line.text then extract (some sec) more
    else match Marker.ofLine? line.text with
      | some .endFunction => do
        let (outside, defined) ← extract none more
        return (outside, (sec.name, Text.unlines sec.body.reverse) :: defined)
      | some .beginFunction => .error (.nestedFunction line.number sec.name)
      | _ => extract (some { sec with body := Text.trimEnd line.text :: sec.body }) more

/-- The table of the sections; of two with one name the last counts. -/
def tableOf (defined : List (String × String)) : FunctionTable :=
  defined.foldl (fun table entry => Table.insert entry.1 entry.2 table) []

/-- The body of the function that a marker line names. -/
def lookUp (functions : FunctionTable) (marker : Marker) (line : SourceLine) :
    Except ScriptError String := do
  let name ← functionName marker line
  match Table.find? functions name with
  | some body => return body
  | none => throw (.unknownFunction line.number name)

/-- The lines of a body that are not blank, without the blanks at their ends. -/
def bodyLines (body : String) : List String :=
  ((Text.pieces body).map Text.trimEnd).filter fun line => !Text.isBlankText line

/-! ## Injections and blocks -/

/-- Every line that injects a function replaced by the lines of its body. -/
def inject (functions : FunctionTable) : List SourceLine → Except ScriptError (List SourceLine)
  | [] => .ok []
  | line :: more =>
    if Marker.ofLine? line.text = some .injectFunction then do
      let body ← lookUp functions .injectFunction line
      let rest ← inject functions more
      return (bodyLines body).map (SourceLine.mk line.number) ++ rest
    else do return line :: (← inject functions more)

/-- The lines as an instruction, unless there are none. -/
def blockOf (lines : List String) : List Instruction :=
  if lines.isEmpty then [] else [⟨Text.unlines lines⟩]

/-- The blocks of the lines; `block` holds the lines of the open one, last line first. -/
def collate (functions : FunctionTable) :
    List String → List SourceLine → Except ScriptError (List Instruction)
  | block, [] => .ok (blockOf block.reverse)
  | block, line :: more =>
    if Marker.ofLine? line.text = some .runFunction then do
      let body ← lookUp functions .runFunction line
      let rest ← collate functions [] more
      return blockOf block.reverse ++ blockOf (bodyLines body) ++ rest
    else if Text.isBlankText line.text then collate functions block more
    else collate functions (Text.trimEnd line.text :: block) more

def numbered : Nat → List String → List SourceLine
  | _, [] => []
  | n, line :: more => ⟨n, line⟩ :: numbered (n + 1) more

def parse (raw : String) : Except ScriptError Script := do
  let (outside, defined) ← extract none (numbered 1 (Text.lines raw))
  let functions := tableOf defined
  let expanded ← inject functions outside
  let queue ← collate functions [] expanded
  return ⟨queue, functions⟩

end Script

end BrowserAgent
