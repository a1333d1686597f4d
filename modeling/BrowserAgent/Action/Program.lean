import BrowserAgent.Action.Expr
import BrowserAgent.Text.Lines

/-!
# Programs

An action is one statement a line. Blank lines, comment lines that start with `//` and fence lines
are skipped. Reading stops at the first line that is no statement.
-/

namespace BrowserAgent

structure Statement where
  /-- The number of the line in the action, counted from one. -/
  line : Nat
  /-- The line without the blanks around it. -/
  source : String
  binding : Option String
  expr : Expr

structure Program where
  statements : List Statement

structure ActionSyntaxError where
  line : Nat
  source : String
  cause : SyntaxError
deriving DecidableEq, Repr

def ActionSyntaxError.message (e : ActionSyntaxError) : String :=
  "line " ++ toString e.line ++ ": " ++ e.cause.message

/-- Three backticks, which open and close a fenced block. -/
def fence : String := "```"

namespace Action

/-- A trimmed line that holds no statement. -/
def isSkipped (line : String) : Bool :=
  line.isEmpty || Text.startsWith "//" line || Text.startsWith fence line

/-- The statement on the line of the given number, if it holds one. -/
def readLine (n : Nat) (raw : String) : Except ActionSyntaxError (Option Statement) :=
  let source := Text.trim raw
  if isSkipped source then .ok none
  else match readStatement source with
    | .error cause => .error ⟨n, source, cause⟩
    | .ok (binding, expr) => .ok (some ⟨n, source, binding, expr⟩)

/-- The statements of the lines, the first of which has the given number. -/
def statementsFrom : Nat → List String → Except ActionSyntaxError (List Statement)
  | _, [] => .ok []
  | n, raw :: more => do
    let statement ← readLine n raw
    let later ← statementsFrom (n + 1) more
    return statement.toList ++ later

def parse (text : String) : Except ActionSyntaxError Program :=
  (statementsFrom 1 (Text.lines text)).map Program.mk

/-- An answer without its fence lines and the blanks around what is left. -/
def stripFences (text : String) : String :=
  Text.trim (Text.unlines
    ((Text.lines text).filter fun line => !Text.startsWith fence (Text.trimStart line)))

end Action

/-! ## The calls of a program -/

namespace Expr

mutual

/-- The operations called, each before those of its arguments. -/
def operations : Expr → List Operation
  | .call op args => op :: operationsOfArgs args
  | _ => []

def operationsOfArgs : List (Option Expr) → List Operation
  | [] => []
  | none :: args => operationsOfArgs args
  | some arg :: args => operations arg ++ operationsOfArgs args

end

end Expr

def Program.operations (p : Program) : List Operation :=
  p.statements.flatMap fun statement => statement.expr.operations

end BrowserAgent
