import BrowserAgent.Action.Program
import BrowserAgent.Surface.Command
import BrowserAgent.Value

/-!
# Running an action

The statements run in order and the first that fails ends the run. The arguments of a call are
evaluated from left to right, each checked against its parameter as soon as it has a value, and
only then the call gives its one command to the surface. An element in a frame is addressed
inside that frame.
-/

namespace BrowserAgent

open Number

/-- Why an expression has no value. -/
inductive EvalError where
  | undefined (name : String)
  | outOfRange (name : String) (index length : Nat)
  | notAList (name : String) (got : Value)
  | missingArgument (op : Operation) (param : String)
  /-- The value of an argument is not of its parameter's kind. -/
  | unfitArgument (op : Operation) (param : String) (got : Value)
  /-- A call was given a value that it cannot use. -/
  | mismatch (op : Operation) (param expected : String) (got : Value)
  | invalidChoice (op : Operation) (cause : ChoiceError)
  | invalidDuration (op : Operation) (seconds : Binary) (cause : DurationError)
  | nothingFound (op : Operation) (strategy : Strategy) (value : String)
  | emptyFilename (op : Operation)
  | faulted (op : Operation) (cause : Fault)
deriving DecidableEq, Repr

namespace EvalError

/-- A list of elements is easily mistaken for one of them. -/
def hint : Value → String
  | .elements _ => " (use find_element or index the list, e.g. `links[0]`)"
  | _ => ""

def message : EvalError → String
  | undefined name => "`" ++ name ++ "` is not defined"
  | outOfRange name index length =>
    "index " ++ toString index ++ " out of range: `" ++ name ++ "` holds " ++ toString length ++
      " elements"
  | notAList name got => "`" ++ name ++ "` is " ++ got.kindText ++ ", not a list"
  | missingArgument op param => op.name ++ ": missing argument `" ++ param ++ "`"
  | unfitArgument op param got =>
    op.name ++ ": argument `" ++ param ++ "` got " ++ got.kindText ++ hint got
  | mismatch op param expected got =>
    op.name ++ ": argument `" ++ param ++ "` expects " ++ expected ++ ", got " ++ got.kindText
  | invalidChoice op cause => op.name ++ " failed: " ++ cause.message
  | invalidDuration op seconds cause =>
    op.name ++ ": invalid duration " ++ plain.render double seconds ++ ": " ++ cause.message
  | nothingFound op strategy value =>
    op.name ++ ": no elements found for " ++ strategy.word ++ " `" ++ value ++ "`"
  | emptyFilename op => op.name ++ " failed: filename is empty"
  | faulted op cause => op.name ++ " failed: " ++ cause.message

end EvalError

/-! ## Arguments -/

/-- The value may stand for the parameter. -/
def Param.accepts (p : Param) : Value → Bool
  | .nothing => !p.required || p.kind == .maybeElement
  | .text _ | .number _ => p.kind == .text || p.kind == .number
  | .bool _ => p.kind == .bool
  | .element _ => p.kind == .element || p.kind == .maybeElement
  | .elements _ => false

/-- Evaluated arguments of one call. -/
structure CallArgs where
  op : Operation
  values : List Value

namespace CallArgs

def value (a : CallArgs) (slot : Nat) : Value := a.values.getD slot .nothing

def mismatch (a : CallArgs) (slot : Nat) (expected : String) (got : Value) : EvalError :=
  .mismatch a.op ((a.op.params[slot]?.map (·.name)).getD "") expected got

/-- The text in the slot, if there is a value. -/
def text? (a : CallArgs) (slot : Nat) : Except EvalError (Option String) :=
  match a.value slot with
  | .nothing => .ok none
  | got => match got.text? with
    | some s => .ok (some s)
    | none => .error (a.mismatch slot "text" got)

def text (a : CallArgs) (slot : Nat) : Except EvalError String := do
  match ← a.text? slot with
  | some s => return s
  | none => throw (a.mismatch slot "text" .nothing)

/-- The element in the slot, if there is a value. -/
def element? (a : CallArgs) (slot : Nat) : Except EvalError (Option Element) :=
  match a.value slot with
  | .nothing => .ok none
  | .element e => .ok (some e)
  | got => .error (a.mismatch slot "element" got)

def element (a : CallArgs) (slot : Nat) : Except EvalError Element := do
  match ← a.element? slot with
  | some e => return e
  | none => throw (a.mismatch slot "element" .nothing)

/-- The truth value in the slot; without a value it is false. -/
def flag (a : CallArgs) (slot : Nat) : Except EvalError Bool :=
  match a.value slot with
  | .nothing => .ok false
  | .bool b => .ok b
  | got => .error (a.mismatch slot "bool" got)

def number (a : CallArgs) (slot : Nat) : Except EvalError Binary :=
  match (a.value slot).number? with
  | some x => .ok x
  | none => .error (a.mismatch slot "number" (a.value slot))

def choice {α : Type} (a : CallArgs) (result : Except ChoiceError α) : Except EvalError α :=
  result.mapError (.invalidChoice a.op)

end CallArgs

/-! ## The command of a call -/

/-- The command that a call gives to the surface. -/
def commandOf (a : CallArgs) : Except EvalError Command :=
  match a.op with
  | .navigate => do return .navigate (← a.text 0)
  | .findElements | .findElement => do
    let strategy ← a.choice (Strategy.read (← a.text 0))
    return .findElements strategy (← a.text 1) (← a.element? 2)
  | .findNearest => do
    let anchor ← a.element 0
    let xpath ← a.text 1
    match ← a.text? 2 with
    | some direction => return .findNearest anchor xpath (← a.choice (NearDirection.read direction))
    | none => return .findNearest anchor xpath .above
  | .sendKeys => do
    let text ← a.text 1
    return .sendKeys (← a.element? 0) text
  | .click => do return .click (← a.element 0)
  | .wait => do
    let seconds ← a.number 0
    match Duration.ofSeconds seconds with
    | .ok duration => return .wait duration
    | .error cause => throw (.invalidDuration a.op seconds cause)
  | .scroll => do
    let direction ← a.choice (ScrollDirection.read (← a.text 0))
    return .scroll direction (← a.element? 1)
  | .queryLlm => do return .queryLlm (← a.text 0)
  | .queryMemory => do return .queryMemory (← a.text 0)
  | .retrieveInformation => do return .retrieve (← a.text 0) (← a.flag 1)
  | .findElementByDescription => do return .findByDescription (← a.text 0)
  | .screenshot => do return .screenshot (← a.element 0) (← a.text 1)
  | .save => do
    let text ← a.text 0
    let filename ← a.text 1
    if Text.isBlankText filename then throw (.emptyFilename a.op)
    return .save text filename
  | .text => do return .elementText (← a.element 0)
  | .pageText => do return .pageText (← a.flag 0)

/-- The value of a call, from the reply to its command. -/
def replyValue (op : Operation) : (c : Command) → c.Reply → Except EvalError Value
  | .findElements strategy value _, (found : List Element) =>
    if op = .findElement then
      match found with
      | e :: _ => .ok (.element e)
      | [] => .error (.nothingFound op strategy value)
    else .ok (.elements found)
  | .findNearest .., (e : Element) => .ok (.element e)
  | .findByDescription _, (e : Option Element) => .ok (match e with
      | some e => .element e
      | none => .nothing)
  | .queryLlm _, (s : String) | .queryMemory _, (s : String) | .retrieve .., (s : String)
  | .elementText _, (s : String) | .pageText _, (s : String) => .ok (.text s)
  | .navigate _, _ | .sendKeys .., _ | .click _, _ | .wait _, _ | .scroll .., _
  | .screenshot .., _ | .save .., _ | .enterFrame _, _ | .exitFrame, _ => .ok .nothing

namespace Surface

variable {σ : Type} (s : Surface σ)

/-- Gives the command of the call to the surface. -/
def carryOut (a : CallArgs) : Run σ EvalError Value := do
  let command ← Run.ofExcept (commandOf a)
  let reply ← (s.address command).adapt (.faulted a.op)
  Run.ofExcept (replyValue a.op command reply)

end Surface

/-! ## Evaluation -/

/-- What an item of a list of elements stands for. -/
def itemValue (bindings : Bindings) (name : String) (index : Nat) : Except EvalError Value :=
  match bindings.find? name with
  | none => .error (.undefined name)
  | some (.elements values) =>
    match values[index]? with
    | some e => .ok (.element e)
    | none => .error (.outOfRange name index values.length)
  | some got => .error (.notAList name got)

/-- The value of a parameter that no argument was given for. -/
def absentValue (op : Operation) (p : Param) : Except EvalError Value :=
  if p.required then .error (.missingArgument op p.name) else .ok .nothing

/-- The value, if the parameter accepts it. -/
def checkedValue (op : Operation) (p : Param) (value : Value) : Except EvalError Value :=
  if p.accepts value then .ok value else .error (.unfitArgument op p.name value)

namespace Surface

variable {σ : Type} (s : Surface σ)

mutual

/-- The value of the expression where the names stand for the given values. -/
def eval (bindings : Bindings) : Expr → Run σ EvalError Value
  | .text value => pure (.text value)
  | .number value => pure (.number value)
  | .bool value => pure (.bool value)
  | .nothing => pure .nothing
  | .var name =>
    match bindings.find? name with
    | some value => pure value
    | none => throw (.undefined name)
  | .item name index => Run.ofExcept (itemValue bindings name index)
  | .call op args => do
    let values ← evalArgs bindings op op.params args
    s.carryOut ⟨op, values⟩

/-- The values for the parameters, in their order. -/
def evalArgs (bindings : Bindings) (op : Operation) :
    List Param → List (Option Expr) → Run σ EvalError (List Value)
  | [], _ => pure []
  | p :: params, some arg :: args => do
    let value ← eval bindings arg
    let value ← Run.ofExcept (checkedValue op p value)
    return value :: (← evalArgs bindings op params args)
  | p :: params, none :: args => do
    let value ← Run.ofExcept (absentValue op p)
    return value :: (← evalArgs bindings op params args)
  | params, [] => Run.ofExcept (params.mapM (absentValue op))

end

end Surface

/-! ## Programs -/

/-- Why a line of an action failed. -/
inductive FailureCause where
  | notParsed (cause : SyntaxError)
  | notEvaluated (cause : EvalError)
  | noStatement
deriving DecidableEq, Repr

/-- The line of an action that failed, and why. -/
structure ActionFailure where
  line : Nat
  source : String
  cause : FailureCause
deriving DecidableEq, Repr

namespace ActionFailure

def reason (f : ActionFailure) : String :=
  match f.cause with
  | .notParsed cause => "syntax error: " ++ cause.message
  | .notEvaluated cause => cause.message
  | .noStatement => "action is empty"

def message (f : ActionFailure) : String :=
  "line " ++ toString f.line ++ ": " ++ f.source ++ ": " ++ f.reason

def ofSyntaxError (e : ActionSyntaxError) : ActionFailure := ⟨e.line, e.source, .notParsed e.cause⟩

end ActionFailure

namespace Surface

variable {σ : Type} (s : Surface σ)

/-- Runs the statements where the names stand for the given values; the values after. -/
def runStatements (bindings : Bindings) : List Statement → Run σ ActionFailure Bindings
  | [] => pure bindings
  | statement :: more => do
    let value ← (s.eval bindings statement.expr).adapt fun cause =>
      ⟨statement.line, statement.source, .notEvaluated cause⟩
    match statement.binding with
    | some name => runStatements (bindings.insert name value) more
    | none => runStatements bindings more

def runProgram (p : Program) : Run σ ActionFailure Bindings := s.runStatements [] p.statements

/-- Reads an action text and runs it; nothing runs unless every line can be read. -/
def runAction (action : String) : Run σ ActionFailure Bindings :=
  match Action.parse action with
  | .error e => throw (.ofSyntaxError e)
  | .ok program => s.runProgram program

/-- Runs an action that has to have a statement. -/
def runWhole (action : String) : Run σ ActionFailure Unit :=
  match Action.parse action with
  | .error e => throw (.ofSyntaxError e)
  | .ok program =>
    if program.statements.isEmpty then throw ⟨1, "", .noStatement⟩
    else discard (s.runProgram program)

end Surface

end BrowserAgent
