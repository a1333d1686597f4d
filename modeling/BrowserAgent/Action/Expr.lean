import BrowserAgent.Action.Operation
import BrowserAgent.Action.Expectation
import BrowserAgent.Text.Search

/-!
# Expressions

An expression calls operations of the table only, and every call has one slot for each parameter.
Arguments go to slots by position or by keyword; a slot is filled once and every required slot is
filled.
-/

namespace BrowserAgent

open Number

inductive Expr where
  /-- A slot without an expression is an optional parameter left out. -/
  | call (op : Operation) (args : List (Option Expr))
  | text (value : String)
  | number (value : Binary)
  | bool (value : Bool)
  | nothing
  | var (name : String)
  | item (name : String) (index : Nat)

/-- Why a line is no statement. -/
inductive SyntaxError where
  | unexpected (found : Expectation)
  | reservedName (name : String)
  | indexTooLarge (name : String)
  | unknownOperation (callee : String)
  | unknownParameter (op : Operation) (key : String)
  | parameterTwice (op : Operation) (key : String)
  | positionalAfterKeyword (op : Operation)
  | tooManyArguments (op : Operation)
  | missingArgument (op : Operation) (param : String)
deriving DecidableEq, Repr

def SyntaxError.message : SyntaxError → String
  | .unexpected found => found.message
  | .reservedName name => "`" ++ name ++ "` cannot be used as a variable name"
  | .indexTooLarge name => "index into `" ++ name ++ "` must be a non-negative integer"
  | .unknownOperation callee => "unknown operation `" ++ callee ++ "`"
  | .unknownParameter op key => "`" ++ op.name ++ "` has no parameter `" ++ key ++ "`"
  | .parameterTwice op key => "`" ++ op.name ++ "` parameter `" ++ key ++ "` given twice"
  | .positionalAfterKeyword op =>
    "`" ++ op.name ++ "`: positional argument after keyword argument"
  | .tooManyArguments op =>
    "`" ++ op.name ++ "` takes at most " ++ toString op.params.length ++ " argument(s)"
  | .missingArgument op param => "`" ++ op.name ++ "` is missing argument `" ++ param ++ "`"

/-- The words that no binding may use, besides the names of operations. -/
def reservedWords : List String :=
  Action.trueWords ++ Action.falseWords ++ Action.noneWords ++ ["let"]

def isReserved (name : String) : Bool :=
  (Operation.ofName? name).isSome || reservedWords.contains name

/-- A callee names an operation, after one `env.` if it has it. -/
def Operation.ofCallee? (callee : String) : Option Operation :=
  Operation.ofName? ((Text.dropStart? "env." callee).getD callee)

/-- The first required parameter whose slot is empty. -/
def firstMissing : List Param → List (Option Expr) → Option Param
  | param :: params, slot :: slots =>
    if param.required && slot.isNone then some param else firstMissing params slots
  | _, _ => none

/-- Where an argument goes: its keyword's slot, or the next position. -/
def slotFor (op : Operation) (slots : List (Option Expr)) (positional : Nat) (afterKeyword : Bool) :
    Option String → Except SyntaxError Nat
  | some key =>
    match op.params.findIdx? fun param => param.name == key with
    | none => .error (.unknownParameter op key)
    | some slot =>
      if ((slots[slot]?).bind id).isSome then .error (.parameterTwice op key) else .ok slot
  | none =>
    if afterKeyword then .error (.positionalAfterKeyword op)
    else if op.params.length ≤ positional then .error (.tooManyArguments op)
    else .ok positional

/-- An index is kept if it is below `2 ^ 64`. -/
def indexLimit : Nat := Nat.pow 2 64

namespace Phrase

mutual

/-- The expression that the phrase stands for. -/
def toExpr : Phrase → Except SyntaxError Expr
  | .call callee args =>
    match Operation.ofCallee? callee with
    | none => .error (.unknownOperation callee)
    | some op => do
      let slots ← fillSlots op args (List.replicate op.params.length none) 0 false
      match firstMissing op.params slots with
      | some param => .error (.missingArgument op param.name)
      | none => .ok (.call op slots)
  | .text value => .ok (.text value)
  | .number literal => .ok (.number (literal.toBinary double))
  | .bool value => .ok (.bool value)
  | .nothing => .ok .nothing
  | .var name => .ok (.var name)
  | .item name index =>
    if index < indexLimit then .ok (.item name index) else .error (.indexTooLarge name)

/-- The slots after the arguments have taken theirs, from left to right. -/
def fillSlots (op : Operation) :
    List (Option String × Phrase) → List (Option Expr) → Nat → Bool →
      Except SyntaxError (List (Option Expr))
  | [], slots, _, _ => .ok slots
  | (key, value) :: args, slots, positional, afterKeyword => do
    let slot ← slotFor op slots positional afterKeyword key
    let expr ← toExpr value
    let next := if key.isSome then positional else positional + 1
    fillSlots op args (slots.set slot (some expr)) next (afterKeyword || key.isSome)

end

end Phrase

/-- The name that a line binds, if any, and the expression on it. -/
def readStatement (line : String) : Except SyntaxError (Option String × Expr) :=
  match Action.readStatement? line with
  | none => .error (.unexpected (.ofLine line))
  | some (binding, phrase) =>
    match binding.filter isReserved with
    | some name => .error (.reservedName name)
    | none => phrase.toExpr.map fun expr => (binding, expr)

end BrowserAgent
