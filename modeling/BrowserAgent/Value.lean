import BrowserAgent.Number.Decimal
import BrowserAgent.Number.Shortest
import BrowserAgent.Surface.Element
import BrowserAgent.Table

/-!
# Values of expressions
-/

namespace BrowserAgent

open Number

inductive Value where
  | nothing
  | text (value : String)
  | number (value : Binary)
  | bool (value : Bool)
  | element (value : Element)
  | elements (values : List Element)
deriving DecidableEq, Repr

namespace Value

/-- What kind of value it is, in a message. -/
def kindText : Value → String
  | nothing => "none"
  | text _ => "text"
  | number _ => "number"
  | bool _ => "bool"
  | element _ => "element"
  | elements values => "list of " ++ toString values.length ++ " elements"

/-- The value as a person sees it. -/
def display : Value → String
  | nothing => "none"
  | text value => value
  | number value => plain.render double value
  | bool value => toString value
  | element value => value.text
  | elements values => "[" ++ toString values.length ++ " elements]"

/-- A text, or a number as its text. -/
def text? : Value → Option String
  | text value => some value
  | number value => some (plain.render double value)
  | _ => none

def element? : Value → Option Element
  | element value => some value
  | _ => none

/-- A number, or a text that spells one. -/
def number? : Value → Option Binary
  | number value => some value
  | text value => Decimal.readNumber? double (Text.trim value)
  | _ => none

end Value

/-- The values that the names of an action stand for. -/
abbrev Bindings := Table Value

end BrowserAgent
