/-!
# JSON values
-/

namespace BrowserAgent

inductive JsonValue where
  | null
  | bool (value : Bool)
  /-- The number as it is written. -/
  | number (literal : String)
  | text (value : String)
  | list (items : List JsonValue)
  /-- The members in the order in which they are written. -/
  | object (members : List (String × JsonValue))

end BrowserAgent
