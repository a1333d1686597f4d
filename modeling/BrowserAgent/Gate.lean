import BrowserAgent.Text.Search

/-!
# The safety gate

An action is refused if its text contains an import or the name of a module that reaches beyond
the browser, wherever it stands. Of several, the first of the list is reported.
-/

namespace BrowserAgent.Gate

def importToken : String := "import "

def denied : List String := ["shutil", "requests", "urllib", "subprocess", "socket"]

/-- The first token of the list that the action contains. -/
def refusedToken? (action : String) : Option String :=
  (importToken :: denied).find? fun token => Text.contains token action

def isAccepted (action : String) : Bool := (refusedToken? action).isNone

def message (token : String) : String := "action contains disallowed token `" ++ token ++ "`"

end BrowserAgent.Gate
