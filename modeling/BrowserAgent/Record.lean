import BrowserAgent.Text.Lines

/-!
# Instructions and the actions made for them
-/

namespace BrowserAgent

/-- What is to be done, in a person's words; one or more lines. -/
structure Instruction where
  text : String
deriving DecidableEq, Repr

namespace Instruction

def isBlank (i : Instruction) : Bool := Text.isBlankText i.text

def lines (i : Instruction) : List String := Text.pieces i.text

end Instruction

/-- An instruction with the action text made for it. -/
structure ActionRecord where
  instruction : Instruction
  action : String
deriving DecidableEq, Repr

end BrowserAgent
