import BrowserAgent.Text.Blank

/-!
# Lines

A line ends at a line feed. `lines` also takes the carriage return that stands directly before
that line feed, and a final line feed starts no new line; `pieces` keeps every character.
-/

namespace BrowserAgent.Text

/-- The runs between the separators; there is always at least one. -/
def splitAtChar (sep : Char) : List Char → List (List Char)
  | [] => [[]]
  | c :: cs =>
    if c = sep then [] :: splitAtChar sep cs
    else match splitAtChar sep cs with
      | [] => [[c]]
      | run :: runs => (c :: run) :: runs

/-- The list without one carriage return at its end. -/
def dropReturn (cs : List Char) : List Char :=
  if cs.getLast? = some '\r' then cs.dropLast else cs

/-- Ended lines lose their carriage return; what follows the last line feed is a line unless it is
empty. -/
def closeLines : List (List Char) → List (List Char)
  | [] => []
  | [last] => if last.isEmpty then [] else [last]
  | line :: next :: more => dropReturn line :: closeLines (next :: more)

/-- The lines of a text, without their ends. -/
def lines (s : String) : List String := (closeLines (splitAtChar '\n' s.toList)).map String.ofList

/-- The text cut at every line feed, nothing else removed. -/
def pieces (s : String) : List String := (splitAtChar '\n' s.toList).map String.ofList

/-- The lines with a line feed between neighbours. -/
def unlines (ls : List String) : String := "\n".intercalate ls

end BrowserAgent.Text
