import BrowserAgent.Action.Program
import BrowserAgent.Text.Search

/-!
# Completions

A model may put its answer into a code block and may go on writing behind it. The completion is
what stands in the block, up to the first stop.
-/

namespace BrowserAgent.Completion

/-- The output without blanks in front; without its first line if that opens a code block. -/
def body (output : String) : List Char :=
  let text := (Text.trimStart output).toList
  if fence.toList.isPrefixOf text then
    ((text.drop fence.length).dropWhile (· != '\n')).drop 1
  else text

/-- The body of an output up to the first stop in it. -/
def ofOutput (stops : List String) (output : String) : String :=
  String.ofList (Text.cutBefore (stops.map String.toList) (body output))

end BrowserAgent.Completion
