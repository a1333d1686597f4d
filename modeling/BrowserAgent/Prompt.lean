import BrowserAgent.Record
import BrowserAgent.Surface.Element

/-!
# Prompts

A prompt tells the model what it may call, how to write it, and what to do. A prompt for another
attempt is the first prompt followed by the action that failed and the diagnostic. Each ends with
an open fence, so that the answer is an action and a closing fence.
-/

namespace BrowserAgent.Prompt

/-- Words in quotes, with commas between. -/
def wordList (ws : List String) : String := ", ".intercalate (ws.map fun w => "\"" ++ w ++ "\"")

/-- The lines before the instruction. -/
def preambleLines : List String := [
  "You control a web browser through these operations and nothing else:",
  "- `navigate(url)` opens `url`. A missing scheme defaults to `http://`.",
  "- `find_elements(by, value, within=none)` returns the list of visible elements " ++
    "matching the locator. `by` is the locator strategy (one of " ++
    wordList (Strategy.all.map Strategy.word) ++
    ") and `value` is the locator value. `by` is usually \"xpath\". Pass an element as " ++
    "`within` to search only its children.",
  "- `find_element(by, value, within=none)` is like `find_elements` but returns only " ++
    "the first element and fails when nothing matches.",
  "- `find_nearest(anchor, xpath, direction=\"above\")` returns the element matching " ++
    "`xpath` closest to element `anchor`. `direction` is one of " ++
    wordList (NearDirection.all.map NearDirection.word) ++
    ".",
  "- `send_keys(element, text)` types `text` into `element`. Pass `none` to type into " ++
    "the focused element. Use \"\\n\" for the enter key and \"\\t\" for tab.",
  "- `click(element)` clicks the element.",
  "- `wait(seconds)` waits for `seconds`.",
  "- `scroll(direction, frame=none)` scrolls the page, or the frame element when " ++
    "given. `direction` is one of " ++
    wordList (ScrollDirection.all.map ScrollDirection.word) ++
    ".",
  "- `query_llm(text)` asks an AI about `text` and returns its answer.",
  "- `query_memory(text)` asks an AI about every page visited so far. Use it for " ++
    "instructions like \"query memory\".",
  "- `retrieve_information(prompt, entire_page=false)` returns information from the " ++
    "current page for `prompt`. Use prompt=\"Summarize:\" for summaries. Uses all page " ++
    "text when `entire_page` is true, only visible text otherwise. Use it for " ++
    "instructions like \"retrieve\" or \"find in the page\".",
  "- `find_element_by_description(text)` asks an AI to find the element matching the " ++
    "description. It returns `none` when nothing matches.",
  "- `screenshot(element, filename)` saves a screenshot of the element to `filename`.",
  "- `save(text, filename)` saves `text` to the file `filename`.",
  "- `text(element)` returns the text of the element.",
  "- `page_text(entire_page=false)` returns the text of the page.",
  "",
  "Write one statement per line. A statement is a call, or `let name = call` to keep a " ++
    "result. Arguments are strings in double quotes, numbers, `true`, `false`, `none`, a " ++
    "name bound earlier, or `name[0]` to pick from a list. Calls may be nested.",
  "",
  "In xpaths, never use `text()`. Use `normalize-space()` instead.",
  "The xpath for an element whose text is \"text\" is \"//*[normalize-space() = 'text']\". " ++
    "The xpath for an element that contains text is \"//*[contains(normalize-space(), " ++
    "'text')]\".",
  "The xpath of a text box is usually \"//input|//div[@role = 'textarea']|//div[@role = " ++
    "'textbox']\".",
  "The xpath for a button is usually \"//button|//div[@role = 'button']\", but it may " ++
    "sometimes also be an anchor.",
  "",
  "Your action must obey the following constraints:",
  "1. Respect case sensitivity in the instructions.",
  "2. Call only the operations listed above.",
  "3. Only write the action. Do not write comments or explanations.",
  "4. Only do what the instructions say.",
  "",
  "INSTRUCTIONS:"]

def preamble : String := Text.unlines preambleLines

/-- What every prompt ends with. -/
def answerStart : String := "OUTPUT: ```"

/-- The prompt for a first attempt. -/
def action (i : Instruction) : String :=
  preamble ++ "\n" ++ Text.trim i.text ++ "\n\n" ++ answerStart

/-- What follows the first prompt for another attempt. -/
def retrySuffix (previousAction diagnostic : String) : String :=
  Text.trim previousAction ++ "\n\nThe action above failed. See diagnostic: " ++
    Text.trim diagnostic ++
    "\n\nPlease try again keeping in mind the above diagnostic. Only write the action.\n\n" ++
    answerStart

/-- The prompt for another attempt after an action failed. -/
def retry (i : Instruction) (previousAction diagnostic : String) : String :=
  action i ++ "\n" ++ retrySuffix previousAction diagnostic

end BrowserAgent.Prompt
