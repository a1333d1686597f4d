import BrowserAgent.Json.Printer
import BrowserAgent.Surface.Command
import BrowserAgent.Text.Search

/-!
# A browser that keeps a transcript

It carries out nothing and fails nothing. Each command other than entering and leaving a frame
makes an entry with the frame and the page it was given on. A lookup finds one made-up element in
the current frame, and a question for a text has an empty answer.

The entries are those of one browser. Where they go to a file, `CommandLine.openTranscript` and
`CommandLine.writeEntries` put their lines behind the lines that the file has already. The browser
itself knows of no file: an entry is always made. A line that cannot be encoded, written or flushed,
which would make its command fail and leave the page and the elements made as they were, is not
among the things that happen here.
-/

namespace BrowserAgent

/-- A command with the frame and the page it was given on. -/
structure TranscriptEntry where
  command : Command
  frame : Option String
  url : Option String
deriving DecidableEq, Repr

structure Transcript where
  /-- Oldest first. -/
  entries : List TranscriptEntry
  /-- How many elements were made so far. -/
  made : Nat
  currentFrame : Option String
  currentUrl : Option String
deriving DecidableEq, Repr

namespace Transcript

def new : Transcript := ⟨[], 0, none, none⟩

/-- An address without a scheme gets one. -/
def withScheme (url : String) : String :=
  if Text.startsWith "http" url then url else "http://" ++ url

/-- The command as it is entered. -/
def entered : Command → Command
  | .navigate url => .navigate (withScheme url)
  | c => c

def enter (t : Transcript) (c : Command) : Transcript :=
  { t with entries := t.entries ++ [⟨entered c, t.currentFrame, t.currentUrl⟩] }

def element (t : Transcript) : Element := ⟨"e" ++ toString (t.made + 1), t.currentFrame⟩

def countElement (t : Transcript) : Transcript := { t with made := t.made + 1 }

def reply (t : Transcript) : (c : Command) → c.Reply × Transcript
  | .navigate url => ((), { t.enter (.navigate url) with currentUrl := some (withScheme url) })
  | .findElements strategy value within =>
    ([t.element], (t.enter (.findElements strategy value within)).countElement)
  | .findNearest anchor xpath direction =>
    (t.element, (t.enter (.findNearest anchor xpath direction)).countElement)
  | .findByDescription description =>
    (some t.element, (t.enter (.findByDescription description)).countElement)
  | .queryLlm text => ("", t.enter (.queryLlm text))
  | .queryMemory text => ("", t.enter (.queryMemory text))
  | .retrieve prompt entirePage => ("", t.enter (.retrieve prompt entirePage))
  | .elementText element => ("", t.enter (.elementText element))
  | .pageText entirePage => ("", t.enter (.pageText entirePage))
  | .sendKeys element text => ((), t.enter (.sendKeys element text))
  | .click element => ((), t.enter (.click element))
  | .wait duration => ((), t.enter (.wait duration))
  | .scroll direction frame => ((), t.enter (.scroll direction frame))
  | .screenshot element filename => ((), t.enter (.screenshot element filename))
  | .save text filename => ((), t.enter (.save text filename))
  | .enterFrame frame => ((), { t with currentFrame := some frame })
  | .exitFrame => ((), { t with currentFrame := none })

def perform (c : Command) : Run Transcript Fault c.Reply := ExceptT.mk fun t =>
  let (reply, t) := t.reply c
  (.ok reply, t)

def surface : Surface Transcript := ⟨"TranscriptBrowser", perform⟩

end Transcript

/-! ## Entries as lines -/

namespace TranscriptEntry

def textOrNull : Option String → JsonValue
  | some s => .text s
  | none => .null

def idOrNull (e : Option Element) : JsonValue := textOrNull (e.map (·.id))

/-- The arguments of a command by name, in ascending order of the names. -/
def args : Command → List (String × JsonValue)
  | .navigate url => [("url", .text url)]
  | .findElements strategy value within =>
    [("by", .text strategy.word), ("value", .text value), ("within", idOrNull within)]
  | .findNearest anchor xpath direction =>
    [("anchor", .text anchor.id), ("direction", .text direction.word), ("xpath", .text xpath)]
  | .findByDescription description => [("description", .text description)]
  | .sendKeys element text => [("element", idOrNull element), ("text", .text text)]
  | .click element | .elementText element => [("element", .text element.id)]
  | .wait duration =>
    [("seconds", .number (Number.jsonNumber.render Number.double duration.toSeconds))]
  | .scroll direction frame => [("direction", .text direction.word), ("frame", idOrNull frame)]
  | .queryLlm text | .queryMemory text => [("text", .text text)]
  | .retrieve prompt entirePage => [("entire_page", .bool entirePage), ("prompt", .text prompt)]
  | .screenshot element filename => [("element", .text element.id), ("filename", .text filename)]
  | .save text filename => [("filename", .text filename), ("text", .text text)]
  | .pageText entirePage => [("entire_page", .bool entirePage)]
  | .enterFrame frame => [("frame", .text frame)]
  | .exitFrame => []

/-- The entry as one line of JSON, names in ascending order. -/
def line (e : TranscriptEntry) : String :=
  (JsonValue.object [("args", .object (args e.command)), ("frame", textOrNull e.frame),
    ("op", .text e.command.name), ("url", textOrNull e.url)]).compact

end TranscriptEntry

end BrowserAgent
