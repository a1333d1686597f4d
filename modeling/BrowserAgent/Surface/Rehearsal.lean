import BrowserAgent.Surface.Command

/-!
# A browser for rehearsals

It carries out nothing. It keeps a log of the commands, makes up elements with ascending numbers,
answers every question with one text, and fails the commands it was told to fail.
-/

namespace BrowserAgent

structure Rehearsal where
  /-- The commands given, oldest first, failed ones too. -/
  calls : List Command
  /-- The failures to come, each for the next command of that name. -/
  failures : List (String × String)
  /-- How many elements a lookup finds. -/
  found : Nat
  /-- How many elements were made so far. -/
  made : Nat
  /-- The frame that new elements lie in. -/
  elementFrame : Option String
  currentFrame : Option String
  /-- The answer to every question for a text. -/
  text : String
deriving DecidableEq, Repr

/-- The first entry of the name, and the list without it. -/
def takeFirst? (name : String) : List (String × String) → Option (String × List (String × String))
  | [] => none
  | (other, value) :: more =>
    if other = name then some (value, more)
    else (takeFirst? name more).map fun (found, rest) => (found, (other, value) :: rest)

namespace Rehearsal

def new : Rehearsal := ⟨[], [], 1, 0, none, none, ""⟩

/-- The elements made next, and the state after. -/
def make (r : Rehearsal) (count : Nat) : List Element × Rehearsal :=
  ((List.range count).map fun i => ⟨"e" ++ toString (r.made + i + 1), r.elementFrame⟩,
    { r with made := r.made + count })

/-- The frame after a command, whether or not the command then fails. -/
def frameAfter (r : Rehearsal) : Command → Option String
  | .enterFrame frame => some frame
  | .exitFrame => none
  | _ => r.currentFrame

/-- The reply to a command that does not fail. -/
def reply (r : Rehearsal) : (c : Command) → c.Reply × Rehearsal
  | .findElements .. => r.make r.found
  | .findNearest .. =>
    (⟨"e" ++ toString (r.made + 1), r.elementFrame⟩, { r with made := r.made + 1 })
  | .findByDescription _ =>
    if r.found = 0 then (none, r)
    else (some ⟨"e" ++ toString (r.made + 1), r.elementFrame⟩, { r with made := r.made + 1 })
  | .queryLlm _ | .queryMemory _ | .retrieve .. | .elementText _ | .pageText _ => (r.text, r)
  | .navigate _ | .sendKeys .. | .click _ | .wait _ | .scroll .. | .screenshot .. | .save ..
  | .enterFrame _ | .exitFrame => ((), r)

/-- Logs the command, then fails or answers it. -/
def perform (c : Command) : Run Rehearsal Fault c.Reply := ExceptT.mk fun r =>
  let r := { r with calls := r.calls ++ [c], currentFrame := r.frameAfter c }
  match takeFirst? c.name r.failures with
  | some (reason, rest) => (.error (.refused reason), { r with failures := rest })
  | none => let (reply, r) := r.reply c; (.ok reply, r)

def surface : Surface Rehearsal := ⟨"FakeBrowser", perform⟩

/-! ## The log as text -/

def idOf : Option Element → String
  | some e => e.id
  | none => "none"

/-- The arguments of a command as the log shows them. -/
def argTexts : Command → List String
  | .navigate url => [url]
  | .findElements strategy value none => [strategy.word, value]
  | .findElements strategy value (some within) => [strategy.word, value, "within=" ++ within.id]
  | .findNearest anchor xpath direction => [anchor.id, xpath, direction.word]
  | .findByDescription description => [description]
  | .sendKeys element text => [idOf element, text]
  | .click element => [element.id]
  | .wait duration => [Number.plain.render Number.double duration.toSeconds]
  | .scroll direction frame => [direction.word, idOf frame]
  | .queryLlm text | .queryMemory text => [text]
  | .retrieve prompt entirePage => [prompt, toString entirePage]
  | .screenshot element filename => [element.id, filename]
  | .save text filename => [text, filename]
  | .elementText element => [element.id]
  | .pageText entirePage => [toString entirePage]
  | .enterFrame frame => [frame]
  | .exitFrame => []

/-- The command's name with its arguments in brackets; leaving a frame has neither. -/
def callText (c : Command) : String :=
  if c = .exitFrame then c.name else c.name ++ "(" ++ ", ".intercalate (argTexts c) ++ ")"

end Rehearsal

end BrowserAgent
