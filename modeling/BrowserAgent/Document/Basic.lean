import BrowserAgent.History
import BrowserAgent.Script

/-!
# Documents of a run

A document keeps what a run did: the lines of its instructions, the lines of its actions, and the
steps, each an instruction with its action. Only the steps keep the boundaries between records. A
document may lack the actions or the steps.
-/

namespace BrowserAgent

structure Document where
  instructions : List String
  compiled : Option (List String)
  steps : Option (List ActionRecord)
deriving DecidableEq, Repr

/-- How a document is to be run. -/
inductive Plan where
  /-- Make an action for every instruction. -/
  | stepThrough (script : Script)
  /-- Run actions made earlier; explicit ones come from the steps. -/
  | replay (records : List ActionRecord) (explicitSteps : Bool)
deriving DecidableEq, Repr

namespace Document

/-- The lines of the instructions and those of the actions, each in the order of the records. -/
def flatten (records : List ActionRecord) : List String × List String :=
  (records.flatMap fun r => r.instruction.lines, records.flatMap fun r => Text.pieces r.action)

def ofRecords (records : List ActionRecord) : Document :=
  let (instructions, actions) := flatten records
  ⟨instructions, some actions, some records⟩

/-- The document of every record that did not fail. -/
def ofHistory (h : History) : Document := ofRecords (h.finished.map (·.toActionRecord))

def actionLines (d : Document) : List String := d.compiled.getD []

def stepRecords (d : Document) : List ActionRecord := d.steps.getD []

/-- The document holds actions to replay. -/
def hasActions (d : Document) : Bool := !d.stepRecords.isEmpty || !d.actionLines.isEmpty

/-- Actions are replayed if they may be used and there are any, those of the steps first. Otherwise
the instructions of the steps are queued or, without steps, the lines are read as a script. -/
def plan (d : Document) (useCompiled : Bool) : Except ScriptError Plan :=
  if useCompiled && d.hasActions then
    if d.stepRecords.isEmpty then
      .ok (.replay [⟨⟨Text.unlines d.instructions⟩, Text.unlines d.actionLines⟩] false)
    else .ok (.replay d.stepRecords true)
  else if d.stepRecords.isEmpty then
    (Script.parse (Text.unlines d.instructions)).map .stepThrough
  else
    .ok (.stepThrough ⟨(d.stepRecords.map (·.instruction)).filter fun i => !i.isBlank, []⟩)

end Document

end BrowserAgent
