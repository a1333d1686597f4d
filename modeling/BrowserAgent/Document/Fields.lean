import BrowserAgent.Decoding
import BrowserAgent.Document.Basic
import BrowserAgent.Json.Value

/-!
# Documents as values

A document is written as an object whose parts stand in a fixed order, and what it lacks is left
out. Read, it is a record that need not have the parts that a document may lack.
-/

namespace BrowserAgent.Document

/-! ## Writing -/

def textList (lines : List String) : JsonValue := .list (lines.map .text)

def stepValue (r : ActionRecord) : JsonValue :=
  .object [("instruction", .text r.instruction.text), ("action", .text r.action)]

/-- The parts of a document with their names. -/
def members (d : Document) : List (String × JsonValue) :=
  [("instructions", textList d.instructions)] ++
    (d.compiled.map fun lines => ("compiled", textList lines)).toList ++
    (d.steps.map fun steps => ("steps", .list (steps.map stepValue))).toList

/-! ## Reading -/

variable {D : Type → Type} [Functor D] (f : Decoding.Format D)

def stepRecord : Decoding.Record D ActionRecord where
  name := "CompiledStep"
  start := ⟨⟨""⟩, ""⟩
  fields := [
    ⟨"instruction", false, (fun text r => { r with instruction := ⟨text⟩ }) <$> f.text⟩,
    ⟨"action", false, (fun text r => { r with action := text }) <$> f.text⟩]

def record : Decoding.Record D Document where
  name := "CompiledScript"
  start := ⟨[], none, none⟩
  fields := [
    ⟨"instructions", false, (fun lines d => { d with instructions := lines }) <$> f.list f.text⟩,
    ⟨"compiled", true,
      (fun lines d => { d with compiled := lines }) <$> f.optional (f.list f.text)⟩,
    ⟨"steps", true,
      (fun steps d => { d with steps := steps }) <$>
        f.optional (f.list (f.record (stepRecord f)))⟩]

/-- A document in a format. -/
def decoder : D Document := f.record (record f)

end BrowserAgent.Document
