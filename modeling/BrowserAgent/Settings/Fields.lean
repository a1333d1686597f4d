import BrowserAgent.Number.Word
import BrowserAgent.Settings.Basic
import BrowserAgent.Toml.Printer
import BrowserAgent.Toml.Reader

/-!
# Settings as text

Settings are two tables. A field that is missing has its standard value, and unknown fields are
passed over. A table of fields may also be written as a list of their values in order.
-/

namespace BrowserAgent

def OnExhausted.word : OnExhausted → String
  | .fatal => "fatal"
  | .continue => "continue"

def ReplayOnFailure.word : ReplayOnFailure → String
  | .fatal => "fatal"
  | .stepThrough => "step_through"

namespace Settings

/-! ## Reading -/

/-- The fields of a table, each if it is there. -/
def fields? (names : List String) : Toml.Value → Option (List (Option Toml.Value))
  | .table _ members => some (names.map fun name => members.lookup name)
  -- A date or a time counts as a table without any.
  | .moment _ => some (names.map fun _ => none)
  | .list items _ =>
    some ((items.take names.length).map some ++ List.replicate (names.length - items.length) none)
  | _ => none

/-- A field, or its standard value if it is missing. -/
def readField {α : Type} (read : Toml.Value → Option α) (standard : α) :
    Option Toml.Value → Option α
  | none => some standard
  | some v => read v

def readTexts : Toml.Value → Option (List String)
  | .list items _ => items.mapM fun
    | .text s => some s
    | _ => none
  | _ => none

def readBool : Toml.Value → Option Bool
  | .bool b => some b
  | _ => none

/-- A whole number of at most so many bits. -/
def readNat (bits : Nat) : Toml.Value → Option Nat
  | .integer n => if 0 ≤ n && n < Int.ofNat (Nat.pow 2 bits) then some n.toNat else none
  | _ => none

/-- A number of 32 bits, read by way of one of 64 bits if it has a point. -/
def readSingle : Toml.Value → Option Number.Binary
  | .float x => some (Number.single.convert x)
  | .integer n =>
    if Number.Word.least ≤ n && n < Number.Word.count then
      some (Number.single.round (n < 0) n.natAbs 1)
    else none
  | _ => none

/-- One of some words; a word may also be the only key of a table, with nothing under it. -/
def readChoice {α : Type} (choices : List (String × α)) : Toml.Value → Option α
  | .text s => choices.lookup s
  | .table _ [(name, .table _ [])] => choices.lookup name
  | .table _ [(name, .list [] _)] => choices.lookup name
  | _ => none

def modelNames : List String :=
  ["command", "timeout_secs", "output_limit_bytes", "transient_backoff_secs", "temperature",
    "max_tokens"]

def engineNames : List String :=
  ["max_attempts", "on_exhausted", "safety_check", "use_compiled", "replay_on_failure",
    "diagnostic_limit_bytes"]

def readModel (v : Toml.Value) : Option ModelSettings := do
  let m := standard.model
  match ← fields? modelNames v with
  | [command, timeout, outputLimit, backoff, temperature, maxTokens] =>
    return ⟨← readField readTexts m.command command, ← readField (readNat 64) m.timeoutSecs timeout,
      ← readField (readNat 64) m.outputLimit outputLimit,
      ← readField (readNat 64) m.backoffSecs backoff,
      ← readField readSingle m.temperature temperature,
      ← readField (readNat 32) m.maxTokens maxTokens⟩
  | _ => none

def onExhaustedChoices : List (String × OnExhausted) :=
  [OnExhausted.fatal, .continue].map fun c => (c.word, c)

def onFailureChoices : List (String × ReplayOnFailure) :=
  [ReplayOnFailure.fatal, .stepThrough].map fun c => (c.word, c)

/-- The rules of a run, and whether the actions of a document are replayed. -/
def readEngine (v : Toml.Value) : Option (EngineSettings × Bool) := do
  let e := standard.engine
  match ← fields? engineNames v with
  | [maxAttempts, onExhausted, safetyCheck, useCompiled, onFailure, limit] =>
    return (⟨← readField (readNat 32) e.maxAttempts maxAttempts,
      ← readField (readChoice onExhaustedChoices) e.onExhausted onExhausted,
      ← readField readBool e.safetyCheck safetyCheck,
      ← readField (readChoice onFailureChoices) e.replayOnFailure onFailure,
      ← readField (readNat 64) e.diagnosticLimit limit⟩,
      ← readField readBool standard.useCompiled useCompiled)
  | _ => none

/-- The settings that a text holds, valid or not. -/
def read? (s : String) : Option Settings := do
  let members ← Toml.read s
  let model ← readField readModel standard.model (members.lookup "model")
  let (engine, useCompiled) ←
    readField readEngine (standard.engine, standard.useCompiled) (members.lookup "engine")
  return ⟨model, engine, useCompiled⟩

/-! ## Writing -/

def line (name : String) (value : List Char) : List Char :=
  name.toList ++ " = ".toList ++ value ++ ['\n']

def natChars (n : Nat) : List Char := (toString n).toList

def boolChars (b : Bool) : List Char := (toString b).toList

def render (s : Settings) : String :=
  let m := s.model
  let e := s.engine
  String.ofList ("[model]\n".toList ++
    line "command" (Toml.textList m.command) ++
    line "timeout_secs" (natChars m.timeoutSecs) ++
    line "output_limit_bytes" (natChars m.outputLimit) ++
    line "transient_backoff_secs" (natChars m.backoffSecs) ++
    line "temperature" (Number.settingsNumber.render Number.single m.temperature).toList ++
    line "max_tokens" (natChars m.maxTokens) ++
    "\n[engine]\n".toList ++
    line "max_attempts" (natChars e.maxAttempts) ++
    line "on_exhausted" (Toml.quotedText e.onExhausted.word) ++
    line "safety_check" (boolChars e.safetyCheck) ++
    line "use_compiled" (boolChars s.useCompiled) ++
    line "replay_on_failure" (Toml.quotedText e.replayOnFailure.word) ++
    line "diagnostic_limit_bytes" (natChars e.diagnosticLimit) ++ ['\n'])

end Settings

end BrowserAgent
