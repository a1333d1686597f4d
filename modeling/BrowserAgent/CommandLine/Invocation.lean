import BrowserAgent.Disk.Path
import BrowserAgent.Text.Search

/-!
# What a command line asks for

A command line names a job, the file it works on, and options in any order. An option may be given
once; its value follows it as the next word, after an equals sign, or directly after its letter.
-/

namespace BrowserAgent

inductive Invocation where
  /-- Show the blocks of a script. -/
  | compile (script : Path)
  /-- Run a script or a document. -/
  | run (script settings : Path) (output transcript : Option Path)
  /-- Write the standard settings. -/
  | initConfig (settings : Path) (force : Bool)
deriving DecidableEq, Repr

namespace Invocation

structure OptionRule where
  name : String
  letter : Option Char
  takesValue : Bool
deriving DecidableEq, Repr

def settingsRule : OptionRule := ⟨"config", none, true⟩
def outputRule : OptionRule := ⟨"output", some 'o', true⟩
def transcriptRule : OptionRule := ⟨"transcript", none, true⟩
def forceRule : OptionRule := ⟨"force", some 'f', false⟩

/-- The name of an option and the value written together with it. -/
def splitOption (rules : List OptionRule) (word : String) : Option (OptionRule × Option String) :=
  match word.toList with
  | '-' :: '-' :: cs =>
    let name := String.ofList (cs.takeWhile (· != '='))
    let value := match cs.dropWhile (· != '=') with
      | _ :: value => some (String.ofList value)
      | [] => none
    (rules.find? fun r => r.name == name).map fun r => (r, value)
  | '-' :: letter :: cs =>
    let value := match cs with
      | [] => none
      | '=' :: value => some (String.ofList value)
      | value => some (String.ofList value)
    (rules.find? fun r => r.letter == some letter).map fun r => (r, value)
  | _ => none

def isOption (word : String) : Bool := Text.startsWith "-" word && word != "-"

/-- The options with their values, and the other words; nothing if an option is not one of the rules
or lacks its value. -/
def sort (rules : List OptionRule) : List String → Option (List (String × String) × List String)
  | [] => some ([], [])
  | [word] =>
    if word = "--" then some ([], [])
    else if isOption word then
      match splitOption rules word with
      | some (rule, some value) => if rule.takesValue then some ([(rule.name, value)], []) else none
      | some (rule, none) => if rule.takesValue then none else some ([(rule.name, "")], [])
      | none => none
    else some ([], [word])
  | word :: next :: more =>
    if word = "--" then some ([], next :: more)
    else if isOption word then
      match splitOption rules word with
      | some (rule, some value) =>
        if rule.takesValue then
          (sort rules (next :: more)).map fun (options, words) =>
            ((rule.name, value) :: options, words)
        else none
      | some (rule, none) =>
        if !rule.takesValue then
          (sort rules (next :: more)).map fun (options, words) =>
            ((rule.name, "") :: options, words)
        else if isOption next then none
        else (sort rules more).map fun (options, words) => ((rule.name, next) :: options, words)
      | none => none
    else (sort rules (next :: more)).map fun (options, words) => (options, word :: words)

/-- No option is given twice. -/
def areDistinct (options : List (String × String)) : Bool := (options.map (·.1)).Nodup

def pathOption (options : List (String × String)) (rule : OptionRule) : Option Path :=
  (options.lookup rule.name).map Path.mk

def standardSettings : Path := ⟨"pilot.toml"⟩

def ofArgs? : List String → Option Invocation
  | "compile" :: args =>
    match sort [] args with
    | some (_, [script]) => some (.compile ⟨script⟩)
    | _ => none
  | "run" :: args =>
    match sort [settingsRule, outputRule, transcriptRule] args with
    | some (options, [script]) =>
      if areDistinct options then
        some (.run ⟨script⟩ ((pathOption options settingsRule).getD standardSettings)
          (pathOption options outputRule) (pathOption options transcriptRule))
      else none
    | _ => none
  | "init-config" :: args =>
    match sort [settingsRule, forceRule] args with
    | some (options, []) =>
      if areDistinct options then
        some (.initConfig ((pathOption options settingsRule).getD standardSettings)
          (pathOption options forceRule).isSome)
      else none
    | _ => none
  | _ => none

end Invocation

end BrowserAgent
