import BrowserAgent.Child.Basic
import BrowserAgent.CommandLine.Invocation
import BrowserAgent.CommandModel
import BrowserAgent.Document.Storage
import BrowserAgent.Settings.Storage
import BrowserAgent.Surface.Transcript

/-!
# The command line

A command line is carried out on a disk, with a host for the command that answers prompts. It
writes to two outputs and ends with a code: one for what could not start, one for a run that
failed, and one for an action that the gate refused.
-/

namespace BrowserAgent

/-- Why a command line was not carried out to its end. -/
inductive CommandLineError where
  | settings (path : Path) (cause : SettingsLoadError)
  | output (path : Path)
  | load (cause : LoadError)
  | documentScript (path : Path) (cause : ScriptError)
  | read (path : Path) (cause : DiskError)
  | script (path : Path) (cause : ScriptError)
  | transcriptDirectory (path : Path) (cause : DiskError)
  | transcript (path : Path) (cause : DiskError)
  | run (cause : RunError)
  | save (cause : SaveError)
  | alreadyThere (path : Path)
  | saveSettings (cause : SettingsSaveError)

namespace CommandLineError

/-- A script that is not valid, with the reason once more. -/
def invalidScript (e : ScriptError) : String := "invalid script: " ++ e.message ++ ": " ++ e.message

def message : CommandLineError → String
  | settings path cause => "load config " ++ path.text ++ ": " ++ cause.chain
  | output path => "output " ++ path.text ++ extensionRule
  | load cause => cause.chain
  | documentScript path cause =>
    "parse instructions in " ++ path.text ++ ": " ++ invalidScript cause
  | read path cause => "read " ++ path.text ++ ": " ++ cause.message
  | script path cause => "parse " ++ path.text ++ ": " ++ invalidScript cause
  | transcriptDirectory path cause => "create transcript dir " ++ path.text ++ ": " ++ cause.message
  | transcript path cause => "open transcript " ++ path.text ++ ": " ++ cause.message
  | run cause => cause.message
  | save cause => cause.chain
  | alreadyThere path => path.text ++ " already exists (use --force to overwrite)"
  | saveSettings cause => cause.chain

def exitCode : CommandLineError → Nat
  | run (.unsafeAction ..) => 3
  | run _ => 2
  | _ => 1

end CommandLineError

/-- What the world shows of a command line that was carried out. -/
structure CommandLineResult where
  exitCode : Nat
  stdout : String
  stderr : String
deriving DecidableEq, Repr

/-- The state of a command line: the disk, and what was written to the output so far. -/
structure Desk where
  disk : Disk
  stdout : String

namespace CommandLine

abbrev Job (α : Type) := Run Desk CommandLineError α

def print (text : String) : Job Unit := modify fun d => { d with stdout := d.stdout ++ text }

def fromDisk {ε α : Type} (f : ε → CommandLineError) (read : Disk → Except ε α) : Job α := do
  match read (← get).disk with
  | .ok a => return a
  | .error e => throw (f e)

def onDisk {ε α : Type} (f : ε → CommandLineError) (run : Run Disk ε α) : Job α :=
  ExceptT.mk fun d =>
    let (result, disk) := run.run d.disk
    (result.mapError f, { d with disk := disk })

def readScript (p : Path) : Job Script := do
  let text ← fromDisk (.read p) fun d => d.readText p
  match Script.parse text with
  | .ok s => return s
  | .error e => throw (.script p e)

/-! ## Showing a script -/

/-- The blocks with their numbers, and an empty line between two of them. -/
def showBlocks (blocks : List Instruction) : String :=
  "\n".intercalate (blocks.zipIdx.map fun (b, i) =>
    "[" ++ toString (i + 1) ++ "]\n" ++ b.text ++ "\n")

def compile (p : Path) : Job Unit := do
  let script ← readScript p
  print (showBlocks script.queue)

/-! ## Running -/

def summaryLine (s : RunSummary) : String :=
  "advanced: " ++ toString s.tally.advanced ++ ", surfaced: " ++ toString s.tally.surfaced ++
    ", replayed: " ++ toString s.tally.replayed ++
    ", skipped blank: " ++ toString s.tally.skippedBlank ++
    ", cache hits: " ++ toString s.cacheHits ++ "\n"

/-- What is to be run: a document by its plan, anything else as a script. -/
def readPlan (p : Path) (useCompiled : Bool) : Job Plan := do
  if (DocumentFormat.ofPath? p).isSome then
    let doc ← fromDisk .load (Document.load p)
    match doc.plan useCompiled with
    | .ok plan => return plan
    | .error e => throw (.documentScript p e)
  else return .stepThrough (← readScript p)

/-- Opens the transcript, which goes on where an earlier one ended. -/
def openTranscript (p : Path) : Job (Option Nat) := do
  match p.parent? with
  | some parent => onDisk (.transcriptDirectory parent) (Disk.createDirectories parent)
  | none => pure ()
  onDisk (.transcript p) (Disk.append p [])
  -- What comes later is written to the file that is now at the path, wherever it is moved to.
  match (← get).disk.lookUp p with
  | .ok (.file number) => return some number
  | _ => return none

def transcriptText (entries : List TranscriptEntry) : String :=
  String.join (entries.map fun e => e.line ++ "\n")

/-- Writes the entries that the transcript has gained at the end of the file with the number. -/
def writeEntries (file : Option Nat) (before after : Transcript) (d : Disk) : Disk :=
  match file with
  | none => d
  | some number =>
    let gained := transcriptText (after.entries.drop before.entries.length)
    d.setContents number (d.bytesOf number ++ Text.toBytes gained)

/-- An agent whose model is a command on the same disk as the transcript. -/
def agent (host : ChildHost Disk) (s : Settings) (transcript : Option Nat) :
    Agent (CommandModel.Patient Disk) Transcript :=
  let m := s.model
  let command : CommandModel := ⟨m.command, Duration.ofWholeSeconds m.timeoutSecs, m.outputLimit⟩
  ⟨⟨command.model host, m.temperature, m.maxTokens, true⟩, Transcript.surface, s.engine,
    fun before after m => { m with host := writeEntries transcript before after m.host }⟩

/-- Carries out the plan. Transient errors are put up with as often as the patience says. -/
def runPlan (host : ChildHost Disk) (patience : Nat) (s : Settings) (plan : Plan)
    (transcript : Option Nat) : Job (RunSummary × Document) := do
  let a := agent host s transcript
  let disk := (← get).disk
  let queue := match plan with
    | .stepThrough script => script.queue
    | .replay .. => []
  let session := Session.start queue (⟨disk, patience⟩ : CommandModel.Patient Disk) Transcript.new
  let (result, session) := match plan with
    | .stepThrough _ => a.run session
    | .replay records explicitSteps => a.replay records explicitSteps session
  modify fun d => { d with disk := session.workbench.model.host }
  match result with
  | .ok summary => return (summary, session.document)
  | .error e => throw (.run e)

def runScript (host : ChildHost Disk) (patience : Nat) (script settings : Path)
    (output transcript : Option Path) : Job Unit := do
  let s ← fromDisk (.settings settings) (Settings.load settings)
  match output with
  | some p => if (DocumentFormat.ofPath? p).isNone then throw (.output p)
  | none => pure ()
  let plan ← readPlan script s.useCompiled
  let file ← match transcript with
    | some p => openTranscript p
    | none => pure none
  let (summary, doc) ← runPlan host patience s plan file
  print (summaryLine summary)
  match output with
  | some p =>
    onDisk .save (Document.save p doc)
    print ("wrote " ++ p.text ++ "\n")
  | none => pure ()

/-! ## Settings -/

def initConfig (p : Path) (force : Bool) : Job Unit := do
  if (← get).disk.contains p && !force then throw (.alreadyThere p)
  onDisk .saveSettings (Settings.save p Settings.standard)
  print ("wrote " ++ p.text ++ "\n")

/-! ## Carrying out -/

def job (host : ChildHost Disk) (patience : Nat) : Invocation → Job Unit
  | .compile script => compile script
  | .run script settings output transcript =>
    runScript host patience script settings output transcript
  | .initConfig settings force => initConfig settings force

def usage : String :=
  "usage: pilot compile SCRIPT\n" ++
    "       pilot run SCRIPT [--config FILE] [--output FILE] [--transcript FILE]\n" ++
    "       pilot init-config [--config FILE] [--force]\n"

/-- Carries out a command line; one that asks for nothing known shows how to ask. -/
def carryOut (host : ChildHost Disk) (patience : Nat) (args : List String) (d : Disk) :
    CommandLineResult × Disk :=
  match Invocation.ofArgs? args with
  | none => (⟨2, "", usage⟩, d)
  | some invocation =>
    match (job host patience invocation).run ⟨d, ""⟩ with
    | (.ok _, desk) => (⟨0, desk.stdout, ""⟩, desk.disk)
    | (.error e, desk) => (⟨e.exitCode, desk.stdout, e.message ++ "\n"⟩, desk.disk)

end CommandLine

end BrowserAgent
