import BrowserAgent.Child.Basic
import BrowserAgent.Child.Capture
import BrowserAgent.Completion
import BrowserAgent.Model
import BrowserAgent.Number.Shortest

/-!
# A command as a language model

A command reads the prompt and writes the completion. The other parts of a request are in its
environment. If it takes too long, or says that a fault will pass, the same request may be sent
again.
-/

namespace BrowserAgent

structure CommandModel where
  /-- The program and its arguments. -/
  command : List String
  timeout : Duration
  outputLimit : Nat
deriving DecidableEq, Repr

namespace CommandModel

/-- What the errors of a fault that will pass say, whatever their capitals. -/
def transientMarks : List String :=
  ["rate limit", "ratelimit", "429", "timeout", "timed out", "connection",
    "temporarily unavailable", "503", "overloaded"]

def isTransient (stderr : String) : Bool :=
  transientMarks.any fun mark => Text.contains mark (Text.lowerAscii stderr)

/-- The last line that is not blank. -/
def lastLine (stderr : String) : String := (Text.lines (Text.trim stderr)).getLast?.getD ""

/-- The error of a program that did not succeed. -/
def failure (ended : ChildEnd) (stderr : String) : ModelError :=
  let reason := "exit status " ++ ended.codeText ++ ": " ++ lastLine stderr
  if isTransient stderr then .transient reason else .fatal reason

def input (m : CommandModel) (request : CompletionRequest) : ChildInput where
  stdin := Text.toBytes request.prompt
  environment :=
    [("PILOT_TEMPERATURE", Number.plain.render Number.single request.temperature),
      ("PILOT_MAX_TOKENS", toString request.maxTokens),
      ("PILOT_STOP", Text.unlines request.stop)]
  limit := m.timeout

/-- The answer of a program that has run. -/
def answer (m : CommandModel) (stops : List String) (run : ChildRun) : Except ModelError String :=
  let text (bytes : List UInt8) := Text.ofBytesLossy (Capture.ofBytes m.outputLimit bytes).kept
  if m.timeout.nanos ≤ run.elapsed.nanos then
    .error (.transient ("model command timed out after " ++ m.timeout.text))
  else if run.ended.succeeded then .ok (Completion.ofOutput stops (text run.stdout))
  else .error (failure run.ended (text run.stderr))

def complete {η : Type} (m : CommandModel) (host : ChildHost η) (request : CompletionRequest)
    (h : η) : Except ModelError String × η :=
  match m.command with
  | [] => (.error (.fatal "model command is empty"), h)
  | program :: arguments =>
    match (host.run program arguments (m.input request)).run h with
    | (.error cause, h) => (.error (.fatal ("spawn command: " ++ cause.message)), h)
    | (.ok run, h) => (m.answer request.stop run, h)

/-! ## Sending again -/

/-- A host, and how many transient errors are put up with before one counts as fatal. -/
structure Patient (η : Type) where
  host : η
  patience : Nat

/-- Sends a request; without patience left there are only fatal errors. -/
def completePatiently {η : Type} (m : CommandModel) (host : ChildHost η)
    (request : CompletionRequest) (p : Patient η) : Except ModelError String × Patient η :=
  match m.complete host request p.host with
  | (.error (.transient reason), h) =>
    match p.patience with
    | 0 => (.error (.fatal reason), ⟨h, 0⟩)
    | left + 1 => (.error (.transient reason), ⟨h, left⟩)
  | (result, h) => (result, ⟨h, p.patience⟩)

def model {η : Type} (m : CommandModel) (host : ChildHost η) : LanguageModel (Patient η) where
  complete := m.completePatiently host
  patience _ p := p.patience
  patience_lt request p reason h := by
    unfold completePatiently at h ⊢
    split at h
    · split at h <;> simp_all
    · simp_all

end CommandModel

end BrowserAgent
