import BrowserAgent.Diagnostic
import BrowserAgent.Document.Basic
import BrowserAgent.Gate
import BrowserAgent.Synthesis

/-!
# Runs

A step takes the next instruction, asks for an action, and runs it. An action that fails is asked
for again with a diagnostic until one runs or the attempts are used up. Every action passes the
gate first, unless the gate is off. A run steps until the queue is empty or a step ends in an
error; a session can go on after an error.

A replay runs actions made earlier, without the gate and without asking. Where one fails, the
replay ends in an error or goes on stepping from that record.
-/

namespace BrowserAgent

/-- What happens when an instruction has used up its attempts. -/
inductive OnExhausted where
  | fatal
  | continue
deriving DecidableEq, Repr

/-- What happens when a replayed step fails. -/
inductive ReplayOnFailure where
  | fatal
  | stepThrough
deriving DecidableEq, Repr

structure EngineSettings where
  /-- The actions made for one instruction, the first one included. -/
  maxAttempts : Nat
  onExhausted : OnExhausted
  safetyCheck : Bool
  replayOnFailure : ReplayOnFailure
  diagnosticLimit : Nat
deriving DecidableEq, Repr

inductive Phase where
  | idle
  | dispatch
  | synthesize
  | gate
  | execute
  | advance
  | retry
  | fatal
deriving DecidableEq, Repr

def Phase.name : Phase → String
  | .idle => "idle"
  | .dispatch => "dispatch"
  | .synthesize => "synthesize"
  | .gate => "gate"
  | .execute => "execute"
  | .advance => "advance"
  | .retry => "retry"
  | .fatal => "fatal"

/-- Why a run ended early. -/
inductive RunError where
  | synthesis (reason : String)
  | unsafeAction (instruction action token : String)
  | exhausted (instruction : String) (attempts : Nat) (diagnostic : String)
  | replay (step : Nat) (diagnostic : String)
deriving DecidableEq, Repr

def RunError.message : RunError → String
  | .synthesis reason => "synthesis failed: " ++ (ModelError.fatal reason).message
  | .unsafeAction instruction action token =>
    "unsafe action for instruction `" ++ instruction ++ "` (matched `" ++ token ++ "`):\n" ++ action
  | .exhausted instruction attempts diagnostic =>
    "instruction `" ++ instruction ++ "` still failing after " ++ toString attempts ++
      " attempts: " ++ diagnostic
  | .replay step diagnostic => "replay of step " ++ toString step ++ " failed: " ++ diagnostic

inductive StepOutcome where
  /-- The queue is empty. -/
  | idle
  | advanced (index attempts : Nat)
  /-- The attempts ran out and the run goes on. -/
  | surfaced (index : Nat) (diagnostic : String)
deriving DecidableEq, Repr

/-- What a session has done so far. -/
structure Tally where
  advanced : Nat
  surfaced : Nat
  skippedBlank : Nat
  replayed : Nat
deriving DecidableEq, Repr

structure RunSummary where
  tally : Tally
  cacheHits : Nat
  cacheMisses : Nat
deriving DecidableEq, Repr

/-- What became of an action that was asked for. -/
inductive Verdict where
  | ran
  | failed (failure : ActionFailure)
  | refused (token : String)
deriving DecidableEq, Repr

/-- An action that a step asked for, with the prompt that asked. -/
structure Trial where
  prompt : String
  action : String
  verdict : Verdict
deriving DecidableEq, Repr

/-- How a step ended, and the actions it tried. -/
structure StepReport where
  trials : List Trial
  outcome : Except RunError StepOutcome

/-- Who makes the actions, where they run, and by which rules. -/
structure Agent (μ σ : Type) where
  synthesizer : Synthesizer μ
  surface : Surface σ
  settings : EngineSettings
  /-- What an action, from the surface before it to the one after, changes in the model's world. -/
  reveal : σ → σ → μ → μ

/-- An agent whose model sees nothing of what happens on the surface. -/
def Agent.apart {μ σ : Type} (synthesizer : Synthesizer μ) (surface : Surface σ)
    (settings : EngineSettings) : Agent μ σ :=
  ⟨synthesizer, surface, settings, fun _ _ m => m⟩

structure Session (μ σ : Type) where
  queue : List Instruction
  history : History
  workbench : Workbench μ
  browser : σ
  phase : Phase
  /-- The instructions taken from the queue that were not blank. -/
  dispatched : Nat
  tally : Tally

namespace Session

variable {μ σ : Type}

def start (queue : List Instruction) (model : μ) (browser : σ) : Session μ σ :=
  ⟨queue, .empty, ⟨model, .empty⟩, browser, .idle, 0, ⟨0, 0, 0, 0⟩⟩

def summary (s : Session μ σ) : RunSummary :=
  ⟨s.tally, s.workbench.cache.hits, s.workbench.cache.misses⟩

/-- The document of everything that did not fail. -/
def document (s : Session μ σ) : Document := .ofHistory s.history

/-- Without the blank instructions at the front of the queue, which are counted. -/
def skipBlank (s : Session μ σ) : Session μ σ :=
  let blank := s.queue.takeWhile Instruction.isBlank
  { s with
    queue := s.queue.dropWhile Instruction.isBlank
    tally := { s.tally with skippedBlank := s.tally.skippedBlank + blank.length } }

end Session

namespace Agent

variable {μ σ : Type} (a : Agent μ σ)

/-- The token for which the gate refuses the action, if it is on. -/
def refusedToken? (action : String) : Option String :=
  if a.settings.safetyCheck then Gate.refusedToken? action else none

def diagnose (f : ActionFailure) : String :=
  Diagnostic.ofFailure f a.surface.hostName a.settings.diagnosticLimit

def execute (action : String) (s : Session μ σ) : Except ActionFailure Unit × Session μ σ :=
  let (result, browser) := (a.surface.runWhole action).run s.browser
  let model := a.reveal s.browser browser s.workbench.model
  (result, { s with browser := browser, workbench := { s.workbench with model := model } })

def fail (trials : List Trial) (e : RunError) (s : Session μ σ) : StepReport × Session μ σ :=
  (⟨trials, .error e⟩, { s with phase := .fatal })

/-- The attempts are used up and the last one failed. -/
def giveUp (trials : List Trial) (i : Instruction) (index attempts : Nat) (diagnostic : String)
    (s : Session μ σ) : StepReport × Session μ σ :=
  let s := { s with history := s.history.failCurrent }
  match a.settings.onExhausted with
  | .fatal => fail trials (.exhausted i.text attempts diagnostic) s
  | .continue =>
    (⟨trials, .ok (.surfaced index diagnostic)⟩,
      { s with phase := .advance, tally := { s.tally with surfaced := s.tally.surfaced + 1 } })

/-- Tries the action in flight, and others in its place while attempts are left. -/
def attempt (i : Instruction) (index : Nat) :
    Nat → Nat → String → String → Session μ σ → StepReport × Session μ σ
  | left, attempts, prompt, action, s =>
    match a.refusedToken? action with
    | some token =>
      fail [⟨prompt, action, .refused token⟩] (.unsafeAction i.text action token)
        { s with history := s.history.failCurrent }
    | none =>
      match a.execute action s with
      | (.ok _, s) =>
        (⟨[⟨prompt, action, .ran⟩], .ok (.advanced index attempts)⟩,
          { s with
            history := s.history.confirmCurrent
            phase := .advance
            tally := { s.tally with advanced := s.tally.advanced + 1 } })
      | (.error failure, s) =>
        let trial : Trial := ⟨prompt, action, .failed failure⟩
        let diagnostic := a.diagnose failure
        match left with
        | 0 => a.giveUp [trial] i index attempts diagnostic s
        | left + 1 =>
          let prompt := Prompt.retry i action diagnostic
          match a.synthesizer.retryCurrent diagnostic s.history s.workbench with
          | (.error reason, history, workbench) =>
            fail [trial] (.synthesis reason) { s with history := history, workbench := workbench }
          | (.ok none, history, workbench) =>
            fail [trial] (.exhausted i.text attempts diagnostic)
              { s with history := history, workbench := workbench }
          | (.ok (some made), history, workbench) =>
            let (report, s) := attempt i index left (attempts + 1) prompt made.action
              { s with history := history, workbench := workbench }
            (⟨trial :: report.trials, report.outcome⟩, s)

/-- Asks for the first action of an instruction and tries it. -/
def dispatch (i : Instruction) (s : Session μ σ) : StepReport × Session μ σ :=
  let index := s.dispatched
  let s := { s with dispatched := s.dispatched + 1 }
  match a.synthesizer.synthesize i s.workbench with
  | (.error reason, workbench) => fail [] (.synthesis reason) { s with workbench := workbench }
  | (.ok made, workbench) =>
    a.attempt i index (a.settings.maxAttempts - 1) 1 (Prompt.action i) made.action
      { s with workbench := workbench, history := s.history.start made }

/-- Brings the next instruction to its end, and tells which actions were tried on the way. -/
def report (s : Session μ σ) : StepReport × Session μ σ :=
  let s := s.skipBlank
  match s.queue with
  | [] => (⟨[], .ok .idle⟩, { s with phase := .idle })
  | i :: more => a.dispatch i { s with queue := more }

/-- Brings the next instruction to its end. -/
def step (s : Session μ σ) : Except RunError StepOutcome × Session μ σ :=
  let (report, s) := a.report s
  (report.outcome, s)

/-- Steps until nothing is queued or a step ends in an error. -/
def runSteps : Nat → Session μ σ → Except RunError RunSummary × Session μ σ
  | 0, s => (.ok s.summary, s)
  | fuel + 1, s =>
    match a.step s with
    | (.error e, s) => (.error e, s)
    | (.ok .idle, s) => (.ok s.summary, s)
    | (.ok _, s) => runSteps fuel s

/-- Steps until nothing is queued or a step ends in an error. Every step but the last takes an
instruction from the queue. -/
def run (s : Session μ σ) : Except RunError RunSummary × Session μ σ :=
  a.runSteps (s.queue.length + 1) s

/-- Replays the records, the first of which has the given number. -/
def replayFrom (explicitSteps : Bool) :
    Nat → List ActionRecord → Session μ σ → Except RunError RunSummary × Session μ σ
  | _, [], s => let s := { s with phase := .idle }; (.ok s.summary, s)
  | number, r :: more, s =>
    match a.execute r.action s with
    | (.ok _, s) =>
      replayFrom explicitSteps (number + 1) more
        { s with
          history := (s.history.start r).confirmCurrent
          tally := { s.tally with replayed := s.tally.replayed + 1 } }
    | (.error failure, s) =>
      if explicitSteps && a.settings.replayOnFailure == .stepThrough then
        a.run { s with queue := (r :: more).map (·.instruction) }
      else (.error (.replay number (a.diagnose failure)), { s with phase := .fatal })

/-- Runs actions made earlier, in order. -/
def replay (records : List ActionRecord) (explicitSteps : Bool) (s : Session μ σ) :
    Except RunError RunSummary × Session μ σ :=
  a.replayFrom explicitSteps 1 records s

end Agent

end BrowserAgent
