import BrowserAgent.Engine
import BrowserAgent.Number.Shortest

/-!
# Settings

The settings say which command answers prompts, and by which rules a run goes on. Settings are
valid if a run can start with them; the first rule that fails is the one reported.
-/

namespace BrowserAgent

structure ModelSettings where
  /-- The program that reads a prompt and writes the completion, with its arguments. -/
  command : List String
  timeoutSecs : Nat
  outputLimit : Nat
  backoffSecs : Nat
  temperature : Number.Binary
  maxTokens : Nat
deriving DecidableEq, Repr

structure Settings where
  model : ModelSettings
  engine : EngineSettings
  /-- Whether the actions of a document are replayed. -/
  useCompiled : Bool
deriving DecidableEq, Repr

def Settings.standard : Settings where
  model := ⟨["llm", "-m", "gpt-4o-mini"], 120, 100000, 5, Number.single.ofNat 0, 1024⟩
  engine := ⟨3, .fatal, true, .fatal, 2000⟩
  useCompiled := true

/-- A rule that settings break. -/
inductive SettingsFault where
  | emptyCommand
  | noTimeout
  | noOutput
  | temperatureRange
  | noTokens
  | noAttempts
  | noDiagnostic
deriving DecidableEq, Repr

def SettingsFault.message : SettingsFault → String
  | .emptyCommand => "model.command must be a non-empty array"
  | .noTimeout => "model.timeout_secs must be > 0"
  | .noOutput => "model.output_limit_bytes must be > 0"
  | .temperatureRange => "model.temperature must be within 0.0..=2.0"
  | .noTokens => "model.max_tokens must be > 0"
  | .noAttempts => "engine.max_attempts must be > 0"
  | .noDiagnostic => "engine.diagnostic_limit_bytes must be > 0"

namespace Settings

/-- The rules in order, each with whether the settings break it. -/
def broken (s : Settings) : List (Bool × SettingsFault) :=
  [(s.model.command.head?.all Text.isBlankText, .emptyCommand),
    (s.model.timeoutSecs == 0, .noTimeout),
    (s.model.outputLimit == 0, .noOutput),
    (!s.model.temperature.isWithin 2, .temperatureRange),
    (s.model.maxTokens == 0, .noTokens),
    (s.engine.maxAttempts == 0, .noAttempts),
    (s.engine.diagnosticLimit == 0, .noDiagnostic)]

/-- The first rule that the settings break. -/
def fault? (s : Settings) : Option SettingsFault := (s.broken.find? (·.1)).map (·.2)

end Settings

end BrowserAgent
