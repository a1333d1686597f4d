import BrowserAgent.Action.Program
import BrowserAgent.History
import BrowserAgent.Model
import BrowserAgent.Prompt
import BrowserAgent.PromptCache

/-!
# Making actions

A prompt is sent to the model once: an equal prompt later is answered from the cache. Only
completions are kept, so a prompt that ended in an error is sent again.
-/

namespace BrowserAgent

/-- The model asked for actions, and how. -/
structure Synthesizer (μ : Type) where
  model : LanguageModel μ
  temperature : Number.Binary
  maxTokens : Nat
  /-- Whether an equal prompt is answered from the cache. -/
  reuse : Bool

/-- What making actions changes. -/
structure Workbench (μ : Type) where
  model : μ
  cache : PromptCache

namespace Synthesizer

variable {μ : Type} (s : Synthesizer μ)

def request (prompt : String) : CompletionRequest := ⟨prompt, s.temperature, s.maxTokens, [fence]⟩

/-- A counted lookup, which never finds anything if completions are not reused. -/
def lookUp (prompt : String) (cache : PromptCache) : Option String × PromptCache :=
  if s.reuse then cache.find prompt else (none, { cache with misses := cache.misses + 1 })

/-- The action for a prompt; the error is what the model said. -/
def complete (prompt : String) (w : Workbench μ) : Except String String × Workbench μ :=
  match s.lookUp prompt w.cache with
  | (some completion, cache) => (.ok (Action.stripFences completion), { w with cache := cache })
  | (none, cache) =>
    match s.model.ask (s.request prompt) w.model with
    | (.ok completion, model) =>
      (.ok (Action.stripFences completion), ⟨model, cache.insert prompt completion⟩)
    | (.error reason, model) => (.error reason, ⟨model, cache⟩)

/-- The action of a first attempt. -/
def synthesize (i : Instruction) (w : Workbench μ) : Except String ActionRecord × Workbench μ :=
  let (result, w) := s.complete (Prompt.action i) w
  (result.map (ActionRecord.mk i), w)

/-- An action in place of one that failed. -/
def synthesizeRetry (previous : ActionRecord) (diagnostic : String) (w : Workbench μ) :
    Except String ActionRecord × Workbench μ :=
  let (result, w) := s.complete (Prompt.retry previous.instruction previous.action diagnostic) w
  (result.map (ActionRecord.mk previous.instruction), w)

/-- Makes another action for the record in flight, and puts it there. -/
def retryCurrent (diagnostic : String) (history : History) (w : Workbench μ) :
    Except String (Option ActionRecord) × History × Workbench μ :=
  match history.current? with
  -- Without a record in flight nothing is asked.
  | none => (.ok none, history, w)
  | some current =>
    match s.synthesizeRetry current.toActionRecord diagnostic w with
    | (.error reason, w) => (.error reason, history, w)
    | (.ok made, w) => (.ok (some made), (history.replaceCurrent made).2, w)

end Synthesizer

end BrowserAgent
