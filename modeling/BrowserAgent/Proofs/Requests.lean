import BrowserAgent.Proofs.Patience
import BrowserAgent.Synthesis

/-!
# Requests

Every request for an action is one lookup in the cache, whether a completion is found, made or
refused. A retry of the record in flight is one request, and it changes the history only if it
gets an action.
-/

namespace BrowserAgent

/-! ## Lookups -/

/-- The lookups so far, found or not. -/
def PromptCache.lookups (c : PromptCache) : Nat := c.hits + c.misses

theorem PromptCache.lookups_find (c : PromptCache) (prompt : String) :
    (c.find prompt).2.lookups = c.lookups + 1 := by
  unfold find
  split <;> simp only [lookups] <;> omega

@[simp]
theorem PromptCache.lookups_insert (c : PromptCache) (prompt completion : String) :
    (c.insert prompt completion).lookups = c.lookups := rfl

namespace Synthesizer

variable {μ : Type} (s : Synthesizer μ)

theorem lookups_lookUp (prompt : String) (c : PromptCache) :
    (s.lookUp prompt c).2.lookups = c.lookups + 1 := by
  unfold lookUp
  split
  · exact c.lookups_find prompt
  · simp only [PromptCache.lookups]
    omega

theorem lookups_complete (prompt : String) (w : Workbench μ) :
    (s.complete prompt w).2.cache.lookups = w.cache.lookups + 1 := by
  rw [← s.lookups_lookUp prompt w.cache]
  unfold complete
  split
  · simp [*]
  · split <;> simp [*]

theorem lookups_synthesize (i : Instruction) (w : Workbench μ) :
    (s.synthesize i w).2.cache.lookups = w.cache.lookups + 1 :=
  s.lookups_complete _ w

theorem instruction_of_synthesize {i : Instruction} {w w' : Workbench μ} {made : ActionRecord}
    (h : s.synthesize i w = (.ok made, w')) : made.instruction = i := by
  unfold synthesize at h
  cases hc : (s.complete (Prompt.action i) w).1 with
  | error reason => simp [hc, Except.map] at h
  | ok action =>
    simp only [hc, Except.map, Prod.mk.injEq, Except.ok.injEq] at h
    rw [← h.1]

section

variable {s} {w w' : Workbench μ} {result : Except String String}

theorem synthesize_of_complete {i : Instruction}
    (h : s.complete (Prompt.action i) w = (result, w')) :
    s.synthesize i w = (result.map (ActionRecord.mk i), w') := by
  rw [synthesize, h]

theorem synthesizeRetry_of_complete {i : Instruction} {action diagnostic : String}
    (h : s.complete (Prompt.retry i action diagnostic) w = (result, w')) :
    s.synthesizeRetry ⟨i, action⟩ diagnostic w = (result.map (ActionRecord.mk i), w') := by
  rw [synthesizeRetry, h]

end

/-! ## Prompts that are not cached -/

section

variable {prompt : String} {w : Workbench μ} {m : μ}

theorem lookUp_of_absent {c : PromptCache} (h : c.get? prompt = none) :
    s.lookUp prompt c = (none, { c with misses := c.misses + 1 }) := by
  simp [lookUp, PromptCache.find, h]

theorem synthesize_of_ok {i : Instruction} {completion : String}
    (absent : w.cache.get? (Prompt.action i) = none)
    (h : s.model.complete (s.request (Prompt.action i)) w.model = (.ok completion, m)) :
    s.synthesize i w = (.ok ⟨i, Action.stripFences completion⟩,
      ⟨m, { w.cache with misses := w.cache.misses + 1 }.insert (Prompt.action i) completion⟩) := by
  simp only [synthesize, complete, s.lookUp_of_absent absent, s.model.ask_of_ok h]
  rfl

theorem synthesizeRetry_of_ok {previous : ActionRecord} {diagnostic completion : String}
    (absent : w.cache.get?
      (Prompt.retry previous.instruction previous.action diagnostic) = none)
    (h : s.model.complete
      (s.request (Prompt.retry previous.instruction previous.action diagnostic)) w.model =
        (.ok completion, m)) :
    s.synthesizeRetry previous diagnostic w =
      (.ok ⟨previous.instruction, Action.stripFences completion⟩,
        ⟨m, { w.cache with misses := w.cache.misses + 1 }.insert
          (Prompt.retry previous.instruction previous.action diagnostic) completion⟩) := by
  simp only [synthesizeRetry, complete, s.lookUp_of_absent absent, s.model.ask_of_ok h]
  rfl

theorem synthesizeRetry_of_fatal {previous : ActionRecord} {diagnostic reason : String}
    (absent : w.cache.get?
      (Prompt.retry previous.instruction previous.action diagnostic) = none)
    (h : s.model.complete
      (s.request (Prompt.retry previous.instruction previous.action diagnostic)) w.model =
        (.error (.fatal reason), m)) :
    s.synthesizeRetry previous diagnostic w =
      (.error reason, ⟨m, { w.cache with misses := w.cache.misses + 1 }⟩) := by
  simp only [synthesizeRetry, complete, s.lookUp_of_absent absent, s.model.ask_of_fatal h]
  rfl

end

/-! ## The record in flight -/

section

variable {past : List AttemptRecord} {i : Instruction} {action diagnostic : String} {n : Nat}
  {w w' : Workbench μ}

theorem retryCurrent_of_error {reason : String}
    (h : s.synthesizeRetry ⟨i, action⟩ diagnostic w = (.error reason, w')) :
    s.retryCurrent diagnostic ⟨past ++ [⟨i, action, .attempted, n⟩]⟩ w =
      (.error reason, ⟨past ++ [⟨i, action, .attempted, n⟩]⟩, w') := by
  simp only [retryCurrent, History.current?_append, AttemptRecord.toActionRecord, h]

theorem retryCurrent_of_ok {made : ActionRecord}
    (h : s.synthesizeRetry ⟨i, action⟩ diagnostic w = (.ok made, w')) :
    s.retryCurrent diagnostic ⟨past ++ [⟨i, action, .attempted, n⟩]⟩ w =
      (.ok (some made), ⟨past ++ [⟨i, made.action, .attempted, n + 1⟩]⟩, w') := by
  simp only [retryCurrent, History.current?_append, AttemptRecord.toActionRecord, h,
    History.replaceCurrent_append]

end

end Synthesizer

end BrowserAgent
