import BrowserAgent.Engine
import BrowserAgent.Proofs.Requests

/-!
# Attempts

Every attempt at an instruction either ends the work on it or fails and is followed by another. What
is to be shown of all attempts together is shown by one case for each way to end and one for a
failure in front of the attempts after it.
-/

namespace BrowserAgent

namespace Agent

variable {μ σ : Type} {a : Agent μ σ} {i : Instruction} {index left made : Nat}
  {past : List AttemptRecord} {prompt action token reason : String} {failure : ActionFailure}
  {s s₁ : Session μ σ} {w : Workbench μ}

/-! ## Running an action -/

/-- Running an action changes the surface and the model, and nothing else. -/
theorem execute_frame {result : Except ActionFailure Unit} (h : a.execute action s = (result, s₁)) :
    s₁.history = s.history ∧ s₁.queue = s.queue ∧ s₁.dispatched = s.dispatched ∧
      s₁.tally = s.tally ∧ s₁.workbench.cache = s.workbench.cache ∧
      (a.surface.runWhole action).run s.browser = (result, s₁.browser) := by
  obtain rfl : s₁ = (a.execute action s).2 := by rw [h]
  obtain rfl : result = (a.execute action s).1 := by rw [h]
  exact ⟨rfl, rfl, rfl, rfl, rfl, rfl⟩

theorem execute_of_run {result : Except ActionFailure Unit} (browser : σ)
    (h : (a.surface.runWhole action).run s.browser = (result, browser)) :
    a.execute action s = (result, { s with
      browser := browser
      workbench := ⟨a.reveal s.browser browser s.workbench.model, s.workbench.cache⟩ }) := by
  rw [execute, h]

/-! ## One attempt -/

section

variable (hs : s.history = ⟨past ++ [⟨i, action, .attempted, made⟩]⟩)
include hs

theorem attempt_of_refused (refused : a.refusedToken? action = some token) :
    a.attempt i index left made prompt action s =
      (⟨[⟨prompt, action, .refused token⟩], .error (.unsafeAction i.text action token)⟩,
        { s with history := ⟨past ++ [⟨i, action, .failed, made⟩]⟩, phase := .fatal }) := by
  rw [attempt, refused]
  simp only [fail, hs, History.failCurrent_append]

variable (passed : a.refusedToken? action = none)
include passed

theorem attempt_of_ran (hx : a.execute action s = (.ok (), s₁)) :
    a.attempt i index left made prompt action s =
      (⟨[⟨prompt, action, .ran⟩], .ok (.advanced index made)⟩,
        { s₁ with
          history := ⟨past ++ [⟨i, action, .confirmed, made⟩]⟩
          phase := .advance
          tally := { s₁.tally with advanced := s₁.tally.advanced + 1 } }) := by
  rw [attempt, passed, hx]
  simp only [(execute_frame hx).1, hs, History.confirmCurrent_append]

variable (hx : a.execute action s = (.error failure, s₁))
include hx

theorem attempt_of_exhausted (fatal : a.settings.onExhausted = .fatal) :
    a.attempt i index 0 made prompt action s =
      (⟨[⟨prompt, action, .failed failure⟩],
          .error (.exhausted i.text made (a.diagnose failure))⟩,
        { s₁ with history := ⟨past ++ [⟨i, action, .failed, made⟩]⟩, phase := .fatal }) := by
  rw [attempt, passed, hx]
  simp only [giveUp, fatal, fail, (execute_frame hx).1, hs, History.failCurrent_append]

theorem attempt_of_surfaced (goes : a.settings.onExhausted = .continue) :
    a.attempt i index 0 made prompt action s =
      (⟨[⟨prompt, action, .failed failure⟩], .ok (.surfaced index (a.diagnose failure))⟩,
        { s₁ with
          history := ⟨past ++ [⟨i, action, .failed, made⟩]⟩
          phase := .advance
          tally := { s₁.tally with surfaced := s₁.tally.surfaced + 1 } }) := by
  rw [attempt, passed, hx]
  simp only [giveUp, goes, (execute_frame hx).1, hs, History.failCurrent_append]

theorem attempt_of_deserted
    (hm : a.synthesizer.synthesizeRetry ⟨i, action⟩ (a.diagnose failure) s₁.workbench =
      (.error reason, w)) :
    a.attempt i index (left + 1) made prompt action s =
      (⟨[⟨prompt, action, .failed failure⟩], .error (.synthesis reason)⟩,
        { s₁ with
          history := ⟨past ++ [⟨i, action, .attempted, made⟩]⟩
          workbench := w
          phase := .fatal }) := by
  rw [attempt, passed, hx]
  simp only [(execute_frame hx).1, hs, Synthesizer.retryCurrent_of_error _ hm]
  rfl

theorem attempt_of_again {m : ActionRecord}
    (hm : a.synthesizer.synthesizeRetry ⟨i, action⟩ (a.diagnose failure) s₁.workbench =
      (.ok m, w)) :
    a.attempt i index (left + 1) made prompt action s =
      let later := a.attempt i index left (made + 1) (Prompt.retry i action (a.diagnose failure))
        m.action { s₁ with
          history := ⟨past ++ [⟨i, m.action, .attempted, made + 1⟩]⟩
          workbench := w }
      (⟨⟨prompt, action, .failed failure⟩ :: later.1.trials, later.1.outcome⟩, later.2) := by
  rw [attempt, passed, hx]
  simp only [(execute_frame hx).1, hs, Synthesizer.retryCurrent_of_ok _ hm]

end

/-! ## All attempts -/

/-- What the attempts report and leave, where so many are left for an action and so many actions
were made. The past records stay in front of the one in flight. -/
inductive Tries (a : Agent μ σ) (i : Instruction) (index : Nat) (past : List AttemptRecord) :
    Nat → Nat → String → String → Session μ σ → StepReport → Session μ σ → Prop
  | refused {left made : Nat} {prompt action token : String} {s : Session μ σ} :
    a.refusedToken? action = some token →
    Tries a i index past left made prompt action s
      ⟨[⟨prompt, action, .refused token⟩], .error (.unsafeAction i.text action token)⟩
      { s with history := ⟨past ++ [⟨i, action, .failed, made⟩]⟩, phase := .fatal }
  | ran {left made : Nat} {prompt action : String} {s s₁ : Session μ σ} :
    a.refusedToken? action = none → a.execute action s = (.ok (), s₁) →
    Tries a i index past left made prompt action s
      ⟨[⟨prompt, action, .ran⟩], .ok (.advanced index made)⟩
      { s₁ with
        history := ⟨past ++ [⟨i, action, .confirmed, made⟩]⟩
        phase := .advance
        tally := { s₁.tally with advanced := s₁.tally.advanced + 1 } }
  | exhausted {made : Nat} {prompt action : String} {failure : ActionFailure}
    {s s₁ : Session μ σ} :
    a.refusedToken? action = none → a.execute action s = (.error failure, s₁) →
    a.settings.onExhausted = .fatal →
    Tries a i index past 0 made prompt action s
      ⟨[⟨prompt, action, .failed failure⟩],
        .error (.exhausted i.text made (a.diagnose failure))⟩
      { s₁ with history := ⟨past ++ [⟨i, action, .failed, made⟩]⟩, phase := .fatal }
  | surfaced {made : Nat} {prompt action : String} {failure : ActionFailure}
    {s s₁ : Session μ σ} :
    a.refusedToken? action = none → a.execute action s = (.error failure, s₁) →
    a.settings.onExhausted = .continue →
    Tries a i index past 0 made prompt action s
      ⟨[⟨prompt, action, .failed failure⟩], .ok (.surfaced index (a.diagnose failure))⟩
      { s₁ with
        history := ⟨past ++ [⟨i, action, .failed, made⟩]⟩
        phase := .advance
        tally := { s₁.tally with surfaced := s₁.tally.surfaced + 1 } }
  | deserted {left made : Nat} {prompt action reason : String} {failure : ActionFailure}
    {s s₁ : Session μ σ} {w : Workbench μ} :
    a.refusedToken? action = none → a.execute action s = (.error failure, s₁) →
    a.synthesizer.complete (Prompt.retry i action (a.diagnose failure)) s₁.workbench =
      (.error reason, w) →
    Tries a i index past (left + 1) made prompt action s
      ⟨[⟨prompt, action, .failed failure⟩], .error (.synthesis reason)⟩
      { s₁ with
        history := ⟨past ++ [⟨i, action, .attempted, made⟩]⟩
        workbench := w
        phase := .fatal }
  | again {left made : Nat} {prompt action next : String} {failure : ActionFailure}
    {s s₁ s' : Session μ σ} {w : Workbench μ} {report : StepReport} :
    a.refusedToken? action = none → a.execute action s = (.error failure, s₁) →
    a.synthesizer.complete (Prompt.retry i action (a.diagnose failure)) s₁.workbench =
      (.ok next, w) →
    Tries a i index past left (made + 1) (Prompt.retry i action (a.diagnose failure)) next
      { s₁ with
        history := ⟨past ++ [⟨i, next, .attempted, made + 1⟩]⟩
        workbench := w } report s' →
    Tries a i index past (left + 1) made prompt action s
      ⟨⟨prompt, action, .failed failure⟩ :: report.trials, report.outcome⟩ s'

/-- The attempts are made so from every session with a record in flight. -/
theorem attempt_tries (a : Agent μ σ) (index left made : Nat) (prompt action : String)
    (s : Session μ σ) (hs : s.history = ⟨past ++ [⟨i, action, .attempted, made⟩]⟩) :
    a.Tries i index past left made prompt action s
      (a.attempt i index left made prompt action s).1
      (a.attempt i index left made prompt action s).2 := by
  -- A retry puts its action in the record, so the session it is run from has the same shape.
  induction left using Nat.strongRecOn generalizing made prompt action s with
  | ind left ih =>
    cases h : a.refusedToken? action with
    | some token =>
      rw [attempt_of_refused hs h]
      exact .refused h
    | none =>
      obtain ⟨result, s₁, hx⟩ : ∃ result s₁, a.execute action s = (result, s₁) := ⟨_, _, rfl⟩
      cases result with
      | ok =>
        rw [attempt_of_ran hs h hx]
        exact .ran h hx
      | error failure =>
        cases left with
        | zero =>
          cases policy : a.settings.onExhausted with
          | fatal =>
            rw [attempt_of_exhausted hs h hx policy]
            exact .exhausted h hx policy
          | «continue» =>
            rw [attempt_of_surfaced hs h hx policy]
            exact .surfaced h hx policy
        | succ left =>
          obtain ⟨result, w, hc⟩ : ∃ result w, a.synthesizer.complete
            (Prompt.retry i action (a.diagnose failure)) s₁.workbench = (result, w) := ⟨_, _, rfl⟩
          have hm := Synthesizer.synthesizeRetry_of_complete hc
          cases result with
          | error reason =>
            rw [attempt_of_deserted hs h hx hm]
            exact .deserted h hx hc
          | ok next =>
            rw [attempt_of_again hs h hx hm]
            exact .again h hx hc (ih left (Nat.lt_succ_self left) _ _ _ _ rfl)

end Agent

end BrowserAgent
