import BrowserAgent.Proofs.Calls

/-!
# The bound on attempts

A step makes at least one attempt and at most as many as the settings allow, each by one request
for an action. So the requests of a run are bounded by its instructions, and every run ends.
-/

namespace BrowserAgent

/-- The attempts at one instruction; one is made even if the settings allow none. -/
def EngineSettings.attemptBound (e : EngineSettings) : Nat := max 1 e.maxAttempts

/-- As many attempts were made as are allowed, and all of them failed. -/
def StepReport.usedUp (report : StepReport) (bound : Nat) : Prop :=
  report.trials.length = bound ∧ ∀ t ∈ report.trials, t.verdict.isFailed = true

def RunError.isExhausted : RunError → Prop
  | .exhausted .. => True
  | .synthesis _ | .unsafeAction .. | .replay .. => False

namespace Agent

variable {μ σ : Type} {a : Agent μ σ}

/-! ## One step -/

section

variable {i : Instruction} {s s' : Session μ σ} {c : Course} {report : StepReport}

theorem Made.length_le (h : a.Made i s c report s') :
    c.trials.length + c.ending.laterRequests ≤ a.settings.attemptBound := by
  have := h.within
  rw [c.length_trials, EngineSettings.attemptBound]
  cases hc : c.ending <;> simp only [hc, Ending.Within, Ending.laterRequests] at * <;> omega

theorem Made.usedUp_iff (h : a.Made i s c report s') :
    report.usedUp a.settings.attemptBound ↔ ∃ failure, c.ending = .exhausted failure := by
  have hw := h.within
  rw [StepReport.usedUp, h.report_eq, c.length_trials, EngineSettings.attemptBound]
  constructor
  · rintro ⟨hl, hf⟩
    have last := hf ⟨c.prompt, c.action, c.ending.verdict⟩ (by simp [Course.trials])
    cases hc : c.ending with
    | exhausted failure => exact ⟨failure, rfl⟩
    | refused | ran => simp [hc] at last
    | deserted failure reason =>
      simp only [hc, Ending.Within] at hw
      omega
  · rintro ⟨failure, hc⟩
    simp only [hc, Ending.Within] at hw
    refine ⟨by omega, ?_⟩
    intro t ht
    rw [Course.trials, List.mem_append, List.mem_singleton] at ht
    rcases ht with ht | rfl
    · exact h.failed t ht
    · rw [hc, Ending.verdict, Verdict.isFailed]

end

variable {s s' : Session μ σ} {report : StepReport}

/-- A step asks only for the instruction that it takes, and not more often than it may. -/
theorem Stepped.requests_le (h : a.Stepped s report s') :
    s'.requests ≤ s.requests + s.next?.toList.length * a.settings.attemptBound := by
  cases h with
  | idle => exact Nat.le_add_right _ _
  | @unmade i _ _ w hq hm =>
    have hw := a.synthesizer.lookups_synthesize i s.workbench
    rw [hm] at hw
    simp only [Session.requests, Session.next?_of_cons hq, Option.toList_some, List.length_singleton,
      EngineSettings.attemptBound] at hw ⊢
    omega
  | @made i _ _ c _ _ _ h =>
    have := h.length_le
    rw [h.requests, Session.next?_of_cons h.queue, Option.toList_some, List.length_singleton]
    omega

theorem Stepped.advanced (h : a.Stepped s report s') {index attempts : Nat}
    (ho : report.outcome = .ok (.advanced index attempts)) :
    s'.requests = s.requests + attempts ∧ ∃ i action, s.next? = some i ∧
      s'.history.records = s.history.records ++ [⟨i, action, .confirmed, attempts⟩] := by
  cases h with
  | idle | unmade => simp at ho
  | @made i _ _ c _ _ _ h =>
    rw [h.report_eq] at ho
    obtain ⟨hc, length⟩ := ran_of_outcome ho
    refine ⟨?_, i, c.action, Session.next?_of_cons h.queue, ?_⟩
    · rw [h.requests, hc, Ending.laterRequests, Nat.add_zero, length]
    · rw [h.history, hc, Ending.state, length]

/-- The attempts at an instruction are exhausted when all that are allowed have failed, and then
the error says how many those are. -/
theorem Stepped.exhausted (h : a.Stepped s report s') :
    ((∃ e, report.outcome = .error e ∧ e.isExhausted) ↔
      a.settings.onExhausted = .fatal ∧ report.usedUp a.settings.attemptBound) ∧
    ∀ text attempts diagnostic, report.outcome = .error (.exhausted text attempts diagnostic) →
      attempts = a.settings.attemptBound := by
  cases h with
  | idle | unmade =>
    have : (0 : Nat) ≠ a.settings.attemptBound := by
      rw [EngineSettings.attemptBound]
      omega
    simp [StepReport.usedUp, this, RunError.isExhausted]
  | @made i _ _ c _ _ _ h =>
    rw [h.usedUp_iff]
    have hl := fun failure hc => (h.usedUp_iff.mpr ⟨failure, hc⟩).1
    rw [h.report_eq] at hl ⊢
    cases hc : c.ending with
    | exhausted failure =>
      have hl := hl failure hc
      rw [outcome]
      cases hp : a.settings.onExhausted <;> simp_all [RunError.isExhausted]
    | refused | ran | deserted => simp [outcome, RunError.isExhausted]

/-! ## Runs -/

variable (a)

/-- The session after so many steps. -/
def afterSteps : Nat → Session μ σ → Session μ σ
  | 0, s => s
  | n + 1, s => afterSteps n (a.step s).2

variable {a} {turns : List (Turn μ σ)}

theorem Chain.afterSteps_eq (h : a.Chain s turns s') : a.afterSteps turns.length s = s' := by
  induction h with
  | nil => rfl
  | cons _ ih => exact ih

theorem Chain.goes (h : a.Chain s turns s') (hg : ∀ t ∈ turns, Goes t.report.outcome) :
    ∀ k < turns.length, Goes (a.step (a.afterSteps k s)).1 := by
  induction h with
  | nil => simp
  | @cons s s' turns _ ih =>
    obtain ⟨hs, hg⟩ := List.forall_mem_cons.mp hg
    intro k hk
    cases k with
    | zero => exact hs
    | succ k => exact ih hg k (by simpa using hk)

/-- Every step after which a run goes on takes an instruction. -/
theorem Chain.length_le (h : a.Chain s turns s') (hg : ∀ t ∈ turns, Goes t.report.outcome) :
    turns.length ≤ s.instructions.length := by
  induction h with
  | nil => simp
  | @cons s s' turns _ ih =>
    obtain ⟨hs, hg⟩ := List.forall_mem_cons.mp hg
    have := a.length_instructions_turn hs
    have := ih hg
    rw [List.length_cons]
    omega

theorem Chain.requests_le (h : a.Chain s turns s') :
    s'.requests + s'.instructions.length * a.settings.attemptBound ≤
      s.requests + s.instructions.length * a.settings.attemptBound := by
  induction h with
  | nil => exact Nat.le_refl _
  | @cons s s' turns _ ih =>
    have hs := a.turn_stepped s
    have := hs.requests_le
    rw [hs.instructions, List.length_append, Nat.add_mul]
    omega

variable (a)

/-- What a step asks and answers. -/
structure StepBounded (s : Session μ σ) : Prop where
  judged : a.Judged (a.report s).1.trials s.browser (a.step s).2.browser
  requests : (a.step s).2.requests ≤ s.requests + a.settings.attemptBound
  /-- The attempts that the outcome and the record count are the requests that were made. -/
  advanced (index attempts : Nat) : (a.step s).1 = .ok (.advanced index attempts) →
    (a.step s).2.requests = s.requests + attempts ∧ ∃ i action, s.next? = some i ∧
      (a.step s).2.history.records = s.history.records ++ [⟨i, action, .confirmed, attempts⟩]
  exhausted : (∃ e, (a.step s).1 = .error e ∧ e.isExhausted) ↔
    a.settings.onExhausted = .fatal ∧ (a.report s).1.usedUp a.settings.attemptBound
  attempts (text : String) (n : Nat) (diagnostic : String) :
    (a.step s).1 = .error (.exhausted text n diagnostic) → n = a.settings.attemptBound
  continues (e : RunError) :
    a.settings.onExhausted = .continue → (a.step s).1 = .error e → ¬ e.isExhausted

/-- What a run asks and answers. -/
structure RunBounded (s : Session μ σ) : Prop where
  requests : (a.run s).2.requests ≤
    s.requests + s.instructions.length * a.settings.attemptBound
  /-- The run steps on until a step finds nothing to take or fails, and ends there. -/
  ends : ∃ n ≤ s.instructions.length, let last := a.step (a.afterSteps n s)
    (∀ k < n, Goes (a.step (a.afterSteps k s)).1) ∧ ¬ Goes last.1 ∧
    a.run s = (last.1.map fun _ => last.2.summary, last.2)
  continues (e : RunError) :
    a.settings.onExhausted = .continue → (a.run s).1 = .error e → ¬ e.isExhausted

theorem step_bounded (s : Session μ σ) : a.StepBounded s where
  judged := (a.report_stepped s).judged
  requests := by
    have := (a.report_stepped s).requests_le
    have hn : s.next?.toList.length ≤ 1 := by cases s.next? <;> simp
    calc (a.step s).2.requests
        ≤ s.requests + s.next?.toList.length * a.settings.attemptBound := this
      _ ≤ s.requests + 1 * a.settings.attemptBound :=
        Nat.add_le_add_left (Nat.mul_le_mul_right _ hn) _
      _ = s.requests + a.settings.attemptBound := by rw [Nat.one_mul]
  advanced _ _ h := (a.report_stepped s).advanced h
  exhausted := (a.report_stepped s).exhausted.1
  attempts := (a.report_stepped s).exhausted.2
  continues e hp he hx := by
    have := ((a.report_stepped s).exhausted.1.mp ⟨e, he, hx⟩).1
    rw [hp] at this
    cases this

theorem run_bounded (s : Session μ σ) : a.RunBounded s := by
  obtain ⟨turns, s', hc, -, hg, hn, hr⟩ := a.run_ends s
  have reached := hc.afterSteps_eq
  refine ⟨?_, ⟨turns.length, hc.length_le hg, hc.goes hg, ?_, ?_⟩, ?_⟩
  · have := (a.run_chain s).requests_le
    omega
  · rw [reached]
    exact hn
  · rw [reached]
    exact hr
  · intro e hp he
    rw [hr, Turn.answer] at he
    cases ho : (a.turn s').report.outcome with
    | ok o => simp [ho, Except.map] at he
    | error e' =>
      rw [ho, Except.map, Except.error.injEq] at he
      exact he ▸ (a.step_bounded s').continues e' hp ho

/-- Steps and runs keep to the bound, and runs end, in every session of every agent: of every one
whose model answers each request after finitely many transient errors. -/
theorem retries_bounded (μ σ : Type) :
    (∀ (a : Agent μ σ) (s : Session μ σ), a.StepBounded s ∧ a.RunBounded s) ∧
    ∀ complete : CompletionRequest → μ → Except ModelError String × μ,
      (∃ model : LanguageModel μ, model.complete = complete) ↔
        ∀ request m, ∃ n, LanguageModel.Settles complete request n m :=
  ⟨fun a s => ⟨a.step_bounded s, a.run_bounded s⟩, LanguageModel.exists_model_iff⟩

end Agent

end BrowserAgent
