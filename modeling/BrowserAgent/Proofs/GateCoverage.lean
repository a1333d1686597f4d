import BrowserAgent.Proofs.Deeds
import BrowserAgent.Proofs.Gate
import BrowserAgent.Proofs.Rehearsed

/-!
# The gate covers every run

While the gate is on, nothing runs on the surface that it has not passed, however an action was
made. An action that it refuses ends the call, and the document of a session that was never
replayed holds passed actions only.
-/

namespace BrowserAgent

variable {μ σ : Type}

/-- The actions that the steps of a call ran on the surface, in order. -/
def CallLog.executed (l : CallLog μ σ) : List String :=
  l.turns.flatMap fun t => Trial.executed t.report.trials

/-- The call ended when the gate refused the action of the trial, in that step. -/
structure CallLog.RefusedAt (l : CallLog μ σ) (t : Turn μ σ) (trial : Trial) (token : String) :
    Prop where
  verdict : trial.verdict = .refused token
  /-- The actions before it were run, and none is tried after it. -/
  trials : ∃ tried, t.report.trials = tried ++ [trial] ∧ ∀ u ∈ tried, u.verdict.isExecuted
  /-- No step is taken after it. -/
  turns : ∃ earlier, l.turns = earlier ++ [t]
  after : l.after = t.after
  /-- The instruction was the first in the queue, the rest of which is left, and its record
  failed. -/
  instruction : ∃ i, t.before.skipBlank.queue = i :: l.after.queue ∧
    l.after.history.records =
      t.before.history.records ++ [⟨i, trial.action, .failed, t.report.trials.length⟩] ∧
    l.answer = .error (.unsafeAction i.text trial.action token)
  phase : l.after.phase = .fatal

namespace Agent

variable {a : Agent μ σ}

theorem refusedToken?_of_on (on : a.settings.safetyCheck = true) (action : String) :
    a.refusedToken? action = Gate.refusedToken? action := by
  rw [refusedToken?, if_pos on]

/-! ## What runs -/

theorem Judged.executed_accepted (on : a.settings.safetyCheck = true) {trials : List Trial}
    {browser browser' : σ} (h : a.Judged trials browser browser') :
    ∀ action ∈ Trial.executed trials, Gate.isAccepted action = true := by
  intro action ha
  obtain ⟨t, ht, rfl⟩ := List.mem_map.mp ha
  obtain ⟨ht, hx⟩ := List.mem_filter.mp ht
  rw [Verdict.isExecuted_iff, ← h.token t ht, refusedToken?_of_on on] at hx
  rw [Gate.isAccepted, hx, Option.isNone_none]

theorem log_executed_accepted (on : a.settings.safetyCheck = true) (c : Call) (s : Session μ σ) :
    ∀ action ∈ (a.log c s).executed, Gate.isAccepted action = true := by
  intro action ha
  obtain ⟨t, ht, ha⟩ := List.mem_flatMap.mp ha
  exact (a.log_stepped c s t ht).judged.executed_accepted on action ha

theorem Chain.browser {s s' : Session μ σ} {turns : List (Turn μ σ)} (h : a.Chain s turns s') :
    s'.browser = a.surface.afterActions
      (turns.flatMap fun t => Trial.executed t.report.trials) s.browser := by
  induction h with
  | nil => rfl
  | @cons s s' turns _ ih =>
    rw [ih, (a.turn_stepped s).judged.browser, List.flatMap_cons, Surface.afterActions_append]

theorem log_browser (d : Drive) (s : Session μ σ) :
    (a.log (.drive d) s).after.browser =
      a.surface.afterActions (a.log (.drive d) s).executed (a.log (.drive d) s).before.browser := by
  rw [log_before]
  exact (a.log_chain d s).browser

/-! ## A refusal -/

theorem Stepped.refused {s s' : Session μ σ} {report : StepReport} (h : a.Stepped s report s')
    {trial : Trial} (ht : trial ∈ report.trials) {token : String}
    (hv : trial.verdict = .refused token) :
    ∃ i c, a.Made i s c report s' ∧ c.ending = .refused token ∧
      trial = ⟨c.prompt, c.action, .refused token⟩ := by
  cases h with
  | idle | unmade => simp at ht
  | @made i _ _ c _ _ _ h =>
    rw [h.report_eq, Course.trials, List.mem_append, List.mem_singleton] at ht
    rcases ht with ht | rfl
    · -- All before the last one failed, and a failed action was run, so it was not refused.
      have := h.failed trial ht
      simp [hv] at this
    · refine ⟨i, c, h, ?_, by rw [← hv]⟩
      cases hc : c.ending <;> simp_all

theorem log_refused (d : Drive) (s : Session μ σ) {t : Turn μ σ}
    (ht : t ∈ (a.log (.drive d) s).turns) {trial : Trial} (hu : trial ∈ t.report.trials)
    {token : String} (hv : trial.verdict = .refused token) :
    (a.log (.drive d) s).RefusedAt t trial token := by
  obtain ⟨turns, s', hc, hg, hl⟩ := a.log_drive d s
  obtain ⟨i, c, h, he, rfl⟩ := (a.log_stepped (.drive d) s t ht).refused hu hv
  rw [hl] at ht ⊢
  have ho : t.report.outcome = .error (.unsafeAction i.text c.action token) := by
    rw [h.report_eq, he, outcome]
  -- The step ended in an error, so it is the last one of the call.
  obtain rfl : t = a.turn s' := by
    rcases List.mem_append.mp ht with ht | ht
    · obtain ⟨o, hok, -⟩ := hg t ht
      rw [ho] at hok
      cases hok
    · exact List.mem_singleton.mp ht
  exact {
    verdict := rfl
    trials := by
      refine ⟨c.failures, by rw [h.report_eq, Course.trials, he, Ending.verdict], ?_⟩
      exact fun u hu => Verdict.isExecuted_of_isFailed (h.failed u hu)
    turns := ⟨turns, rfl⟩
    after := rfl
    instruction := by
      refine ⟨i, h.queue, ?_, ?_⟩
      · rw [h.history, h.report_eq, he, Ending.state]
      · cases d <;> simp [Drive.answer, Turn.answer, ho, Except.map]
    phase := by rw [h.phase, ho, Phase.after] }

/-! ## What is kept -/

/-- An action whose record did not fail was run, and so it was passed. -/
theorem Stepped.deed_accepted (on : a.settings.safetyCheck = true) {s s' : Session μ σ}
    {report : StepReport} (h : a.Stepped s report s') {d : Deed}
    (hd : (⟨s, report, s'⟩ : Turn μ σ).deed? = some d) (hk : d.isKept = true) :
    Gate.isAccepted d.action = true := by
  cases h with
  | idle | unmade => simp [deed?_of_nil] at hd
  | @made i _ _ c _ _ _ h =>
    rw [h.deed?, Option.some.injEq] at hd
    subst hd
    have hj := h.judged.token ⟨c.prompt, c.action, c.ending.verdict⟩ (by simp [Course.trials])
    rw [refusedToken?_of_on on] at hj
    rw [Gate.isAccepted, hj]
    cases hc : c.ending <;> simp_all [Deed.isKept, Ending.state]

theorem log_deed_accepted (on : a.settings.safetyCheck = true) (d : Drive) (s : Session μ σ) :
    ∀ deed ∈ (a.log (.drive d) s).deeds, deed.isKept = true →
      Gate.isAccepted deed.action = true := by
  intro deed hd hk
  rw [CallLog.deeds, replayed_drive, List.map_nil, List.nil_append] at hd
  obtain ⟨t, ht, hd⟩ := List.mem_filterMap.mp hd
  exact (a.log_stepped (.drive d) s t ht).deed_accepted on hd hk

/-! ## Whole runs -/

/-- While the gate is on, and whatever the model answers and the surface does, of any steps and
runs: the actions that run were passed, and they are all that the surface sees; an action that is
refused ends its call; and the document holds passed actions only. -/
theorem gate_covers_every_run (on : a.settings.safetyCheck = true) (queue : List Instruction)
    (model : μ) (browser : σ) (drives : List Drive) :
    let calls := drives.map Call.drive
    let start := Session.start queue model browser
    let document := (a.after calls start).document
    (∀ l ∈ a.logs calls start,
      (∀ action ∈ l.executed, Gate.isAccepted action = true) ∧
      l.after.browser = a.surface.afterActions l.executed l.before.browser ∧
      ∀ t ∈ l.turns, ∀ trial ∈ t.report.trials, ∀ token,
        Gate.refusedToken? trial.action = some token → l.RefusedAt t trial token) ∧
    (∀ r ∈ document.stepRecords, Gate.isAccepted r.action = true) ∧
    ∀ line ∈ document.actionLines, Gate.isAccepted line = true := by
  intro calls start document
  have kept : ∀ r ∈ document.stepRecords, Gate.isAccepted r.action = true := by
    intro r hr
    rw [show document = _ from a.document_eq calls queue model browser] at hr
    obtain ⟨deed, hd, rfl⟩ := List.mem_map.mp hr
    obtain ⟨hd, hk⟩ := List.mem_filter.mp hd
    obtain ⟨l, hl, hd⟩ := List.mem_flatMap.mp hd
    obtain ⟨c, hc, s, rfl⟩ := a.mem_logs hl
    obtain ⟨d, -, rfl⟩ := List.mem_map.mp hc
    exact log_deed_accepted on d s deed hd hk
  refine ⟨?_, kept, ?_⟩
  · intro l hl
    obtain ⟨c, hc, s, rfl⟩ := a.mem_logs hl
    obtain ⟨d, -, rfl⟩ := List.mem_map.mp hc
    refine ⟨log_executed_accepted on (.drive d) s, log_browser d s, ?_⟩
    intro t ht trial hu token hr
    have hj := (a.log_stepped (.drive d) s t ht).judged.token trial hu
    rw [refusedToken?_of_on on, hr] at hj
    exact log_refused d s ht hu (Verdict.eq_refused_iff.mpr hj.symm)
  · intro line hl
    obtain ⟨r, hr, hl⟩ := List.mem_flatMap.mp hl
    exact Gate.isAccepted_of_mem_pieces (kept r hr) hl

theorem report_refused {s : Session μ σ} {i : Instruction} {rest : List Instruction}
    {m : ActionRecord} {w : Workbench μ} {token : String} (queue : s.skipBlank.queue = i :: rest)
    (made : a.synthesizer.synthesize i s.workbench = (.ok m, w))
    (refused : a.refusedToken? m.action = some token) :
    (a.report s).1 = ⟨[⟨Prompt.action i, m.action, .refused token⟩],
      .error (.unsafeAction i.text m.action token)⟩ := by
  rw [a.report_of_ok queue made, attempt_of_refused rfl refused]

/-- A run in which the gate has something to refuse. -/
theorem gate_ends_rehearsed_run :
    rehearsed.settings.safetyCheck = true ∧
    let start : Session ScriptedModel Rehearsal :=
      .start [⟨"Click go"⟩, ⟨"Wait"⟩] (.ofAnswers [.ok "import os"]) .new
    ∃ t trial, trial.action = "import os" ∧
      (rehearsed.log (.drive .run) start).RefusedAt t trial "import " := by
  refine ⟨rfl, ?_⟩
  intro start
  let i : Instruction := ⟨"Click go"⟩
  have queue : start.skipBlank.queue = [i, ⟨"Wait"⟩] := by decide
  have stripped : Action.stripFences "import os" = "import os" := by decide
  have refused : Gate.refusedToken? "import os" = some "import " := by decide
  obtain ⟨requests, made⟩ := rehearsed_synthesize i "import os" []
  rw [stripped] at made
  have report := report_refused queue made ((refusedToken?_of_on rfl _).trans refused)
  refine ⟨rehearsed.turn start, ⟨Prompt.action i, "import os", .refused "import "⟩, rfl, ?_⟩
  apply ((gate_covers_every_run (a := rehearsed) rfl _ _ _ [.run]).1 _ List.mem_cons_self).2.2
  · exact rehearsed.turn_mem_turns start
  · rw [turn, report]
    exact List.mem_singleton_self _
  · exact refused

end Agent

end BrowserAgent
