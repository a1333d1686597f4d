import BrowserAgent.Proofs.Moves
import BrowserAgent.Proofs.Rehearsed
import BrowserAgent.Proofs.Watching

/-!
# Limits

The rules of an agent limit it in three ways: an instruction gets so many attempts, a run ends where
they are used up, and every action has to pass the gate. Under looser limits a run does what it does
under the strict ones, up to where a limit ends the strict run; from there it may go on.
-/

namespace BrowserAgent

variable {μ σ : Type}

/-- The strict rules end a run at every limit. The loose ones end it nowhere else, and tell the
model the same of a failure. -/
structure EngineSettings.Loosened (strict loose : EngineSettings) : Prop where
  ends : strict.onExhausted = .fatal
  checks : strict.safetyCheck = true
  attempts : max 1 strict.maxAttempts ≤ max 1 loose.maxAttempts
  diagnostics : loose.diagnosticLimit = strict.diagnosticLimit

namespace Agent

def under (a : Agent μ σ) (settings : EngineSettings) : Agent μ σ :=
  { a with settings := settings }

/-- The second end is the first, or the first is an error from which the agent gets to the second by
further moves. -/
def Outlasts {α : Type} (a : Agent μ σ) (x y : Except RunError α × Session μ σ) : Prop :=
  x = y ∨ (∃ e, x.1 = .error e) ∧ ∃ moves, a.Leads x.2 moves y.2

def ended (x : StepReport × Session μ σ) : Except RunError StepOutcome × Session μ σ :=
  (x.1.outcome, x.2)

variable {a : Agent μ σ} {strict loose : EngineSettings} {s s₁ s' : Session μ σ}
  {i : Instruction} {past : List AttemptRecord} {action prompt : String}
  {index left left' made : Nat}

/-! ## Attempts -/

theorem refusedToken?_under_of_checks {settings : EngineSettings} (h : settings.safetyCheck = true)
    (action : String) : (a.under settings).refusedToken? action = Gate.refusedToken? action :=
  if_pos h

/-- What passes the strict gate passes the loose one. -/
theorem refusedToken?_under_loose (h : strict.Loosened loose)
    (passed : (a.under strict).refusedToken? action = none) :
    (a.under loose).refusedToken? action = none := by
  rw [refusedToken?_under_of_checks h.checks] at passed
  unfold refusedToken?
  split
  · exact passed
  · rfl

theorem diagnose_under (h : strict.Loosened loose) (failure : ActionFailure) :
    (a.under loose).diagnose failure = (a.under strict).diagnose failure := by
  have limit : loose.diagnosticLimit = strict.diagnosticLimit := h.diagnostics
  simp only [diagnose, under, limit]

theorem Pursuit.runs {moves : List Move} (h : a.Pursuit i left action moves)
    (passed : a.refusedToken? action = none) :
    ∃ result more, moves = .run action result :: more := by
  cases h with
  | refused stops => cases passed.symm.trans stops
  | ran | exhausted | deserted | again => exact ⟨_, _, rfl⟩

theorem Leads.of_run {result result' : Except ActionFailure Unit} {moves : List Move}
    (h : a.Leads s (.run action result :: moves) s') (hx : a.execute action s = (result', s₁)) :
    a.Leads s₁ moves s' := by
  obtain rfl : s₁ = (a.execute action s).2 := by rw [hx]
  cases h with
  | run ran later =>
    rw [Leads, execute, ran]
    exact later

/-- The attempts lead on from where the action left the surface. -/
theorem attempt_leads_on (hs : s.history = ⟨past ++ [⟨i, action, .attempted, made⟩]⟩)
    (passed : a.refusedToken? action = none) {result : Except ActionFailure Unit}
    (hx : a.execute action s = (result, s₁)) :
    ∃ moves, a.Leads s₁ moves (a.attempt i index left made prompt action s).2 := by
  obtain ⟨moves, pursuit, leads, -⟩ := (a.attempt_tries index left made prompt action s hs).pursues
  obtain ⟨_, more, rfl⟩ := pursuit.runs passed
  exact ⟨more, leads.of_run hx⟩

/-- With no fewer attempts and no narrower gate the attempts come to the same, or to more after the
strict ones have ended in an error. -/
theorem Tries.outlasts {report : StepReport} (h : strict.Loosened loose)
    (tries : (a.under strict).Tries i index past left made prompt action s report s')
    (le : left ≤ left') (hs : s.history = ⟨past ++ [⟨i, action, .attempted, made⟩]⟩) :
    (a.under loose).Outlasts (report.outcome, s')
      (ended ((a.under loose).attempt i index left' made prompt action s)) := by
  induction tries generalizing left' with
  | @refused _ made prompt action token s stops =>
    cases checks : loose.safetyCheck with
    | true =>
      rw [refusedToken?_under_of_checks h.checks] at stops
      rw [attempt_of_refused hs ((refusedToken?_under_of_checks checks action).trans stops)]
      exact .inl rfl
    | false =>
      -- The gate is off, so the loose rules let the refused action run.
      obtain ⟨moves, -, leads, -⟩ :=
        ((a.under loose).attempt_tries index left' made prompt action s hs).pursues
      exact .inr ⟨⟨_, rfl⟩, moves, leads⟩
  | ran passed hx =>
    rw [attempt_of_ran hs (refusedToken?_under_loose h passed) hx]
    exact .inl rfl
  | exhausted passed hx =>
    -- The strict run ends here; the loose one may have attempts left.
    obtain ⟨moves, leads⟩ := attempt_leads_on hs (refusedToken?_under_loose h passed) hx
    exact .inr ⟨⟨_, rfl⟩, moves, leads⟩
  | surfaced _ _ goes => cases h.ends.symm.trans goes
  | deserted passed hx asked =>
    obtain ⟨left', rfl⟩ : ∃ n, left' = n + 1 := ⟨left' - 1, by omega⟩
    rw [← diagnose_under h] at asked
    have denied := Synthesizer.synthesizeRetry_of_complete asked
    rw [attempt_of_deserted hs (refusedToken?_under_loose h passed) hx denied]
    exact .inl rfl
  | again passed hx asked _ ih =>
    obtain ⟨left', rfl⟩ : ∃ n, left' = n + 1 := ⟨left' - 1, by omega⟩
    have answered := asked
    rw [← diagnose_under h] at answered
    have replaced := Synthesizer.synthesizeRetry_of_complete answered
    rw [attempt_of_again hs (refusedToken?_under_loose h passed) hx replaced, diagnose_under h]
    exact ih (by omega) rfl

/-! ## Runs -/

theorem report_outlasts (h : strict.Loosened loose) (s : Session μ σ) :
    (a.under loose).Outlasts (ended ((a.under strict).report s))
      (ended ((a.under loose).report s)) := by
  cases hq : s.skipBlank.queue with
  | nil =>
    rw [report_of_nil _ hq, report_of_nil _ hq]
    exact .inl rfl
  | cons i rest =>
    obtain ⟨result, w, hm⟩ : ∃ result w, a.synthesizer.synthesize i s.workbench = (result, w) :=
      ⟨_, _, rfl⟩
    cases result with
    | error reason =>
      rw [(a.under strict).report_of_error hq hm, (a.under loose).report_of_error hq hm]
      exact .inl rfl
    | ok made =>
      rw [(a.under strict).report_of_ok hq hm, (a.under loose).report_of_ok hq hm]
      have attempts := h.attempts
      refine ((a.under strict).attempt_tries _ _ _ _ _ _ rfl).outlasts h ?_ rfl
      simp only [under]
      omega

theorem runSteps_leads (a : Agent μ σ) (fuel : Nat) (s : Session μ σ) :
    ∃ moves, a.Leads s moves (a.runSteps fuel s).2 := by
  induction fuel generalizing s with
  | zero => exact ⟨[], .nil _ _⟩
  | succ fuel ih =>
    have any : ∀ i ∈ s.queue, (fun _ => True) i := fun _ _ => trivial
    obtain ⟨⟨moves, first, -⟩, -⟩ := a.report_moved any
    by_cases goes : Goes (a.turn s).report.outcome
    · obtain ⟨more, later⟩ := ih (a.turn s).after
      rw [(a.run_of_goes fuel goes).2]
      exact ⟨moves ++ more, first.append later⟩
    · rw [(a.run_of_not_goes fuel goes).2]
      exact ⟨moves, first⟩

theorem run_leads_on (a : Agent μ σ) (fuel : Nat) (s : Session μ σ) :
    ∃ moves, a.Leads (a.step s).2 moves (a.runSteps (fuel + 1) s).2 := by
  by_cases goes : Goes (a.turn s).report.outcome
  · rw [(a.run_of_goes fuel goes).2]
    exact a.runSteps_leads fuel (a.turn s).after
  · rw [(a.run_of_not_goes fuel goes).2]
    exact ⟨[], .nil _ _⟩

theorem runSteps_of_error {e : RunError} (fuel : Nat) (h : (a.step s).1 = .error e) :
    a.runSteps (fuel + 1) s = (.error e, (a.step s).2) := by
  have ends : ¬ Goes (a.turn s).report.outcome := by
    rintro ⟨o, ho, -⟩
    cases h.symm.trans ho
  rw [(a.run_of_not_goes fuel ends).2, Turn.answer, show (a.turn s).report.outcome = _ from h]
  rfl

theorem runSteps_outlasts (h : strict.Loosened loose) (fuel : Nat) (s : Session μ σ) :
    (a.under loose).Outlasts ((a.under strict).runSteps fuel s)
      ((a.under loose).runSteps fuel s) := by
  induction fuel generalizing s with
  | zero => exact .inl rfl
  | succ fuel ih =>
    have first : (a.under loose).Outlasts ((a.under strict).step s) ((a.under loose).step s) :=
      report_outlasts h s
    rcases first with same | ⟨⟨e, failed⟩, moves, on⟩
    · rw [runSteps, runSteps, same]
      rcases (a.under loose).step s with ⟨_ | ⟨_ | _ | _⟩, s₁⟩
      · exact .inl rfl
      · exact .inl rfl
      · exact ih s₁
      · exact ih s₁
    · obtain ⟨more, later⟩ := (a.under loose).run_leads_on fuel s
      rw [runSteps_of_error fuel failed]
      exact .inr ⟨⟨e, rfl⟩, moves ++ more, on.append later⟩

/-! ## What was done -/

theorem commands_grow (a : Agent μ σ) (action : String) (b : σ × List Command) :
    b.2 <+: ((a.watched.surface.runWhole action).run b).2.2 := by
  have alike : a.surface.watched.Alike (fun c c' => c = c' ∧ b.2 <+: c.2) a.surface.watched := by
    refine ⟨rfl, fun command => ?_⟩
    rintro c _ ⟨rfl, grown⟩
    exact ⟨rfl, rfl, grown.trans (List.prefix_append _ _)⟩
  exact (Surface.runWhole_alike alike action b b ⟨rfl, List.prefix_rfl⟩).2.2

theorem exchanges_grow (s : Synthesizer μ) (prompt : String) (w : Workbench (μ × List Exchange)) :
    w.model.2 <+: (s.watched.complete prompt w).2.model.2 := by
  obtain ⟨reuse, completion, found⟩ | missed := s.found_or_missed prompt w.cache
  · simp only [s.watched.complete_of_found reuse found, List.prefix_rfl]
  · obtain ⟨repeats, last, asked, -⟩ := s.model.ask_watched (s.request prompt) w.model
    rw [s.watched.complete_of_missed missed, s.watched_model, s.watched_request, asked]
    exact List.prefix_append _ _

theorem Does.grow {w w' : Workbench (μ × List Exchange)} {b b' : σ × List Command}
    {moves : List Move} (h : a.watched.Does w b moves w' b') :
    b.2 <+: b'.2 ∧ w.model.2 <+: w'.model.2 := by
  induction h with
  | nil => exact ⟨List.prefix_rfl, List.prefix_rfl⟩
  | @ask w _ _ _ _ _ request _ asked _ ih =>
    have sent := exchanges_grow a.synthesizer request.prompt w
    rw [show a.synthesizer.watched.complete request.prompt w = _ from asked] at sent
    exact ⟨ih.1, sent.trans ih.2⟩
  | @run _ _ b _ _ _ action _ ran _ ih =>
    have given := a.commands_grow action b
    rw [ran] at given
    exact ⟨given.trans ih.1, ih.2⟩

/-- Under looser limits a run does all that it does under the strict ones, in the same order, before
it does anything else; where the strict run ends without an error it is the same run. -/
theorem limits_only_end_runs (h : strict.Loosened loose) (s : Session μ σ) :
    (a.under strict).commands [.drive .run] s <+: (a.under loose).commands [.drive .run] s ∧
    (a.under strict).exchanges [.drive .run] s <+: (a.under loose).exchanges [.drive .run] s ∧
    ∀ summary, ((a.under strict).run s).1 = .ok summary →
      (a.under loose).run s = (a.under strict).run s := by
  have grown : ((a.watched.under strict).run s.watched).2.browser.2 <+:
      ((a.watched.under loose).run s.watched).2.browser.2 ∧
      ((a.watched.under strict).run s.watched).2.workbench.model.2 <+:
      ((a.watched.under loose).run s.watched).2.workbench.model.2 := by
    rcases runSteps_outlasts (a := a.watched) h _ s.watched with same | ⟨-, moves, leads⟩
    · rw [run, run, same]
      exact ⟨List.prefix_rfl, List.prefix_rfl⟩
    · exact Does.grow (a := a.under loose) leads
  refine ⟨grown.1, grown.2, fun summary finished => ?_⟩
  rcases runSteps_outlasts (a := a) h _ s with same | ⟨⟨e, failed⟩, -⟩
  · exact same.symm
  · cases failed.symm.trans finished

/-- One instruction, whose action reads the page. -/
theorem limits_only_end_runs_pageText :
    let strict : EngineSettings := ⟨1, .fatal, true, .fatal, 2000⟩
    let loose : EngineSettings := ⟨5, .continue, false, .fatal, 2000⟩
    let start : Session ScriptedModel Rehearsal :=
      .start [⟨"Read the page"⟩] (.ofAnswers [.ok "page_text()"]) .new
    strict.Loosened loose ∧
    (rehearsed.under strict).commands [.drive .run] start <+:
      (rehearsed.under loose).commands [.drive .run] start ∧
    (rehearsed.under strict).exchanges [.drive .run] start <+:
      (rehearsed.under loose).exchanges [.drive .run] start ∧
    (rehearsed.under loose).run start = (rehearsed.under strict).run start := by
  intro strict loose start
  have queue : start.skipBlank.queue = [⟨"Read the page"⟩] := by decide
  have stripped : Action.stripFences "page_text()" = "page_text()" := by decide
  have passed : (rehearsed.under strict).refusedToken? "page_text()" = none := by decide
  obtain ⟨requests, made⟩ := rehearsed_synthesize ⟨"Read the page"⟩ "page_text()" []
  rw [stripped] at made
  have ran := execute_of_run (a := rehearsed.under strict)
    (s := { start.skipBlank with
      queue := [], dispatched := 1
      workbench := ⟨⟨[], requests⟩, ⟨[(Prompt.action ⟨"Read the page"⟩, "page_text()")], 0, 1⟩⟩
      history := ⟨[⟨⟨"Read the page"⟩, "page_text()", .attempted, 1⟩]⟩ }) _ (run_pageText rfl)
  have report := (rehearsed.under strict).report_of_ok queue made
  rw [attempt_of_ran rfl passed (by exact ran)] at report
  have finished : ∃ summary, ((rehearsed.under strict).run start).1 = .ok summary := by
    have goes : Goes ((rehearsed.under strict).turn start).report.outcome :=
      ⟨.advanced 0 1, congrArg (·.1.outcome) report, by simp⟩
    have empty : ((rehearsed.under strict).turn start).after.skipBlank.queue = [] := by
      rw [turn, report]
      rfl
    have idle := (rehearsed.under strict).report_of_nil empty
    have stops : ¬ Goes ((rehearsed.under strict).turn
        ((rehearsed.under strict).turn start).after).report.outcome := by
      rw [turn, idle]
      simp [Goes]
    rw [run, show start.queue.length + 1 = 2 from rfl, (run_of_goes _ 1 goes).2,
      (run_of_not_goes _ 0 stops).2, Turn.answer, turn, idle]
    exact ⟨_, rfl⟩
  obtain ⟨summary, finished⟩ := finished
  have loosened : strict.Loosened loose := ⟨rfl, rfl, by decide, rfl⟩
  obtain ⟨commands, exchanges, same⟩ := limits_only_end_runs (a := rehearsed) loosened start
  exact ⟨loosened, commands, exchanges, same summary finished⟩

end Agent

end BrowserAgent
