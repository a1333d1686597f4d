import BrowserAgent.Proofs.Calls
import BrowserAgent.Proofs.RunLaws

/-!
# Agents side by side

Two agents with the same settings are called in the same way. If in related states they are given
the same actions and their surfaces do the same, then every call finds and leaves related sessions,
takes the same steps and answers the same. So whatever is seen in the same way of related sessions
is seen in the same way of everything that they did.
-/

namespace BrowserAgent

variable {μ ν σ τ : Type}

/-- Sessions that differ in the workbench and the surface only, which are related. -/
inductive Session.Beside (R : Workbench μ → Workbench ν → Prop) (Q : σ → τ → Prop) :
    Session μ σ → Session ν τ → Prop
  | mk {queue : List Instruction} {history : History} {w : Workbench μ} {w' : Workbench ν}
    {browser : σ} {browser' : τ} {phase : Phase} {dispatched : Nat} {tally : Tally} :
    R w w' → Q browser browser' →
    Beside R Q ⟨queue, history, w, browser, phase, dispatched, tally⟩
      ⟨queue, history, w', browser', phase, dispatched, tally⟩

namespace Session.Beside

variable {R : Workbench μ → Workbench ν → Prop} {Q : σ → τ → Prop} {s : Session μ σ}
  {t : Session ν τ}

theorem workbench (h : s.Beside R Q t) : R s.workbench t.workbench := by
  obtain ⟨hw, -⟩ := h
  exact hw

theorem browser (h : s.Beside R Q t) : Q s.browser t.browser := by
  obtain ⟨-, hb⟩ := h
  exact hb

end Session.Beside

/-- In related states both agents get the same actions and their surfaces do the same. -/
structure Agent.Simulates (a : Agent μ σ) (b : Agent ν τ) (R : Workbench μ → Workbench ν → Prop)
    (Q : σ → τ → Prop) : Prop where
  settings : b.settings = a.settings
  hostName : b.surface.hostName = a.surface.hostName
  complete : ∀ prompt w w', R w w' →
    Agree R (a.synthesizer.complete prompt w) (b.synthesizer.complete prompt w')
  runWhole : ∀ action, (a.surface.runWhole action).Alike Q (b.surface.runWhole action)
  reveal : ∀ browser browser' after after' w w', Q browser browser' → Q after after' → R w w' →
    R { w with model := a.reveal browser after w.model }
      { w' with model := b.reveal browser' after' w'.model }

/-! ## What is seen -/

section

variable {κ ω : Type}

def Turn.map (f : Session μ σ → Session κ ω) (t : Turn μ σ) : Turn κ ω :=
  ⟨f t.before, t.report, f t.after⟩

def Answer.map (g : RunSummary → RunSummary) : Answer → Answer
  | .stepped outcome => .stepped outcome
  | .finished summary => .finished (g summary)

/-- The log with its sessions and its summary seen in another way. -/
def CallLog.map (f : Session μ σ → Session κ ω) (g : RunSummary → RunSummary) (l : CallLog μ σ) :
    CallLog κ ω :=
  ⟨f l.before, l.replayed, l.turns.map (Turn.map f), l.answer.map (Answer.map g), f l.after⟩

theorem CallLog.map_map {κ' ω' : Type} (f : Session μ σ → Session κ ω)
    (f' : Session κ ω → Session κ' ω') (g g' : RunSummary → RunSummary) (l : CallLog μ σ) :
    (l.map f g).map f' g' = l.map (f' ∘ f) (g' ∘ g) := by
  obtain ⟨before, replayed, turns, answer, after⟩ := l
  rcases answer with e | ⟨_ | _⟩ <;> simp [map, Turn.map, Answer.map, Except.map]

/-- Related sessions and their summaries are seen in the same way. -/
structure Views (R : Workbench μ → Workbench ν → Prop) (Q : σ → τ → Prop)
    (f : Session μ σ → Session κ ω) (f' : Session ν τ → Session κ ω)
    (g g' : RunSummary → RunSummary) : Prop where
  session {s : Session μ σ} {t : Session ν τ} : s.Beside R Q t → f s = f' t
  summary {s : Session μ σ} {t : Session ν τ} : s.Beside R Q t → g s.summary = g' t.summary

end

variable {R : Workbench μ → Workbench ν → Prop} {Q : σ → τ → Prop}

/-! ## Actions -/

section

variable {p : Synthesizer μ} {q : Synthesizer ν} {w : Workbench μ} {w' : Workbench ν}
  (complete : ∀ prompt w w', R w w' → Agree R (p.complete prompt w) (q.complete prompt w'))
  (hw : R w w')
include complete hw

theorem Synthesizer.synthesize_agree (i : Instruction) :
    Agree R (p.synthesize i w) (q.synthesize i w') := by
  obtain ⟨result, after⟩ := complete (Prompt.action i) w w' hw
  exact ⟨congrArg (Except.map _) result, after⟩

theorem Synthesizer.retryCurrent_agree (diagnostic : String) (history : History) :
    ∃ result history' v v', p.retryCurrent diagnostic history w = (result, history', v) ∧
      q.retryCurrent diagnostic history w' = (result, history', v') ∧ R v v' := by
  cases hc : history.current? with
  | none =>
    exact ⟨.ok none, history, w, w', by simp only [retryCurrent, hc],
      by simp only [retryCurrent, hc], hw⟩
  | some current =>
    obtain ⟨result, after⟩ :=
      complete (Prompt.retry current.instruction current.action diagnostic) w w' hw
    simp only [retryCurrent, hc, synthesizeRetry, AttemptRecord.toActionRecord, ← result]
    cases (p.complete (Prompt.retry current.instruction current.action diagnostic) w).1 with
    | error reason => exact ⟨.error reason, history, _, _, rfl, rfl, after⟩
    | ok action => exact ⟨_, _, _, _, rfl, rfl, after⟩

end

namespace Agent

variable {a : Agent μ σ} {b : Agent ν τ} (sim : a.Simulates b R Q)
  {s : Session μ σ} {t : Session ν τ} (hs : s.Beside R Q t)
include sim hs

/-! ## Steps -/

theorem execute_agree (action : String) :
    Agree (Session.Beside R Q) (a.execute action s) (b.execute action t) := by
  cases hs with
  | mk hw hb =>
    obtain ⟨result, after⟩ := sim.runWhole action _ _ hb
    exact ⟨result, .mk (sim.reveal _ _ _ _ _ _ hb after hw) after⟩

omit hs in
theorem refusedToken?_eq (action : String) : b.refusedToken? action = a.refusedToken? action := by
  rw [refusedToken?, refusedToken?, sim.settings]

omit hs in
theorem diagnose_eq (failure : ActionFailure) : b.diagnose failure = a.diagnose failure := by
  rw [diagnose, diagnose, sim.settings, sim.hostName]

theorem giveUp_agree (trials : List Trial) (i : Instruction) (index attempts : Nat)
    (diagnostic : String) :
    Agree (Session.Beside R Q) (a.giveUp trials i index attempts diagnostic s)
      (b.giveUp trials i index attempts diagnostic t) := by
  cases hs with
  | mk hw hb =>
    simp only [giveUp, sim.settings]
    cases a.settings.onExhausted <;> exact ⟨rfl, .mk hw hb⟩

theorem attempt_agree (i : Instruction) (index left attempts : Nat) (prompt action : String) :
    Agree (Session.Beside R Q) (a.attempt i index left attempts prompt action s)
      (b.attempt i index left attempts prompt action t) := by
  induction left using Nat.strongRecOn generalizing attempts prompt action s t with
  | ind left ih =>
    rw [attempt, attempt, refusedToken?_eq sim]
    cases a.refusedToken? action with
    | some token =>
      cases hs with
      | mk hw hb => exact ⟨rfl, .mk hw hb⟩
    | none =>
      obtain ⟨result, u, v, hx, hy, hu⟩ := (execute_agree sim hs action).split
      rw [hx, hy]
      cases result with
      | ok =>
        cases hu with
        | mk hw hb => exact ⟨rfl, .mk hw hb⟩
      | error failure =>
        simp only [diagnose_eq sim]
        cases left with
        | zero => exact giveUp_agree sim hu ..
        | succ left =>
          cases hu with
          | @mk queue history w w' browser browser' phase dispatched tally hw hb =>
            -- The retry asks with the same prompt, so the same action is tried next.
            obtain ⟨made, history', v, v', hv, hv', hw'⟩ :=
              Synthesizer.retryCurrent_agree sim.complete hw (a.diagnose failure) history
            simp only [hv, hv']
            cases made with
            | error reason => exact ⟨rfl, .mk hw' hb⟩
            | ok made =>
              cases made with
              | none => exact ⟨rfl, .mk hw' hb⟩
              | some made =>
                have next : Session.Beside R Q
                    ⟨queue, history', v, browser, phase, dispatched, tally⟩
                    ⟨queue, history', v', browser', phase, dispatched, tally⟩ := .mk hw' hb
                obtain ⟨reports, sessions⟩ := ih left (Nat.lt_succ_self left) next (attempts + 1)
                  (Prompt.retry i action (a.diagnose failure)) made.action
                exact ⟨by simp only [reports], sessions⟩

theorem dispatch_agree (i : Instruction) :
    Agree (Session.Beside R Q) (a.dispatch i s) (b.dispatch i t) := by
  cases hs with
  | @mk queue history w w' browser browser' phase dispatched tally hw hb =>
    obtain ⟨result, v, v', hx, hy, hv⟩ :=
      (Synthesizer.synthesize_agree sim.complete hw i).split
    simp only [dispatch, sim.settings, hx, hy]
    cases result with
    | error reason => exact ⟨rfl, .mk hv hb⟩
    | ok made => exact attempt_agree sim (.mk hv hb) ..

theorem report_agree : Agree (Session.Beside R Q) (a.report s) (b.report t) := by
  have skipped : s.skipBlank.Beside R Q t.skipBlank := by
    cases hs with
    | mk hw hb => exact .mk hw hb
  rw [report, report]
  generalize s.skipBlank = u, t.skipBlank = v at skipped
  cases skipped with
  | @mk queue _ _ _ _ _ _ _ _ hw hb =>
    cases queue with
    | nil => exact ⟨rfl, .mk hw hb⟩
    | cons i more => exact dispatch_agree sim (.mk hw hb) i

/-! ## Replayed records -/

theorem play_agree (records : List ActionRecord) :
    (a.play records s).ran = (b.play records t).ran ∧
      (a.play records s).stopped = (b.play records t).stopped ∧
      (a.play records s).session.Beside R Q (b.play records t).session := by
  induction records generalizing s t with
  | nil => exact ⟨rfl, rfl, hs⟩
  | cons r more ih =>
    obtain ⟨result, u, v, hx, hy, hu⟩ := (execute_agree sim hs r.action).split
    rw [play, play, hx, hy]
    cases result with
    | error failure => exact ⟨rfl, rfl, hu⟩
    | ok =>
      have added : (u.addReplayed r).Beside R Q (v.addReplayed r) := by
        cases hu with
        | mk hw hb => exact .mk hw hb
      obtain ⟨ran, stopped, later⟩ := ih added
      exact ⟨congrArg (r :: ·) ran, stopped, later⟩

/-! ## Calls -/

section

variable {κ ω : Type} {f : Session μ σ → Session κ ω} {f' : Session ν τ → Session κ ω}
  {g g' : RunSummary → RunSummary} (view : Views R Q f f' g g')
include view

theorem turn_agree :
    (a.turn s).report = (b.turn t).report ∧ (a.turn s).after.Beside R Q (b.turn t).after ∧
      (a.turn s).map f = (b.turn t).map f' := by
  obtain ⟨reports, sessions⟩ := report_agree sim hs
  exact ⟨reports, sessions,
    by simp only [Turn.map, turn, view.session hs, reports, view.session sessions]⟩

omit sim hs in
theorem answer_agree {x : Turn μ σ} {y : Turn ν τ} (reports : x.report = y.report)
    (sessions : x.after.Beside R Q y.after) : x.answer.map g = y.answer.map g' := by
  rw [Turn.answer, Turn.answer, reports]
  cases y.report.outcome with
  | error e => rfl
  | ok o => exact congrArg Except.ok (view.summary sessions)

theorem runSteps_agree (fuel : Nat) :
    (a.runTurns fuel s).map (Turn.map f) = (b.runTurns fuel t).map (Turn.map f') ∧
      (a.runSteps fuel s).1.map g = (b.runSteps fuel t).1.map g' ∧
      (a.runSteps fuel s).2.Beside R Q (b.runSteps fuel t).2 := by
  induction fuel generalizing s t with
  | zero => exact ⟨rfl, congrArg Except.ok (view.summary hs), hs⟩
  | succ fuel ih =>
    obtain ⟨reports, sessions, seen⟩ := turn_agree sim hs view
    by_cases hg : Goes (a.turn s).report.outcome
    · obtain ⟨ht, hr⟩ := a.run_of_goes fuel hg
      obtain ⟨ht', hr'⟩ := b.run_of_goes fuel (reports ▸ hg)
      obtain ⟨turns, results, later⟩ := ih sessions
      rw [ht, hr, ht', hr', List.map_cons, List.map_cons, seen, turns]
      exact ⟨rfl, results, later⟩
    · obtain ⟨ht, hr⟩ := a.run_of_not_goes fuel hg
      obtain ⟨ht', hr'⟩ := b.run_of_not_goes fuel (reports ▸ hg)
      rw [ht, hr, ht', hr', List.map_singleton, List.map_singleton, seen]
      exact ⟨rfl, answer_agree view reports sessions, sessions⟩

theorem run_agree :
    (a.turns s).map (Turn.map f) = (b.turns t).map (Turn.map f') ∧
      (a.run s).1.map g = (b.run t).1.map g' ∧ (a.run s).2.Beside R Q (b.run t).2 := by
  have queue : s.queue.length = t.queue.length := by cases hs; rfl
  rw [turns, turns, run, run, queue]
  exact runSteps_agree sim hs view _

theorem replay_agree (records : List ActionRecord) (explicitSteps : Bool) :
    (a.replayTurns explicitSteps (a.play records s)).map (Turn.map f) =
        (b.replayTurns explicitSteps (b.play records t)).map (Turn.map f') ∧
      (a.replay records explicitSteps s).1.map g = (b.replay records explicitSteps t).1.map g' ∧
      (a.replay records explicitSteps s).2.Beside R Q (b.replay records explicitSteps t).2 := by
  obtain ⟨ran, stopped, sessions⟩ := play_agree sim hs records
  have stepsOn : b.stepsOn explicitSteps = a.stepsOn explicitSteps := by
    rw [Agent.stepsOn, Agent.stepsOn, sim.settings]
  simp only [replay, replayFrom_eq, replayTurns, ← ran, ← stopped, stepsOn, diagnose_eq sim]
  generalize (a.play records s).session = u, (b.play records t).session = v at sessions
  cases (a.play records s).stopped with
  | none =>
    have ended : Session.Beside R Q { u with phase := .idle } { v with phase := .idle } := by
      cases sessions with
      | mk hw hb => exact .mk hw hb
    exact ⟨rfl, congrArg Except.ok (view.summary ended), ended⟩
  | some stop =>
    obtain ⟨failure, rest⟩ := stop
    cases sessions with
    | mk hw hb =>
      cases a.stepsOn explicitSteps with
      | false => exact ⟨rfl, rfl, .mk hw hb⟩
      | true => exact run_agree sim (.mk hw hb) view

theorem log_agree (c : Call) :
    (a.log c s).map f g = (b.log c t).map f' g' ∧
      (a.log c s).after.Beside R Q (b.log c t).after := by
  have finished (x : Except RunError RunSummary) (h : RunSummary → RunSummary) :
      (x.map Answer.finished).map (Answer.map h) = (x.map h).map Answer.finished := by
    cases x <;> rfl
  match c with
  | .drive .step =>
    obtain ⟨reports, sessions, turns⟩ := turn_agree sim hs view
    have stepped (x : Except RunError StepOutcome) (h : RunSummary → RunSummary) :
        (x.map Answer.stepped).map (Answer.map h) = x.map Answer.stepped := by
      cases x <;> rfl
    refine ⟨?_, sessions⟩
    simp only [CallLog.map, log, step_eq, view.session hs, List.map_singleton, turns, reports,
      stepped, view.session sessions]
  | .drive .run =>
    obtain ⟨turns, results, sessions⟩ := run_agree sim hs view
    refine ⟨?_, sessions⟩
    simp only [CallLog.map, log, view.session hs, turns, finished, results, view.session sessions]
  | .replay records explicitSteps =>
    obtain ⟨turns, results, sessions⟩ := replay_agree sim hs view records explicitSteps
    refine ⟨?_, sessions⟩
    simp only [CallLog.map, log, view.session hs, (play_agree sim hs records).1, turns, finished,
      results, view.session sessions]

/-- Whatever is called, related sessions lead to related sessions, and all that was done on the way
is seen in the same way. -/
theorem logs_agree (calls : List Call) :
    (a.logs calls s).map (CallLog.map f g) = (b.logs calls t).map (CallLog.map f' g') ∧
      (a.after calls s).Beside R Q (b.after calls t) := by
  induction calls generalizing s t with
  | nil => exact ⟨rfl, hs⟩
  | cons c calls ih =>
    obtain ⟨seen, sessions⟩ := log_agree sim hs view c
    obtain ⟨logs, later⟩ := ih sessions
    rw [Agent.logs, Agent.logs, List.map_cons, List.map_cons, seen, logs]
    exact ⟨rfl, later⟩

end

end Agent

end BrowserAgent
