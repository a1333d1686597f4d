import BrowserAgent.Proofs.Step

/-!
# Calls to a session

A caller lets a session step, run or replay, in any order and also after an error. Whatever it
calls, the session replays some records and then takes some steps, one after the other. What is
kept by a step and by a replayed record is kept by every list of calls.
-/

namespace BrowserAgent

/-- A call that works off the queue. -/
inductive Drive where
  | step
  | run
deriving DecidableEq, Repr

inductive Call where
  | drive (d : Drive)
  | replay (records : List ActionRecord) (explicitSteps : Bool)
deriving DecidableEq, Repr

/-- What a call answers when it ends without an error. -/
inductive Answer where
  | stepped (outcome : StepOutcome)
  | finished (summary : RunSummary)
deriving DecidableEq, Repr

/-- A step that was taken, with the sessions around it. -/
structure Turn (μ σ : Type) where
  before : Session μ σ
  report : StepReport
  after : Session μ σ

/-- What a run answers that ends with the step. -/
def Turn.answer {μ σ : Type} (t : Turn μ σ) : Except RunError RunSummary :=
  t.report.outcome.map fun _ => t.after.summary

/-- What a call that works off the queue answers if it ends with the step. -/
def Drive.answer {μ σ : Type} (t : Turn μ σ) : Drive → Except RunError Answer
  | .step => t.report.outcome.map .stepped
  | .run => t.answer.map .finished

/-- What a call did: it replayed records without a failure, then it took steps. -/
structure CallLog (μ σ : Type) where
  before : Session μ σ
  replayed : List ActionRecord
  turns : List (Turn μ σ)
  answer : Except RunError Answer
  after : Session μ σ

/-- How far a replay gets without a step: the records that ran, the session then, and the failure
that ends it with the records from the one that failed. -/
structure Playback (μ σ : Type) where
  ran : List ActionRecord
  session : Session μ σ
  stopped : Option (ActionFailure × List ActionRecord)

/-- A replayed record is one more confirmed record. -/
def Session.addReplayed {μ σ : Type} (s : Session μ σ) (r : ActionRecord) : Session μ σ :=
  { s with
    history := (s.history.start r).confirmCurrent
    tally := { s.tally with replayed := s.tally.replayed + 1 } }

namespace Agent

variable {μ σ : Type} (a : Agent μ σ)

def turn (s : Session μ σ) : Turn μ σ := ⟨s, (a.report s).1, (a.report s).2⟩

def runTurns : Nat → Session μ σ → List (Turn μ σ)
  | 0, _ => []
  | fuel + 1, s =>
    match (a.turn s).report.outcome with
    | .error _ | .ok .idle => [a.turn s]
    | .ok _ => a.turn s :: runTurns fuel (a.turn s).after

def turns (s : Session μ σ) : List (Turn μ σ) := a.runTurns (s.queue.length + 1) s

/-- Runs the records in order until one fails. -/
def play : List ActionRecord → Session μ σ → Playback μ σ
  | [], s => ⟨[], s, none⟩
  | r :: more, s =>
    match a.execute r.action s with
    | (.ok _, s) =>
      let later := play more (s.addReplayed r)
      { later with ran := r :: later.ran }
    | (.error failure, s) => ⟨[], s, some (failure, r :: more)⟩

/-- A replay that fails goes on stepping. -/
def stepsOn (explicitSteps : Bool) : Bool :=
  explicitSteps && a.settings.replayOnFailure == .stepThrough

/-- The steps of a replay that goes on stepping. -/
def replayTurns (explicitSteps : Bool) (p : Playback μ σ) : List (Turn μ σ) :=
  match p.stopped with
  | some (_, rest) =>
    if a.stepsOn explicitSteps then
      a.turns { p.session with queue := rest.map (·.instruction) }
    else []
  | none => []

/-- Carries out a call and keeps what it did. -/
def log : Call → Session μ σ → CallLog μ σ
  | .drive .step, s =>
    let (result, after) := a.step s
    ⟨s, [], [a.turn s], result.map .stepped, after⟩
  | .drive .run, s =>
    let (result, after) := a.run s
    ⟨s, [], a.turns s, result.map .finished, after⟩
  | .replay records explicitSteps, s =>
    let (result, after) := a.replay records explicitSteps s
    let p := a.play records s
    ⟨s, p.ran, a.replayTurns explicitSteps p, result.map .finished, after⟩

def logs : List Call → Session μ σ → List (CallLog μ σ)
  | [], _ => []
  | c :: calls, s => a.log c s :: logs calls (a.log c s).after

def after : List Call → Session μ σ → Session μ σ
  | [], s => s
  | c :: calls, s => after calls (a.log c s).after

/-! ## Steps in a row -/

/-- The steps lead from the one session to the other, each from where the one before it ended. -/
inductive Chain : Session μ σ → List (Turn μ σ) → Session μ σ → Prop where
  | nil (s : Session μ σ) : Chain s [] s
  | cons {s s' : Session μ σ} {turns : List (Turn μ σ)} :
    Chain (a.turn s).after turns s' → Chain s (a.turn s :: turns) s'

theorem turn_stepped (s : Session μ σ) : a.Stepped s (a.turn s).report (a.turn s).after :=
  a.report_stepped s

variable {a}

theorem Chain.append {s₁ s₂ s₃ : Session μ σ} {xs ys : List (Turn μ σ)} (h : a.Chain s₁ xs s₂)
    (h' : a.Chain s₂ ys s₃) : a.Chain s₁ (xs ++ ys) s₃ := by
  induction h with
  | nil => exact h'
  | cons _ ih => exact .cons (ih h')

theorem Chain.stepped {s s' : Session μ σ} {turns : List (Turn μ σ)} (h : a.Chain s turns s') :
    ∀ t ∈ turns, a.Stepped t.before t.report t.after := by
  induction h with
  | nil => simp
  | @cons s _ _ _ ih => exact List.forall_mem_cons.mpr ⟨a.turn_stepped s, ih⟩

theorem Chain.eq_turn {s s' : Session μ σ} {turns : List (Turn μ σ)} (h : a.Chain s turns s') :
    ∀ t ∈ turns, t = a.turn t.before := by
  induction h with
  | nil => simp
  | cons _ ih => exact List.forall_mem_cons.mpr ⟨rfl, ih⟩

theorem Chain.before {s s' : Session μ σ} {xs ys : List (Turn μ σ)} {t : Turn μ σ}
    (h : a.Chain s (xs ++ t :: ys) s') : a.Chain s xs t.before := by
  induction xs generalizing s with
  | nil =>
    cases h with
    | cons => exact .nil s
  | cons x xs ih =>
    cases h with
    | cons h => exact .cons (ih h)

variable (a)

theorem turn_mem_turns (s : Session μ σ) : a.turn s ∈ a.turns s := by
  unfold turns runTurns
  split <;> simp

theorem turn_mem_log (d : Drive) (s : Session μ σ) : a.turn s ∈ (a.log (.drive d) s).turns := by
  cases d with
  | step => exact List.mem_singleton_self _
  | run => exact a.turn_mem_turns s

theorem mem_logs {calls : List Call} {s : Session μ σ} {l : CallLog μ σ}
    (h : l ∈ a.logs calls s) : ∃ c ∈ calls, ∃ s', l = a.log c s' := by
  induction calls generalizing s with
  | nil => simp [logs] at h
  | cons c calls ih =>
    rcases List.mem_cons.mp h with rfl | h
    · exact ⟨c, List.mem_cons_self, s, rfl⟩
    · obtain ⟨d, hd, s', rfl⟩ := ih h
      exact ⟨d, List.mem_cons_of_mem _ hd, s', rfl⟩

theorem log_before (c : Call) (s : Session μ σ) : (a.log c s).before = s := by
  match c with
  | .drive .step | .drive .run | .replay .. => rfl

theorem replayed_drive (d : Drive) (s : Session μ σ) : (a.log (.drive d) s).replayed = [] := by
  cases d <;> rfl

theorem step_eq (s : Session μ σ) : a.step s = ((a.turn s).report.outcome, (a.turn s).after) := rfl

theorem after_step (s : Session μ σ) : a.after [.drive .step] s = (a.report s).2 := rfl

/-! ## The end of a run -/

/-- A step after which a run goes on. -/
def Goes (outcome : Except RunError StepOutcome) : Prop := ∃ o, outcome = .ok o ∧ o ≠ .idle

theorem run_of_goes {s : Session μ σ} (fuel : Nat) (h : Goes (a.turn s).report.outcome) :
    a.runTurns (fuel + 1) s = a.turn s :: a.runTurns fuel (a.turn s).after ∧
      a.runSteps (fuel + 1) s = a.runSteps fuel (a.turn s).after := by
  obtain ⟨o, ho, hne⟩ := h
  cases o with
  | idle => simp at hne
  | advanced | surfaced => simp [runTurns, runSteps, step_eq, ho]

theorem run_of_not_goes {s : Session μ σ} (fuel : Nat) (h : ¬ Goes (a.turn s).report.outcome) :
    a.runTurns (fuel + 1) s = [a.turn s] ∧
      a.runSteps (fuel + 1) s = ((a.turn s).answer, (a.turn s).after) := by
  cases ho : (a.turn s).report.outcome with
  | error e => simp [runTurns, runSteps, step_eq, ho, Turn.answer, Except.map]
  | ok o =>
    cases o with
    | idle => simp [runTurns, runSteps, step_eq, ho, Turn.answer, Except.map]
    | advanced | surfaced => simp [ho, Goes] at h

theorem length_instructions_turn {s : Session μ σ} (h : Goes (a.turn s).report.outcome) :
    (a.turn s).after.instructions.length < s.instructions.length := by
  obtain ⟨o, ho, hne⟩ := h
  rw [(a.turn_stepped s).instructions, List.length_append]
  cases hn : s.next? with
  | none =>
    rw [← (a.turn_stepped s).idle_iff, ho] at hn
    simp_all
  | some i => simp

/-- With one step more than there are instructions a run ends by itself: at a step that finds
nothing to take or that fails. -/
theorem runSteps_ends (fuel : Nat) (s : Session μ σ) (h : s.instructions.length < fuel) :
    ∃ turns s', a.Chain s turns s' ∧ a.runTurns fuel s = turns ++ [a.turn s'] ∧
      (∀ t ∈ turns, Goes t.report.outcome) ∧ ¬ Goes (a.turn s').report.outcome ∧
      a.runSteps fuel s = ((a.turn s').answer, (a.turn s').after) := by
  induction fuel generalizing s with
  | zero => omega
  | succ fuel ih =>
    by_cases hg : Goes (a.turn s).report.outcome
    · obtain ⟨ht, hr⟩ := a.run_of_goes fuel hg
      have := a.length_instructions_turn hg
      obtain ⟨turns, s', hc, hts, hgs, hn, he⟩ := ih (a.turn s).after (by omega)
      exact ⟨a.turn s :: turns, s', .cons hc, by rw [ht, hts, List.cons_append],
        List.forall_mem_cons.mpr ⟨hg, hgs⟩, hn, hr.trans he⟩
    · obtain ⟨ht, hr⟩ := a.run_of_not_goes fuel hg
      exact ⟨[], s, .nil s, ht, by simp, hg, hr⟩

theorem run_ends (s : Session μ σ) :
    ∃ turns s', a.Chain s turns s' ∧ a.turns s = turns ++ [a.turn s'] ∧
      (∀ t ∈ turns, Goes t.report.outcome) ∧ ¬ Goes (a.turn s').report.outcome ∧
      a.run s = ((a.turn s').answer, (a.turn s').after) :=
  a.runSteps_ends _ s (Nat.lt_succ_of_le (List.length_filter_le _ _))

theorem run_chain (s : Session μ σ) : a.Chain s (a.turns s) (a.run s).2 := by
  obtain ⟨turns, s', hc, ht, -, -, hr⟩ := a.run_ends s
  rw [ht, hr]
  exact hc.append (.cons (.nil _))

/-- A call that works off the queue ends with a step, and every step before it goes on. -/
theorem log_drive (d : Drive) (s : Session μ σ) :
    ∃ turns s', a.Chain s turns s' ∧ (∀ t ∈ turns, Goes t.report.outcome) ∧
      a.log (.drive d) s =
        ⟨s, [], turns ++ [a.turn s'], d.answer (a.turn s'), (a.turn s').after⟩ := by
  cases d with
  | step => exact ⟨[], s, .nil s, by simp, rfl⟩
  | run =>
    obtain ⟨turns, s', hc, ht, hg, -, hr⟩ := a.run_ends s
    exact ⟨turns, s', hc, hg, by simp only [log, ht, hr, Drive.answer]⟩

theorem log_chain (d : Drive) (s : Session μ σ) :
    a.Chain s (a.log (.drive d) s).turns (a.log (.drive d) s).after := by
  obtain ⟨turns, s', hc, -, hl⟩ := a.log_drive d s
  rw [hl]
  exact hc.append (.cons (.nil _))

theorem drives_chain (drives : List Drive) (s : Session μ σ) :
    a.Chain s ((a.logs (drives.map .drive) s).flatMap (·.turns))
      (a.after (drives.map .drive) s) := by
  induction drives generalizing s with
  | nil => exact .nil s
  | cons d drives ih => exact (a.log_chain d s).append (ih (a.log (.drive d) s).after)

/-! ## Replays -/

theorem replayFrom_eq (explicitSteps : Bool) (number : Nat) (records : List ActionRecord)
    (s : Session μ σ) :
    a.replayFrom explicitSteps number records s =
      let p := a.play records s
      match p.stopped with
      | none =>
        (.ok { p.session with phase := .idle }.summary, { p.session with phase := .idle })
      | some (failure, rest) =>
        if a.stepsOn explicitSteps then
          a.run { p.session with queue := rest.map (·.instruction) }
        else
          (.error (.replay (number + p.ran.length) (a.diagnose failure)),
            { p.session with phase := .fatal }) := by
  induction records generalizing number s with
  | nil => rfl
  | cons r more ih =>
    obtain ⟨result, s₁, hx⟩ : ∃ result s₁, a.execute r.action s = (result, s₁) := ⟨_, _, rfl⟩
    cases result with
    | ok =>
      simp only [replayFrom, play, hx]
      rw [show number + (r :: (a.play more (s₁.addReplayed r)).ran).length =
        number + 1 + (a.play more (s₁.addReplayed r)).ran.length by rw [List.length_cons]; omega]
      exact ih (number + 1) (s₁.addReplayed r)
    | error failure =>
      simp only [replayFrom, play, hx]
      rfl

/-- Where a replay leads: to the session in which its steps begin, and on from there. -/
theorem replay_chain (records : List ActionRecord) (explicitSteps : Bool) (s : Session μ σ) :
    ∃ s₁, s₁.history = (a.play records s).session.history ∧
      a.Chain s₁ (a.replayTurns explicitSteps (a.play records s))
        (a.replay records explicitSteps s).2 := by
  simp only [replay, replayFrom_eq, replayTurns]
  cases hp : (a.play records s).stopped with
  | none =>
    exact ⟨{ (a.play records s).session with phase := .idle }, rfl, .nil _⟩
  | some stopped =>
    obtain ⟨failure, rest⟩ := stopped
    by_cases hs : a.stepsOn explicitSteps
    · simp only [hs, if_true]
      exact ⟨{ (a.play records s).session with queue := rest.map (·.instruction) }, rfl,
        a.run_chain _⟩
    · simp only [hs, if_false, Bool.false_eq_true]
      exact ⟨{ (a.play records s).session with phase := .fatal }, rfl, .nil _⟩

theorem log_eq_turn (c : Call) (s : Session μ σ) :
    ∀ t ∈ (a.log c s).turns, t = a.turn t.before := by
  cases c with
  | drive d => exact (a.log_chain d s).eq_turn
  | replay records explicitSteps =>
    obtain ⟨s₁, -, hc⟩ := a.replay_chain records explicitSteps s
    exact hc.eq_turn

/-- Whatever is called, what it does on the way are steps. -/
theorem log_stepped (c : Call) (s : Session μ σ) :
    ∀ t ∈ (a.log c s).turns, a.Stepped t.before t.report t.after := by
  cases c with
  | drive d => exact (a.log_chain d s).stepped
  | replay records explicitSteps =>
    obtain ⟨s₁, -, hc⟩ := a.replay_chain records explicitSteps s
    exact hc.stepped

end Agent

end BrowserAgent
