import BrowserAgent.Proofs.Attempts
import BrowserAgent.Proofs.Verdict

/-!
# What a step does

A step that gets an action tries it, and others after it, until one of four things ends it. The
ending decides the outcome, the state the record is left in and the requests that were made; all
that is proved of steps and runs is read off it.
-/

namespace BrowserAgent

/-! ## Endings -/

/-- How the work on an instruction ends once it has an action. -/
inductive Ending where
  | refused (token : String)
  | ran
  /-- The action failed and no attempt was left. -/
  | exhausted (failure : ActionFailure)
  /-- The action failed and the model made no other. -/
  | deserted (failure : ActionFailure) (reason : String)

namespace Ending

@[simp]
def verdict : Ending → Verdict
  | refused token => .refused token
  | ran => .ran
  | exhausted failure | deserted failure _ => .failed failure

/-- The state that the record of the instruction is left in. -/
def state : Ending → AttemptState
  | refused _ | exhausted _ => .failed
  | ran => .confirmed
  | deserted .. => .attempted

/-- The requests made after the one for the last action. -/
@[simp]
def laterRequests : Ending → Nat
  | deserted .. => 1
  | refused _ | ran | exhausted _ => 0

/-- After so many failures, with so many attempts left at first, the work can end so. -/
@[simp]
def Within (failures left : Nat) : Ending → Prop
  | exhausted _ => failures = left
  | deserted .. => failures < left
  | refused _ | ran => failures ≤ left

end Ending

/-- The actions tried for one instruction: those that failed before the last, the last, and how it
ended. -/
structure Course where
  failures : List Trial
  prompt : String
  action : String
  ending : Ending

namespace Course

def trials (c : Course) : List Trial := c.failures ++ [⟨c.prompt, c.action, c.ending.verdict⟩]

theorem length_trials (c : Course) : c.trials.length = c.failures.length + 1 := by
  simp [trials]

end Course

/-- The tally with the outcome of a step counted. -/
@[simp]
def Tally.count (t : Tally) : Except RunError StepOutcome → Tally
  | .ok (.advanced ..) => { t with advanced := t.advanced + 1 }
  | .ok (.surfaced ..) => { t with surfaced := t.surfaced + 1 }
  | .ok .idle | .error _ => t

theorem Tally.replayed_count (t : Tally) (outcome : Except RunError StepOutcome) :
    (t.count outcome).replayed = t.replayed := by
  rcases outcome with _ | _ | _ | _ <;> rfl

theorem Tally.skippedBlank_count (t : Tally) (outcome : Except RunError StepOutcome) :
    (t.count outcome).skippedBlank = t.skippedBlank := by
  rcases outcome with _ | _ | _ | _ <;> rfl

/-- The phase that a step ends in. -/
@[simp]
def Phase.after : Except RunError StepOutcome → Phase
  | .error _ => .fatal
  | .ok .idle => .idle
  | .ok (.advanced ..) | .ok (.surfaced ..) => .advance

namespace Session

variable {μ σ : Type}

def requests (s : Session μ σ) : Nat := s.workbench.cache.lookups

def instructions (s : Session μ σ) : List Instruction := s.queue.filter fun i => !i.isBlank

/-- The instruction that the next step takes. -/
def next? (s : Session μ σ) : Option Instruction := s.skipBlank.queue.head?

theorem instructions_skipBlank (s : Session μ σ) : s.skipBlank.instructions = s.instructions := by
  have blank : (s.queue.takeWhile Instruction.isBlank).filter (fun i => !i.isBlank) = [] := by
    rw [List.filter_eq_nil_iff]
    intro i hi
    simp [List.all_eq_true.mp (List.all_takeWhile) i hi]
  have split := List.takeWhile_append_dropWhile (p := Instruction.isBlank) (l := s.queue)
  rw [instructions, instructions, ← split, List.filter_append, blank, List.nil_append]
  rfl

/-- The blank instructions taken are counted, so none is lost. -/
theorem length_skipBlank (s : Session μ σ) :
    s.skipBlank.queue.length + s.skipBlank.tally.skippedBlank =
      s.queue.length + s.tally.skippedBlank := by
  have := congrArg List.length
    (List.takeWhile_append_dropWhile (p := Instruction.isBlank) (l := s.queue))
  rw [List.length_append] at this
  simp only [skipBlank]
  omega

theorem next?_of_nil {s : Session μ σ} (h : s.skipBlank.queue = []) : s.next? = none := by
  rw [next?, h, List.head?_nil]

theorem next?_of_cons {s : Session μ σ} {i : Instruction} {rest : List Instruction}
    (h : s.skipBlank.queue = i :: rest) : s.next? = some i := by
  rw [next?, h, List.head?_cons]

theorem instructions_of_nil {s : Session μ σ} (h : s.skipBlank.queue = []) :
    s.instructions = [] := by
  rw [← instructions_skipBlank, instructions, h, List.filter_nil]

theorem isBlank_of_cons {s : Session μ σ} {i : Instruction} {rest : List Instruction}
    (h : s.skipBlank.queue = i :: rest) : i.isBlank = false := by
  have := List.head?_dropWhile_not Instruction.isBlank s.queue
  simp only [skipBlank] at h
  simpa [h] using this

theorem instructions_of_cons {s : Session μ σ} {i : Instruction} {rest : List Instruction}
    (h : s.skipBlank.queue = i :: rest) :
    s.instructions = i :: rest.filter fun i => !i.isBlank := by
  rw [← instructions_skipBlank, instructions, h,
    List.filter_cons_of_pos (by simp [isBlank_of_cons h])]

end Session

namespace Agent

variable {μ σ : Type} (a : Agent μ σ)

/-- The outcome of a step that ends so, where the last of so many actions is given. -/
def outcome (i : Instruction) (index attempts : Nat) (action : String) :
    Ending → Except RunError StepOutcome
  | .refused token => .error (.unsafeAction i.text action token)
  | .ran => .ok (.advanced index attempts)
  | .exhausted failure =>
    match a.settings.onExhausted with
    | .fatal => .error (.exhausted i.text attempts (a.diagnose failure))
    | .continue => .ok (.surfaced index (a.diagnose failure))
  | .deserted _ reason => .error (.synthesis reason)

/-! ## The attempts at an instruction -/

/-- What the attempts at an instruction change, where the record in flight follows the past records
and counts so many actions already. -/
structure Attempted (i : Instruction) (index left made : Nat) (past : List AttemptRecord)
    (s : Session μ σ) (c : Course) (report : StepReport) (s' : Session μ σ) : Prop where
  report_eq : report =
    ⟨c.trials, a.outcome i index (made + c.failures.length) c.action c.ending⟩
  failed : ∀ t ∈ c.failures, t.verdict.isFailed
  judged : a.Judged c.trials s.browser s'.browser
  within : c.ending.Within c.failures.length left
  history : s'.history =
    ⟨past ++ [⟨i, c.action, c.ending.state, made + c.failures.length⟩]⟩
  requests : s'.requests = s.requests + c.failures.length + c.ending.laterRequests
  queue : s'.queue = s.queue
  dispatched : s'.dispatched = s.dispatched
  tally : s'.tally = s.tally.count report.outcome
  phase : s'.phase = .after report.outcome

section

variable {a} {i : Instruction} {index left made : Nat} {past : List AttemptRecord}
  {s s₁ : Session μ σ} {prompt action : String}

/-- A failure in front of a course of attempts. -/
theorem Attempted.cons {s₂ s' : Session μ σ} {report : StepReport} {c : Course}
    {failure : ActionFailure} (later : a.Attempted i index left (made + 1) past s₂ c report s')
    (judge : a.judge action s.browser = (.failed failure, s₂.browser)) (queue : s₂.queue = s.queue)
    (dispatched : s₂.dispatched = s.dispatched) (tally : s₂.tally = s.tally)
    (requests : s₂.requests = s.requests + 1) :
    a.Attempted i index (left + 1) made past s
      { c with failures := ⟨prompt, action, .failed failure⟩ :: c.failures }
      ⟨⟨prompt, action, .failed failure⟩ :: report.trials, report.outcome⟩ s' where
  report_eq := by
    simp [later.report_eq, Course.trials, Nat.add_assoc, Nat.add_comm 1]
  failed := by simpa using later.failed
  judged := by
    rw [Course.trials, List.cons_append, judged_cons, judge]
    exact ⟨rfl, later.judged⟩
  within := by
    have := later.within
    cases hc : c.ending <;> simp_all
  history := by simp [later.history, Nat.add_assoc, Nat.add_comm 1]
  requests := by
    simp only [later.requests, requests, List.length_cons]
    omega
  queue := later.queue.trans queue
  dispatched := later.dispatched.trans dispatched
  tally := by rw [later.tally, tally]
  phase := later.phase

/-- Whatever the attempts meet, they end in one of the four ways. -/
theorem Tries.attempted {report : StepReport} {s' : Session μ σ}
    (h : a.Tries i index past left made prompt action s report s') :
    ∃ c, a.Attempted i index left made past s c report s' := by
  induction h with
  | @refused _ _ prompt action token _ h =>
    refine ⟨⟨[], prompt, action, .refused token⟩, ?_⟩
    constructor <;>
      simp [Course.trials, Ending.state, outcome, h, Session.requests, Judged, judgeAll, judge]
  | @ran _ _ prompt action _ _ h hx =>
    obtain ⟨hh, hq, hd, ht, hc, hb⟩ := execute_frame hx
    refine ⟨⟨[], prompt, action, .ran⟩, ?_⟩
    constructor <;>
      simp_all [Course.trials, Ending.state, outcome, Session.requests, Judged, judgeAll, judge]
  | @exhausted _ prompt action failure _ _ h hx policy
  | @surfaced _ prompt action failure _ _ h hx policy =>
    obtain ⟨hh, hq, hd, ht, hc, hb⟩ := execute_frame hx
    refine ⟨⟨[], prompt, action, .exhausted failure⟩, ?_⟩
    constructor <;>
      simp_all [Course.trials, Ending.state, outcome, Session.requests, Judged, judgeAll, judge]
  | @deserted _ _ prompt action reason failure _ s₁ _ h hx asked =>
    obtain ⟨hh, hq, hd, ht, hc, hb⟩ := execute_frame hx
    have counted := a.synthesizer.lookups_complete
      (Prompt.retry i action (a.diagnose failure)) s₁.workbench
    refine ⟨⟨[], prompt, action, .deserted failure reason⟩, ?_⟩
    constructor <;>
      simp_all [Course.trials, Ending.state, outcome, Session.requests, Judged, judgeAll, judge]
  | @again _ _ prompt action _ failure s s₁ _ w _ h hx asked _ ih =>
    -- One failure, then whatever the attempts that are left come to.
    obtain ⟨hh, hq, hd, ht, hc, hb⟩ := execute_frame hx
    obtain ⟨c, later⟩ := ih
    have judged : a.judge action s.browser = (.failed failure, s₁.browser) := by
      simp only [judge, h, hb]
    have counted : w.cache.lookups = s.requests + 1 := by
      have := a.synthesizer.lookups_complete
        (Prompt.retry i action (a.diagnose failure)) s₁.workbench
      rwa [asked, hc] at this
    exact ⟨_, later.cons judged hq hd ht counted⟩

end

/-! ## The step -/

/-- What a step changes whose instruction got an action. -/
structure Made (i : Instruction) (s : Session μ σ) (c : Course) (report : StepReport)
    (s' : Session μ σ) : Prop where
  report_eq : report = ⟨c.trials, a.outcome i s.dispatched c.trials.length c.action c.ending⟩
  failed : ∀ t ∈ c.failures, t.verdict.isFailed
  judged : a.Judged c.trials s.browser s'.browser
  within : c.ending.Within c.failures.length (a.settings.maxAttempts - 1)
  history : s'.history =
    ⟨s.history.records ++ [⟨i, c.action, c.ending.state, c.trials.length⟩]⟩
  requests : s'.requests = s.requests + c.trials.length + c.ending.laterRequests
  queue : s.skipBlank.queue = i :: s'.queue
  dispatched : s'.dispatched = s.dispatched + 1
  tally : s'.tally = s.skipBlank.tally.count report.outcome
  phase : s'.phase = .after report.outcome

/-- What a step does: nothing is left to take, or the instruction taken gets no action, or it gets
one and meets an ending. -/
inductive Stepped (s : Session μ σ) : StepReport → Session μ σ → Prop where
  | idle : s.skipBlank.queue = [] → Stepped s ⟨[], .ok .idle⟩ { s.skipBlank with phase := .idle }
  | unmade {i : Instruction} {rest : List Instruction} {reason : String} {w : Workbench μ} :
    s.skipBlank.queue = i :: rest →
    a.synthesizer.synthesize i s.workbench = (.error reason, w) →
    Stepped s ⟨[], .error (.synthesis reason)⟩
      { s.skipBlank with
        queue := rest, dispatched := s.dispatched + 1, workbench := w, phase := .fatal }
  | made {i : Instruction} {m : ActionRecord} {w : Workbench μ} {c : Course} {report : StepReport}
      {s' : Session μ σ} :
    a.synthesizer.synthesize i s.workbench = (.ok m, w) →
    a.Made i s c report s' →
    Stepped s report s'

variable {a}

theorem Attempted.made {i : Instruction} {rest : List Instruction} {action : String}
    {w : Workbench μ} {s s' : Session μ σ} {c : Course} {report : StepReport}
    (hq : s.skipBlank.queue = i :: rest) (hw : w.cache.lookups = s.requests + 1)
    (h : a.Attempted i s.dispatched (a.settings.maxAttempts - 1) 1 s.history.records
      { s.skipBlank with
        queue := rest, dispatched := s.dispatched + 1, workbench := w,
        history := ⟨s.history.records ++ [⟨i, action, .attempted, 1⟩]⟩ } c report s') :
    a.Made i s c report s' where
  report_eq := by rw [h.report_eq, c.length_trials, Nat.add_comm]
  failed := h.failed
  judged := h.judged
  within := h.within
  history := by rw [h.history, c.length_trials, Nat.add_comm]
  requests := by
    have := h.requests
    simp only [Session.requests, c.length_trials] at this hw ⊢
    omega
  queue := by rw [h.queue, hq]
  dispatched := h.dispatched
  tally := h.tally
  phase := h.phase

theorem outcome_ne_idle (i : Instruction) (index attempts : Nat) (action : String) (e : Ending) :
    a.outcome i index attempts action e ≠ .ok .idle := by
  cases e with
  | exhausted failure =>
    rw [outcome]
    split <;> simp
  | refused | ran | deserted => simp [outcome]

theorem ran_of_outcome {i : Instruction} {index index' attempts attempts' : Nat} {action : String}
    {e : Ending}
    (h : a.outcome i index attempts action e = .ok (.advanced index' attempts')) :
    e = .ran ∧ attempts = attempts' := by
  cases e with
  | ran =>
    simp only [outcome, Except.ok.injEq, StepOutcome.advanced.injEq] at h
    exact ⟨rfl, h.2⟩
  | exhausted failure =>
    rw [outcome] at h
    cases hp : a.settings.onExhausted <;> simp [hp] at h
  | refused | deserted => simp [outcome] at h

section

variable {s s' : Session μ σ} {report : StepReport}

/-- A step takes the first instruction that is not blank, if there is one. -/
theorem Stepped.instructions (h : a.Stepped s report s') :
    s.instructions = s.next?.toList ++ s'.instructions := by
  cases h with
  | idle hq =>
    rw [Session.instructions_of_nil hq, Session.next?_of_nil hq]
    simp [Session.instructions, hq]
  | unmade hq =>
    rw [Session.instructions_of_cons hq, Session.next?_of_cons hq]
    rfl
  | made _ h =>
    rw [Session.instructions_of_cons h.queue, Session.next?_of_cons h.queue]
    rfl

theorem Stepped.idle_iff (h : a.Stepped s report s') :
    report.outcome = .ok .idle ↔ s.next? = none := by
  cases h with
  | idle hq => simp [Session.next?_of_nil hq]
  | unmade hq => simp [Session.next?_of_cons hq]
  | made _ h => simp [Session.next?_of_cons h.queue, h.report_eq, outcome_ne_idle]

theorem Stepped.judged (h : a.Stepped s report s') :
    a.Judged report.trials s.browser s'.browser := by
  cases h with
  | idle | unmade => rfl
  | made _ h =>
    rw [h.report_eq]
    exact h.judged

end

variable (a)

theorem report_of_nil {s : Session μ σ} (h : s.skipBlank.queue = []) :
    a.report s = (⟨[], .ok .idle⟩, { s.skipBlank with phase := .idle }) := by
  simp only [report, h]

theorem report_of_error {s : Session μ σ} {i : Instruction} {rest : List Instruction}
    {reason : String} {w : Workbench μ} (h : s.skipBlank.queue = i :: rest)
    (hm : a.synthesizer.synthesize i s.workbench = (.error reason, w)) :
    a.report s = (⟨[], .error (.synthesis reason)⟩,
      { s.skipBlank with
        queue := rest, dispatched := s.dispatched + 1, workbench := w, phase := .fatal }) := by
  have hm : a.synthesizer.synthesize i s.skipBlank.workbench = (.error reason, w) := hm
  simp only [report, h, dispatch, hm]
  rfl

theorem report_of_ok {s : Session μ σ} {i : Instruction} {rest : List Instruction}
    {m : ActionRecord} {w : Workbench μ} (h : s.skipBlank.queue = i :: rest)
    (hm : a.synthesizer.synthesize i s.workbench = (.ok m, w)) :
    a.report s = a.attempt i s.dispatched (a.settings.maxAttempts - 1) 1 (Prompt.action i) m.action
      { s.skipBlank with
        queue := rest, dispatched := s.dispatched + 1, workbench := w,
        history := ⟨s.history.records ++ [⟨i, m.action, .attempted, 1⟩]⟩ } := by
  have hi := a.synthesizer.instruction_of_synthesize hm
  have hm : a.synthesizer.synthesize i s.skipBlank.workbench = (.ok m, w) := hm
  simp only [report, h, dispatch, hm, History.start_eq, hi]
  rfl

theorem report_stepped (s : Session μ σ) : a.Stepped s (a.report s).1 (a.report s).2 := by
  cases hq : s.skipBlank.queue with
  | nil =>
    rw [report_of_nil a hq]
    exact .idle hq
  | cons i rest =>
    obtain ⟨result, w, hm⟩ : ∃ result w, a.synthesizer.synthesize i s.workbench = (result, w) :=
      ⟨_, _, rfl⟩
    have hw := a.synthesizer.lookups_synthesize i s.workbench
    rw [hm] at hw
    cases result with
    | error reason =>
      rw [report_of_error a hq hm]
      exact .unmade hq hm
    | ok m =>
      rw [report_of_ok a hq hm]
      have tries := a.attempt_tries s.dispatched (a.settings.maxAttempts - 1) 1 (Prompt.action i)
        m.action
        { s.skipBlank with
          queue := rest, dispatched := s.dispatched + 1, workbench := w,
          history := ⟨s.history.records ++ [⟨i, m.action, .attempted, 1⟩]⟩ } rfl
      obtain ⟨c, hc⟩ := tries.attempted
      exact .made hm (hc.made hq hw)

end Agent

end BrowserAgent
