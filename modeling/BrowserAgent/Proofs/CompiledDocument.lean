import BrowserAgent.Proofs.Deeds
import BrowserAgent.Proofs.Rehearsed
import Mathlib.Data.List.Basic

/-!
# What a document holds

The document of a session holds, in order, the actions that were run and have not failed, but for
one case: an action stays in it that failed and that the model did not replace. That is the only
way in which a record is left in flight.
-/

namespace BrowserAgent

/-- The action ran to its end without a failure. -/
def Deed.isClean (d : Deed) : Bool := d.ending.state == .confirmed

def Surface.runAll {σ : Type} (s : Surface σ) : List String → σ → Except ActionFailure Unit × σ
  | [], browser => (.ok (), browser)
  | action :: more, browser =>
    match (s.runWhole action).run browser with
    | (.ok _, browser) => runAll s more browser
    | (.error failure, browser) => (.error failure, browser)

variable {μ σ : Type}

/-- The model gave no action in place of one that had failed. -/
def Turn.isDeserted (t : Turn μ σ) : Prop :=
  t.report.trials ≠ [] ∧ ∃ reason, t.report.outcome = .error (.synthesis reason)

namespace CallLog

def isDeserted (l : CallLog μ σ) : Prop := ∃ t ∈ l.turns, t.isDeserted

/-- The log says what happened: every replayed action ran without a failure, and the gate and the
surface made of every other action what its verdict says. -/
structure Truthful (l : CallLog μ σ) (a : Agent μ σ) : Prop where
  replayed : (a.surface.runAll (l.replayed.map (·.action)) l.before.browser).1 = .ok ()
  judged : ∀ t ∈ l.turns, a.Judged t.report.trials t.before.browser t.after.browser

end CallLog

namespace Agent

variable {a : Agent μ σ}

/-! ## Truth -/

theorem play_runs (records : List ActionRecord) (s : Session μ σ) :
    (a.surface.runAll ((a.play records s).ran.map (·.action)) s.browser).1 = .ok () := by
  induction records generalizing s with
  | nil => rfl
  | cons r more ih =>
    obtain ⟨result, s₁, hx⟩ : ∃ result s₁, a.execute r.action s = (result, s₁) := ⟨_, _, rfl⟩
    obtain ⟨-, -, -, -, -, hb⟩ := execute_frame hx
    cases result with
    | ok =>
      simp only [play, hx, List.map_cons, Surface.runAll, hb]
      exact ih (s₁.addReplayed r)
    | error failure => simp only [play, hx, List.map_nil, Surface.runAll]

theorem log_truthful (c : Call) (s : Session μ σ) : (a.log c s).Truthful a where
  replayed := by
    rw [log_before]
    cases c with
    | drive d =>
      rw [replayed_drive]
      rfl
    | replay records explicitSteps => exact play_runs records s
  judged t ht := (a.log_stepped c s t ht).judged

/-! ## Records in flight -/

theorem Made.deserted_iff {i : Instruction} {s s' : Session μ σ} {c : Course}
    {report : StepReport} (h : a.Made i s c report s') :
    (⟨s, report, s'⟩ : Turn μ σ).isDeserted ↔ c.ending.state = .attempted := by
  rw [Turn.isDeserted, h.report_eq]
  cases hc : c.ending with
  | refused | ran | deserted => simp [outcome, Course.trials, Ending.state]
  | exhausted failure =>
    rw [outcome]
    cases a.settings.onExhausted <;> simp [Ending.state]

/-- A step leaves a record in flight exactly when it deserts its instruction. -/
theorem Stepped.deserted_iff {s s' : Session μ σ} {report : StepReport}
    (h : a.Stepped s report s') :
    (⟨s, report, s'⟩ : Turn μ σ).isDeserted ↔
      ∃ d, (⟨s, report, s'⟩ : Turn μ σ).deed? = some d ∧ d.ending.state = .attempted := by
  cases h with
  | idle | unmade => simp [Turn.isDeserted, deed?_of_nil]
  | made _ h => simp [h.deserted_iff, h.deed?]

theorem log_deserted_iff (c : Call) (s : Session μ σ) :
    (a.log c s).isDeserted ↔ ∃ d ∈ (a.log c s).deeds, d.ending.state = .attempted := by
  have hs := a.log_stepped c s
  simp only [CallLog.deeds, List.mem_append, List.mem_map, List.mem_filterMap]
  constructor
  · rintro ⟨t, ht, hd⟩
    obtain ⟨d, hd, he⟩ := (hs t ht).deserted_iff.mp hd
    exact ⟨d, .inr ⟨t, ht, hd⟩, he⟩
  · rintro ⟨d, ⟨r, -, rfl⟩ | ⟨t, ht, hd⟩, he⟩
    · simp [Deed.ofReplayed, Ending.state] at he
    · exact ⟨t, ht, (hs t ht).deserted_iff.mpr ⟨d, hd, he⟩⟩

theorem logs_deserted_iff (calls : List Call) (s : Session μ σ) :
    (∃ l ∈ a.logs calls s, l.isDeserted) ↔
      ∃ d ∈ (a.logs calls s).flatMap (·.deeds), d.ending.state = .attempted := by
  constructor
  · rintro ⟨l, hl, hd⟩
    obtain ⟨c, -, s', rfl⟩ := a.mem_logs hl
    obtain ⟨d, hd, he⟩ := (log_deserted_iff c s').mp hd
    exact ⟨d, List.mem_flatMap.mpr ⟨_, hl, hd⟩, he⟩
  · rintro ⟨d, hd, he⟩
    obtain ⟨l, hl, hd⟩ := List.mem_flatMap.mp hd
    obtain ⟨c, -, s', rfl⟩ := a.mem_logs hl
    exact ⟨_, hl, (log_deserted_iff c s').mpr ⟨d, hd, he⟩⟩

/-! ## The document -/

theorem kept_eq_clean_iff (deeds : List Deed) :
    (deeds.filter (·.isKept)).map Deed.actionRecord =
        (deeds.filter (·.isClean)).map Deed.actionRecord ↔
      ¬ ∃ d ∈ deeds, d.ending.state = .attempted := by
  constructor
  · intro h
    -- What is clean is kept, so lists of one length are the same list.
    have sub : (deeds.filter (·.isClean)).Sublist (deeds.filter (·.isKept)) := by
      apply List.monotone_filter_right
      intro d
      cases he : d.ending.state <;> simp [Deed.isClean, Deed.isKept, he]
    have same : deeds.filter (·.isClean) = deeds.filter (·.isKept) :=
      sub.eq_of_length (by simpa using congrArg List.length h.symm)
    rintro ⟨d, hd, he⟩
    have kept : d ∈ deeds.filter (·.isKept) :=
      List.mem_filter.mpr ⟨hd, by simp [Deed.isKept, he]⟩
    rw [← same] at kept
    simp [Deed.isClean, he] at kept
  · intro h
    rw [List.filter_congr]
    intro d hd
    cases he : d.ending.state with
    | attempted => exact absurd ⟨d, hd, he⟩ h
    | confirmed | failed => simp [Deed.isClean, Deed.isKept, he]

/-- Whatever is called, also after an error: there is one record for every deed, and the document
holds the deeds that did not fail or were deserted. So it holds just what ran cleanly, and no
record is left in flight, exactly if no step has deserted its instruction. -/
theorem document_of_calls (calls : List Call) (queue : List Instruction) (model : μ)
    (browser : σ) :
    let start := Session.start queue model browser
    let logs := a.logs calls start
    let after := a.after calls start
    let deeds := logs.flatMap (·.deeds)
    (∀ l ∈ logs, l.Truthful a) ∧
    after.history.records = deeds.map Deed.record ∧
    after.document = .ofRecords ((deeds.filter (·.isKept)).map Deed.actionRecord) ∧
    (after.document = .ofRecords ((deeds.filter (·.isClean)).map Deed.actionRecord) ↔
      ¬ ∃ l ∈ logs, l.isDeserted) ∧
    ((∀ r ∈ after.history.records, r.state ≠ .attempted) ↔ ¬ ∃ l ∈ logs, l.isDeserted) := by
  intro start logs after deeds
  have history : after.history.records = deeds.map Deed.record := a.after_history calls start
  have document := a.document_eq calls queue model browser
  refine ⟨?_, history, document, ?_, ?_⟩
  · intro l hl
    obtain ⟨c, -, s, rfl⟩ := a.mem_logs hl
    exact log_truthful c s
  · rw [logs_deserted_iff, ← kept_eq_clean_iff]
    constructor
    · intro h
      exact Option.some.inj (congrArg Document.steps (document.symm.trans h))
    · intro h
      exact document.trans (congrArg Document.ofRecords h)
  · rw [logs_deserted_iff, history]
    simp only [List.forall_mem_map, Deed.record, not_exists, not_and, ne_eq, deeds, logs]

theorem report_deserted {s : Session μ σ} {i : Instruction} {rest : List Instruction}
    {m : ActionRecord} {w w' : Workbench μ} {left : Nat} {browser : σ} {failure : ActionFailure}
    {reason : String} (queue : s.skipBlank.queue = i :: rest)
    (made : a.synthesizer.synthesize i s.workbench = (.ok m, w))
    (more : a.settings.maxAttempts - 1 = left + 1)
    (passed : a.refusedToken? m.action = none)
    (failed : (a.surface.runWhole m.action).run s.browser = (.error failure, browser))
    (refused : a.synthesizer.synthesizeRetry ⟨i, m.action⟩ (a.diagnose failure)
      ⟨a.reveal s.browser browser w.model, w.cache⟩ = (.error reason, w')) :
    (a.report s).2.history = ⟨s.history.records ++ [⟨i, m.action, .attempted, 1⟩]⟩ := by
  rw [a.report_of_ok queue made, more,
    attempt_of_deserted rfl passed (execute_of_run browser (by exact failed)) refused]

/-- The model gives no action in place of the one that failed, and the document keeps that one. -/
theorem document_keeps_failed_action :
    let start : Session ScriptedModel Rehearsal :=
      .start [⟨"Click go"⟩] (.ofAnswers [.ok "click(go)", .error (.fatal "quota exceeded")]) .new
    let after := rehearsed.after [.drive .step] start
    (∃ failure, ((Rehearsal.surface.runWhole "click(go)").run start.browser).1 =
      .error failure) ∧
    after.history.records = [⟨⟨"Click go"⟩, "click(go)", .attempted, 1⟩] ∧
    after.document.stepRecords = [⟨⟨"Click go"⟩, "click(go)"⟩] := by
  intro start after
  let i : Instruction := ⟨"Click go"⟩
  let failure : ActionFailure := ⟨1, "click(go)", .notEvaluated (.undefined "go")⟩
  have queue : start.skipBlank.queue = [i] := by decide
  have stripped : Action.stripFences "click(go)" = "click(go)" := by decide
  have passed : rehearsed.refusedToken? "click(go)" = none := by decide
  obtain ⟨requests, first⟩ := rehearsed_synthesize i "click(go)" [.error (.fatal "quota exceeded")]
  obtain ⟨w, second⟩ := rehearsed_synthesizeRetry i "click(go)" (rehearsed.diagnose failure)
    "click(go)" "quota exceeded" [] requests
  rw [stripped] at first
  have history : after.history = ⟨[⟨i, "click(go)", .attempted, 1⟩]⟩ := by
    rw [show after = (rehearsed.report start).2 from rehearsed.after_step start]
    exact report_deserted queue first rfl passed (run_click start.browser) second
  refine ⟨⟨failure, by rw [run_click]⟩, by rw [history], ?_⟩
  rw [Session.document, history]
  rfl

end Agent

end BrowserAgent
