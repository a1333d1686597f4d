import BrowserAgent.Proofs.Calls

/-!
# Deeds

A deed is the last action for an instruction and how the work on it ended. The deeds of the calls
so far say all that the history says: there is one record for every deed, in the same order.
-/

namespace BrowserAgent

structure Deed where
  instruction : Instruction
  action : String
  /-- How many actions were tried. -/
  attempts : Nat
  ending : Ending

namespace Deed

def ofReplayed (r : ActionRecord) : Deed := ⟨r.instruction, r.action, 1, .ran⟩

def record (d : Deed) : AttemptRecord := ⟨d.instruction, d.action, d.ending.state, d.attempts⟩

def actionRecord (d : Deed) : ActionRecord := ⟨d.instruction, d.action⟩

def isKept (d : Deed) : Bool := d.ending.state != .failed

end Deed

/-- How the work on the instruction of a step ended, as its report tells. -/
def StepReport.ending? (report : StepReport) : Option Ending :=
  report.trials.getLast?.map fun last =>
    match last.verdict, report.outcome with
    | .refused token, _ => .refused token
    | .ran, _ => .ran
    | .failed failure, .error (.synthesis reason) => .deserted failure reason
    | .failed failure, _ => .exhausted failure

/-- The deed of a step, if its instruction got an action. -/
def Turn.deed? {μ σ : Type} (t : Turn μ σ) : Option Deed := do
  let instruction ← t.before.next?
  let last ← t.report.trials.getLast?
  let ending ← t.report.ending?
  return ⟨instruction, last.action, t.report.trials.length, ending⟩

def CallLog.deeds {μ σ : Type} (log : CallLog μ σ) : List Deed :=
  log.replayed.map .ofReplayed ++ log.turns.filterMap Turn.deed?

namespace Agent

variable {μ σ : Type} {a : Agent μ σ}

theorem Made.ending? {i : Instruction} {s s' : Session μ σ} {c : Course} {report : StepReport}
    (h : a.Made i s c report s') : report.ending? = some c.ending := by
  rw [h.report_eq]
  cases hc : c.ending with
  | refused | ran | deserted =>
    simp [StepReport.ending?, Course.trials, outcome, hc]
  | exhausted failure =>
    cases hp : a.settings.onExhausted <;>
      simp [StepReport.ending?, Course.trials, outcome, hc, hp]

theorem Made.deed? {i : Instruction} {s s' : Session μ σ} {c : Course} {report : StepReport}
    (h : a.Made i s c report s') :
    (⟨s, report, s'⟩ : Turn μ σ).deed? = some ⟨i, c.action, c.trials.length, c.ending⟩ := by
  simp only [Turn.deed?, Session.next?_of_cons h.queue, h.ending?]
  simp [h.report_eq, Course.trials]

theorem deed?_of_nil {s s' : Session μ σ} {report : StepReport} (h : report.trials = []) :
    (⟨s, report, s'⟩ : Turn μ σ).deed? = none := by
  cases hn : s.next? <;> simp [Turn.deed?, hn, h]

/-! ## One record for every deed -/

theorem Stepped.history {s s' : Session μ σ} {report : StepReport} (h : a.Stepped s report s') :
    s'.history.records = s.history.records ++
      ((⟨s, report, s'⟩ : Turn μ σ).deed?.map Deed.record).toList := by
  cases h with
  | idle | unmade =>
    rw [deed?_of_nil rfl]
    exact (List.append_nil _).symm
  | made _ h => simp [h.deed?, h.history, Deed.record]

theorem Chain.history {s s' : Session μ σ} {turns : List (Turn μ σ)} (h : a.Chain s turns s') :
    s'.history.records =
      s.history.records ++ (turns.filterMap Turn.deed?).map Deed.record := by
  induction h with
  | nil => simp
  | @cons s s' turns _ ih =>
    have hs : (a.turn s).after.history.records =
        s.history.records ++ ((a.turn s).deed?.map Deed.record).toList :=
      (a.turn_stepped s).history
    rw [ih, hs, List.append_assoc, List.append_cancel_left_eq]
    cases hd : (a.turn s).deed? with
    | none => simp [List.filterMap_cons_none hd]
    | some d => simp [List.filterMap_cons_some hd]

variable (a)

theorem play_history (records : List ActionRecord) (s : Session μ σ) :
    (a.play records s).session.history.records = s.history.records ++
      ((a.play records s).ran.map Deed.ofReplayed).map Deed.record := by
  induction records generalizing s with
  | nil => simp [play]
  | cons r more ih =>
    obtain ⟨result, s₁, hx⟩ : ∃ result s₁, a.execute r.action s = (result, s₁) := ⟨_, _, rfl⟩
    have hh := (execute_frame hx).1
    cases result with
    | ok =>
      simp only [play, hx, ih, Session.addReplayed, hh, History.start_eq,
        History.confirmCurrent_append]
      simp [Deed.record, Deed.ofReplayed, Ending.state]
    | error failure => simp [play, hx, hh]

theorem log_history (c : Call) (s : Session μ σ) :
    (a.log c s).after.history.records =
      s.history.records ++ (a.log c s).deeds.map Deed.record := by
  cases c with
  | drive d =>
    rw [CallLog.deeds, replayed_drive]
    exact (a.log_chain d s).history
  | replay records explicitSteps =>
    obtain ⟨s₁, hs, hc⟩ := a.replay_chain records explicitSteps s
    have := hc.history
    rw [hs, play_history, List.append_assoc, ← List.map_append] at this
    exact this

/-- The history is what it was before the calls, with one record for every deed of them. -/
theorem after_history (calls : List Call) (s : Session μ σ) :
    (a.after calls s).history.records =
      s.history.records ++ ((a.logs calls s).flatMap (·.deeds)).map Deed.record := by
  induction calls generalizing s with
  | nil => simp [after, logs]
  | cons c calls ih =>
    rw [after, logs, ih, log_history, List.flatMap_cons, List.map_append, List.append_assoc]

/-- The document of a session is that of the deeds that are kept. -/
theorem document_eq (calls : List Call) (queue : List Instruction) (model : μ) (browser : σ) :
    (a.after calls (.start queue model browser)).document =
      .ofRecords ((((a.logs calls (.start queue model browser)).flatMap (·.deeds)).filter
        (·.isKept)).map Deed.actionRecord) := by
  have h := a.after_history calls (.start queue model browser)
  rw [Session.document, Document.ofHistory, History.finished, h, Session.start, History.empty,
    List.nil_append, List.filter_map, List.map_map]
  rfl

end Agent

end BrowserAgent
