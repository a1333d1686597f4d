import BrowserAgent.Proofs.DiagnosticShape
import BrowserAgent.Proofs.Moves
import BrowserAgent.Proofs.Replaying

/-!
# Diagnostics that are shown

A diagnostic leaves a session in an error, in the outcome of a step or in the prompt of a retry. All
of them are cut for the agent, so none takes more bytes than its limit. A step asks with no other
prompts than that of a first attempt and those of retries, each with the diagnostic of a trial that
failed.
-/

namespace BrowserAgent

/-! ## Where diagnostics stand -/

def RunError.diagnostic? : RunError → Option String
  | .exhausted _ _ d | .replay _ d => some d
  | .synthesis _ | .unsafeAction .. => none

def StepOutcome.diagnostic? : StepOutcome → Option String
  | .surfaced _ d => some d
  | .idle | .advanced .. => none

def StepReport.diagnostic? (r : StepReport) : Option String :=
  match r.outcome with
  | .ok o => o.diagnostic?
  | .error e => e.diagnostic?

variable {μ σ : Type}

def CallLog.diagnostic? (l : CallLog μ σ) : Option String :=
  match l.answer with
  | .ok (.stepped o) => o.diagnostic?
  | .ok (.finished _) => none
  | .error e => e.diagnostic?

namespace Agent

/-- Without a diagnostic, or with one that keeps to the limit. -/
def InLimit (a : Agent μ σ) (diagnostic? : Option String) : Prop :=
  ∀ d ∈ diagnostic?, d.utf8ByteSize ≤ a.settings.diagnosticLimit

/-- The prompt is that of a retry after the trial, and its diagnostic keeps to the limit. -/
def RetriesAfter (a : Agent μ σ) (i : Instruction) (t : Trial) (prompt : String) : Prop :=
  ∃ failure, t.verdict = .failed failure ∧
    prompt = Prompt.retry i t.action (a.diagnose failure) ∧
    (a.diagnose failure).utf8ByteSize ≤ a.settings.diagnosticLimit

def AsksWith (a : Agent μ σ) (i : Instruction) (first : String) (trials : List Trial)
    (prompt : String) : Prop :=
  prompt = first ∨ ∃ t ∈ trials, a.RetriesAfter i t prompt

/-- The prompt is one for the instruction that the step takes: that of the first attempt, or of a
retry after one of its trials. -/
def StepAsks {κ ω : Type} (a : Agent μ σ) (t : Turn κ ω) (prompt : String) : Prop :=
  ∃ i, t.before.next? = some i ∧ a.AsksWith i (Prompt.action i) t.report.trials prompt

section

variable {a : Agent μ σ} {s s' : Session μ σ} {i : Instruction}

theorem inLimit_none : a.InLimit none := nofun

theorem inLimit_diagnose (failure : ActionFailure) : a.InLimit (some (a.diagnose failure)) := by
  intro d hd
  rw [← Option.some.inj hd, diagnose, Diagnostic.ofFailure, Diagnostic.ofReason]
  exact (Text.isCut_cutBytes _ _).fits

/-! ## Outcomes and answers -/

theorem Stepped.inLimit {report : StepReport} (h : a.Stepped s report s') :
    a.InLimit report.diagnostic? := by
  cases h with
  | idle | unmade => exact inLimit_none
  | @made i m w c _ _ _ h =>
    rw [h.report_eq, StepReport.diagnostic?]
    cases c.ending with
    | refused | ran | deserted => exact inLimit_none
    | exhausted failure =>
      rw [outcome]
      cases a.settings.onExhausted <;> exact inLimit_diagnose failure

theorem error_inLimit {t : Turn μ σ} {e : RunError} (h : a.Stepped t.before t.report t.after)
    (he : t.answer = .error e) : a.InLimit e.diagnostic? := by
  have limit := h.inLimit
  rw [StepReport.diagnostic?] at limit
  rw [Turn.answer] at he
  cases ho : t.report.outcome with
  | ok =>
    rw [ho] at he
    cases he
  | error =>
    rw [ho] at he limit
    cases he
    exact limit

theorem run_inLimit {e : RunError} (h : (a.run s).1 = .error e) : a.InLimit e.diagnostic? := by
  obtain ⟨turns, last, -, -, -, -, hrun⟩ := a.run_ends s
  rw [hrun] at h
  exact error_inLimit (a.turn_stepped last) h

theorem replay_inLimit {records : List ActionRecord} {explicitSteps : Bool} {e : RunError}
    (h : (a.replay records explicitSteps s).1 = .error e) : a.InLimit e.diagnostic? := by
  rw [replay, replayFrom_eq] at h
  cases hstop : (a.play records s).stopped with
  | none =>
    simp only [hstop] at h
    cases h
  | some stopped =>
    obtain ⟨failure, rest⟩ := stopped
    simp only [hstop] at h
    split at h
    · exact run_inLimit h
    · cases h
      exact inLimit_diagnose failure

theorem log_inLimit (a : Agent μ σ) (c : Call) (s : Session μ σ) :
    a.InLimit (a.log c s).diagnostic? := by
  have finished : ∀ result : Except RunError RunSummary,
      (∀ e, result = .error e → a.InLimit e.diagnostic?) →
        ∀ l : CallLog μ σ, l.answer = result.map .finished → a.InLimit l.diagnostic? := by
    intro result limit l heq
    rw [CallLog.diagnostic?, heq]
    cases result with
    | ok => exact inLimit_none
    | error e => exact limit e rfl
  match c with
  | .drive .step =>
    have limit := (a.turn_stepped s).inLimit
    rw [StepReport.diagnostic?] at limit
    rw [log, step_eq, CallLog.diagnostic?]
    cases ho : (a.turn s).report.outcome with
    | ok => rwa [ho] at limit
    | error => rwa [ho] at limit
  | .drive .run => exact finished _ (fun _ => run_inLimit) _ rfl
  | .replay records explicitSteps => exact finished _ (fun _ => replay_inLimit) _ rfl

end

end Agent

/-! ## Prompts -/

theorem Synthesizer.exchanged {s : Synthesizer μ} {w w' : Workbench (μ × List Exchange)}
    {prompt : String} {result : Except String String}
    (h : s.watched.complete prompt w = (result, w')) :
    ∀ e ∈ w'.model.2, e ∈ w.model.2 ∨ e.prompt = prompt := by
  intro e he
  obtain ⟨reuse, completion, hfound⟩ | missed := s.found_or_missed prompt w.cache
  · rw [s.watched.complete_of_found reuse hfound] at h
    cases h
    exact .inl he
  · obtain ⟨repeats, last, hask, hrepeats, rfl⟩ := s.model.ask_watched (s.request prompt) w.model
    rw [s.watched.complete_of_missed missed, s.watched_model, s.watched_request, hask] at h
    cases h
    simp only [List.mem_append, List.mem_singleton] at he
    obtain he | he | rfl := he
    · exact .inl he
    · exact .inr (congrArg CompletionRequest.prompt (hrepeats e he).1)
    · exact .inr rfl

namespace Agent

section

variable {a : Agent μ σ} {s s₁ s' : Session (μ × List Exchange) (σ × List Command)}
  {i : Instruction} {index left made : Nat} {past : List AttemptRecord} {prompt action : String}
  {report : StepReport} {failure : ActionFailure}

/-- The prompts of the trials and of the requests sent on the way. -/
structure Prompted (a : Agent μ σ) (i : Instruction) (first : String)
    (s : Session (μ × List Exchange) (σ × List Command)) (report : StepReport)
    (s' : Session (μ × List Exchange) (σ × List Command)) : Prop where
  trials : ∀ t ∈ report.trials, a.AsksWith i first report.trials t.prompt
  exchanges : ∀ e ∈ s'.workbench.model.2,
    e ∈ s.workbench.model.2 ∨ ∃ t ∈ report.trials, a.RetriesAfter i t e.prompt

theorem retriesAfter_failed (i : Instruction) (prompt action : String) (failure : ActionFailure) :
    a.RetriesAfter i ⟨prompt, action, .failed failure⟩
      (Prompt.retry i action (a.diagnose failure)) :=
  ⟨failure, rfl, rfl, inLimit_diagnose failure _ rfl⟩

theorem prompted_silent (hr : report.trials = [])
    (quiet : s'.workbench.model.2 = s.workbench.model.2) : a.Prompted i prompt s report s' where
  trials := by simp [hr]
  exchanges := fun _ he => .inl (quiet ▸ he)

theorem prompted_once {t : Trial} (ht : t.prompt = prompt) (hr : report.trials = [t])
    (quiet : s'.workbench.model.2 = s.workbench.model.2) : a.Prompted i prompt s report s' where
  trials := by
    rw [hr]
    exact List.forall_mem_singleton.mpr (.inl ht)
  exchanges := fun _ he => .inl (quiet ▸ he)

theorem Prompted.cons {s₂ : Session (μ × List Exchange) (σ × List Command)}
    (later : a.Prompted i (Prompt.retry i action (a.diagnose failure)) s₂ report s')
    (asked : ∀ e ∈ s₂.workbench.model.2, e ∈ s.workbench.model.2 ∨
      e.prompt = Prompt.retry i action (a.diagnose failure)) :
    a.Prompted i prompt s
      ⟨⟨prompt, action, .failed failure⟩ :: report.trials, report.outcome⟩ s' where
  trials := by
    refine List.forall_mem_cons.mpr ⟨.inl rfl, fun t ht => .inr ?_⟩
    -- What was the first prompt of the later trials is that of the retry after the failure.
    rcases later.trials t ht with heq | ⟨earlier, hmem, hretry⟩
    · exact ⟨_, List.mem_cons_self, heq ▸ retriesAfter_failed i prompt action failure⟩
    · exact ⟨earlier, List.mem_cons_of_mem _ hmem, hretry⟩
  exchanges := by
    intro e he
    rcases later.exchanges e he with he | ⟨t, hmem, hretry⟩
    · refine (asked e he).imp_right fun heq => ?_
      exact ⟨_, List.mem_cons_self, heq ▸ retriesAfter_failed i prompt action failure⟩
    · exact .inr ⟨t, List.mem_cons_of_mem _ hmem, hretry⟩

theorem execute_quiet {result : Except ActionFailure Unit}
    (hx : a.watched.execute action s = (result, s₁)) :
    s₁.workbench.model.2 = s.workbench.model.2 := by
  obtain rfl : s₁ = (a.watched.execute action s).2 := by rw [hx]
  rfl

/-- Every retry follows the trial that failed before it. -/
theorem Tries.prompted (h : a.watched.Tries i index past left made prompt action s report s') :
    a.Prompted i prompt s report s' := by
  induction h with
  | refused => exact prompted_once rfl rfl rfl
  | ran _ hx | exhausted _ hx | surfaced _ hx =>
    have quiet := execute_quiet hx
    exact prompted_once rfl rfl quiet
  | @deserted _ made _ action reason failure _ s₁ w _ hx asked =>
    -- After the failure comes the request that got nothing, and no trial.
    have silent : a.Prompted i (Prompt.retry i action (a.diagnose failure))
        { s₁ with workbench := w } ⟨[], .error (.synthesis reason)⟩
        { s₁ with
          history := ⟨past ++ [⟨i, action, .attempted, made⟩]⟩
          workbench := w
          phase := .fatal } := prompted_silent rfl rfl
    refine silent.cons ?_
    rw [← execute_quiet hx]
    exact Synthesizer.exchanged asked
  | again _ hx asked _ ih =>
    refine ih.cons ?_
    rw [← execute_quiet hx]
    exact Synthesizer.exchanged asked

end

variable (a : Agent μ σ)

theorem report_asks (s : Session (μ × List Exchange) (σ × List Command)) :
    (∀ t ∈ (a.watched.report s).1.trials, a.StepAsks (a.watched.turn s) t.prompt) ∧
      ∀ e ∈ (a.watched.report s).2.workbench.model.2,
        e ∈ s.workbench.model.2 ∨ a.StepAsks (a.watched.turn s) e.prompt := by
  cases hi : s.next? with
  | none =>
    have idle := a.watched.report_of_nil (List.head?_eq_none_iff.mp hi)
    rw [idle]
    exact ⟨by simp, fun e he => .inl he⟩
  | some i =>
    obtain ⟨rest, hq⟩ : ∃ rest, s.skipBlank.queue = i :: rest := by
      obtain ⟨rest, hq⟩ := List.head?_eq_some_iff.mp hi
      exact ⟨rest, hq⟩
    have taken : (a.watched.turn s).before.next? = some i := hi
    obtain ⟨result, w, hc⟩ : ∃ result w,
      a.watched.synthesizer.complete (Prompt.action i) s.workbench = (result, w) := ⟨_, _, rfl⟩
    have asked := Synthesizer.exchanged hc
    have hm := Synthesizer.synthesize_of_complete hc
    cases result with
    | error reason =>
      rw [a.watched.report_of_error hq hm]
      refine ⟨by simp, fun e he => (asked e he).imp_right fun heq => ⟨i, taken, .inl heq⟩⟩
    | ok action =>
      have tries := a.watched.attempt_tries s.dispatched (a.watched.settings.maxAttempts - 1) 1
        (Prompt.action i) action
        { s.skipBlank with
          queue := rest, dispatched := s.dispatched + 1, workbench := w,
          history := ⟨s.history.records ++ [⟨i, action, .attempted, 1⟩]⟩ } rfl
      -- The first prompt is that of the instruction; the attempts tell of all others.
      have prompted := tries.prompted
      rw [← a.watched.report_of_ok hq hm] at prompted
      refine ⟨fun t ht => ⟨i, taken, prompted.trials t ht⟩, fun e he => ?_⟩
      rcases prompted.exchanges e he with he | hretry
      · exact (asked e he).imp_right fun heq => ⟨i, taken, .inl heq⟩
      · exact .inr ⟨i, taken, .inr hretry⟩

/-! ## Calls -/

theorem Chain.exchanged {s s' : Session (μ × List Exchange) (σ × List Command)}
    {turns : List (Turn (μ × List Exchange) (σ × List Command))} (h : a.watched.Chain s turns s') :
    ∀ e ∈ s'.workbench.model.2,
      e ∈ s.workbench.model.2 ∨ ∃ t ∈ turns, a.StepAsks t e.prompt := by
  induction h with
  | nil => exact fun e he => .inl he
  | @cons s s' turns _ ih =>
    intro e he
    rcases ih e he with he | ⟨t, ht, asks⟩
    · exact ((a.report_asks s).2 e he).imp_right fun asks => ⟨_, List.mem_cons_self, asks⟩
    · exact .inr ⟨t, List.mem_cons_of_mem _ ht, asks⟩

theorem log_exchanged (c : Call) (s : Session (μ × List Exchange) (σ × List Command)) :
    ∀ e ∈ (a.watched.log c s).after.workbench.model.2,
      e ∈ s.workbench.model.2 ∨ ∃ t ∈ (a.watched.log c s).turns, a.StepAsks t e.prompt := by
  cases c with
  | drive d => exact Chain.exchanged a (a.watched.log_chain d s)
  | replay records explicitSteps =>
    have quiet := a.exchanges_play records s
    simp only [log, replay, replayFrom_eq, replayTurns]
    cases hstop : (a.watched.play records s).stopped with
    | none => exact fun e he => .inl (quiet ▸ he)
    | some stopped =>
      obtain ⟨failure, rest⟩ := stopped
      simp only
      split
      · have stepping := Chain.exchanged a (a.watched.run_chain
          { (a.watched.play records s).session with queue := rest.map (·.instruction) })
        simp only [quiet] at stepping
        exact stepping
      · exact fun e he => .inl (quiet ▸ he)

theorem after_exchanged (calls : List Call) (s : Session (μ × List Exchange) (σ × List Command)) :
    ∀ e ∈ (a.watched.after calls s).workbench.model.2, e ∈ s.workbench.model.2 ∨
      ∃ l ∈ a.watched.logs calls s, ∃ t ∈ l.turns, a.StepAsks t e.prompt := by
  induction calls generalizing s with
  | nil => exact fun e he => .inl he
  | cons c calls ih =>
    intro e he
    rcases ih _ e he with he | ⟨l, hl, asks⟩
    · refine (a.log_exchanged c s e he).imp_right fun asks => ?_
      exact ⟨_, List.mem_cons_self, asks⟩
    · exact .inr ⟨l, List.mem_cons_of_mem _ hl, asks⟩

theorem exchanges_asked (calls : List Call) (s : Session μ σ) :
    ∀ e ∈ a.exchanges calls s, ∃ l ∈ a.logs calls s, ∃ t ∈ l.turns, a.StepAsks t e.prompt := by
  intro e he
  rcases a.after_exchanged calls s.watched e he with he | ⟨l, hl, t, ht, asks⟩
  · cases he
  · rw [← (a.logs_watched calls s).1]
    exact ⟨_, List.mem_map_of_mem hl, _, List.mem_map_of_mem ht, asks⟩

theorem turn_asks (s : Session μ σ) :
    ∀ t ∈ (a.turn s).report.trials, a.StepAsks (a.turn s) t.prompt := by
  intro t ht
  rw [turn, ← a.report_watched s] at ht ⊢
  exact (a.report_asks s.watched).1 t ht

/-- A diagnostic is the longest start within the limit of a text of the line that failed and, each
on a line of its own, the first lines of the reason that are not blank, in plain form. Cut or not,
it has no empty line if the source is one line. Whatever is called, the diagnostics in errors and
in outcomes keep to the limit of the agent, and so do those in the prompts of retries, which tell of
a trial that failed in the same step. -/
theorem diagnostics_in_limit :
    (∀ (line : Nat) (source hostName reason : String) (limit : Nat),
      let diagnostic := Diagnostic.ofReason line source hostName reason limit
      let header := "Failed on line " ++ toString line ++ ": " ++ source
      let messages := Diagnostic.reasonLines hostName reason
      Text.IsCut limit (Text.unlines (header :: messages)) diagnostic ∧
        messages.length = min 6 ((Text.lines (Diagnostic.plainReason hostName reason)).countP
          fun line => !Text.isBlankText line) ∧
        (∀ line ∈ messages, Diagnostic.IsPlainLine line) ∧
        ('\n' ∉ source.toList → "" ∉ Text.lines diagnostic)) ∧
    ∀ (μ σ : Type) (a : Agent μ σ) (calls : List Call) (s : Session μ σ),
      (∀ l ∈ a.logs calls s, a.InLimit l.diagnostic? ∧ ∀ t ∈ l.turns,
        a.InLimit t.report.diagnostic? ∧ ∀ trial ∈ t.report.trials, a.StepAsks t trial.prompt) ∧
      ∀ e ∈ a.exchanges calls s, ∃ l ∈ a.logs calls s, ∃ t ∈ l.turns, a.StepAsks t e.prompt := by
  refine ⟨fun line source hostName reason limit => ⟨?_, ?_, ?_, ?_⟩,
    fun μ σ a calls s => ⟨fun l hl => ?_, a.exchanges_asked calls s⟩⟩
  · exact Text.isCut_cutBytes limit _
  · exact Diagnostic.length_reasonLines hostName reason
  · exact fun message => Diagnostic.isPlainLine_of_mem
  · exact fun hs => Diagnostic.filled_ofReason line hs hostName reason limit
  · obtain ⟨c, -, s', rfl⟩ := a.mem_logs hl
    refine ⟨a.log_inLimit c s', fun t ht => ⟨(a.log_stepped c s' t ht).inLimit, ?_⟩⟩
    rw [a.log_eq_turn c s' t ht]
    exact a.turn_asks t.before

/-- The cut would fall within a character. -/
theorem diagnostics_in_limit_of_accent :
    let reason := "refused:\x1b[31m  FakeBrowser \té .\r\n \n é"
    let shown := "Failed on line 2: click(box)\nrefused: env "
    '\n' ∉ "click(box)".toList ∧
      Diagnostic.ofReason 2 "click(box)" "FakeBrowser" reason 43 = shown ∧
      Text.IsCut 43 (Text.unlines ["Failed on line 2: click(box)", "refused: env é .", "é"]) shown ∧
      "" ∉ Text.lines shown := by
  intro reason shown
  have single : '\n' ∉ "click(box)".toList := by decide
  have cut : Diagnostic.ofReason 2 "click(box)" "FakeBrowser" reason 43 = shown := by
    decide +kernel
  have messages : Diagnostic.reasonLines "FakeBrowser" reason = ["refused: env é .", "é"] := by
    decide +kernel
  obtain ⟨longest, -, -, filled⟩ :=
    diagnostics_in_limit.1 2 "click(box)" "FakeBrowser" reason 43
  rw [cut] at longest filled
  rw [messages] at longest
  exact ⟨single, cut, longest, filled single⟩

end Agent

end BrowserAgent
