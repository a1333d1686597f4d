import BrowserAgent.Proofs.Rehearsed
import BrowserAgent.Proofs.Replaying

/-!
# Clean runs

Where every step advances with its first action, the document of the run holds just those actions.
Replayed from the same surface they do there what they did in the run, and the model is not needed.
-/

namespace BrowserAgent

variable {μ ν σ : Type}

/-- The step found nothing to do, or advanced with its first action. -/
def StepReport.IsClean (report : StepReport) : Prop :=
  report.outcome = .ok .idle ∨ ∃ index, report.outcome = .ok (.advanced index 1)

namespace Agent

variable {a : Agent μ σ} {s s' : Session μ σ} {report : StepReport} {turns : List (Turn μ σ)}

/-- The actions of the records ran one after the other and left these records. -/
structure Recorded (a : Agent μ σ) (records : List ActionRecord) (s s' : Session μ σ) : Prop where
  unfailing : a.surface.firstFailure? (records.map (·.action)) s.browser = none
  browser : s'.browser = a.surface.afterActions (records.map (·.action)) s.browser
  history : s'.history.records = s.history.records ++ records.map (·.confirmed)
  advanced : s'.tally.advanced = s.tally.advanced + records.length

/-! ## Steps -/

theorem Recorded.append {records more : List ActionRecord} {s₁ : Session μ σ}
    (h : a.Recorded records s s₁) (h' : a.Recorded more s₁ s') :
    a.Recorded (records ++ more) s s' where
  unfailing := by
    rw [List.map_append, Surface.firstFailure?_append_eq_none, ← h.browser]
    exact ⟨h.unfailing, h'.unfailing⟩
  browser := by rw [h'.browser, h.browser, List.map_append, Surface.afterActions_append]
  history := by rw [h'.history, h.history, List.map_append, List.append_assoc]
  advanced := by rw [h'.advanced, h.advanced, List.length_append, Nat.add_assoc]

theorem Stepped.recorded_of_clean (h : a.Stepped s report s') (clean : report.IsClean) :
    (report.outcome = .ok .idle ∧ a.Recorded [] s s') ∨ ∃ r, a.Recorded [r] s s' := by
  cases h with
  | idle hq => exact .inl ⟨rfl, rfl, rfl, (List.append_nil _).symm, rfl⟩
  | unmade => simp [StepReport.IsClean] at clean
  | @made i m w c _ _ hm h =>
    obtain ⟨index, ho⟩ : ∃ index, report.outcome = .ok (.advanced index 1) := by
      refine clean.resolve_left fun ho => ?_
      rw [h.report_eq] at ho
      exact outcome_ne_idle _ _ _ _ _ ho
    obtain ⟨hending, hlength⟩ := ran_of_outcome ((congrArg _ h.report_eq).symm.trans ho)
    obtain ⟨failures, prompt, action, ending⟩ := c
    obtain rfl : ending = .ran := hending
    obtain rfl : failures = [] := by simpa [Course.trials] using hlength
    obtain ⟨judged, after⟩ := judged_cons.mp h.judged
    have ran := run_of_judge judged
    have hbrowser : s'.browser = (a.judge action s.browser).2 := by
      simp only [Judged, List.map_nil, judgeAll, Prod.mk.injEq] at after
      exact after.2.symm
    refine .inr ⟨⟨i, action⟩, ?_, ?_, ?_, ?_⟩
    · simp [Surface.firstFailure?, ran]
    · simp [Surface.afterActions, ran, hbrowser]
    · rw [h.history]
      rfl
    · rw [h.tally, ho]
      rfl

theorem Chain.recorded_of_clean (h : a.Chain s turns s') (clean : ∀ t ∈ turns, t.report.IsClean) :
    ∃ records, a.Recorded records s s' ∧
      (records = [] → ∀ t ∈ turns, t.report.outcome = .ok .idle) := by
  induction h with
  | nil => exact ⟨[], ⟨rfl, rfl, (List.append_nil _).symm, rfl⟩, by simp⟩
  | @cons s _ turns _ ih =>
    obtain ⟨first, clean⟩ := List.forall_mem_cons.mp clean
    obtain ⟨records, later, hidle⟩ := ih clean
    obtain ⟨idle, none⟩ | ⟨r, one⟩ := (a.turn_stepped s).recorded_of_clean first
    · exact ⟨records, none.append later, fun h => List.forall_mem_cons.mpr ⟨idle, hidle h⟩⟩
    · exact ⟨r :: records, one.append later, by simp⟩

/-- A watched session records the same as one that is not. -/
theorem Recorded.unwatched {records : List ActionRecord}
    {s s' : Session (μ × List Exchange) (σ × List Command)} (h : a.watched.Recorded records s s') :
    a.Recorded records s.unwatched s'.unwatched where
  unfailing := (Surface.firstFailure?_alike a.surface.watched_alike _ rfl).symm.trans h.unfailing
  browser := by
    have alike := Surface.afterActions_alike a.surface.watched_alike (records.map (·.action))
      (b := s.browser) rfl
    exact (congrArg Prod.fst h.browser).trans alike
  history := h.history
  advanced := h.advanced

/-! ## The document -/

theorem document_of_confirmed {records : List ActionRecord}
    (history : s.history.records = records.map (·.confirmed)) :
    s.document = .ofRecords records := by
  have kept : (records.map (·.confirmed)).filter (fun r => r.state != .failed) =
      records.map (·.confirmed) := by
    refine List.filter_eq_self.mpr fun r hr => ?_
    obtain ⟨_, _, rfl⟩ := List.mem_map.mp hr
    rfl
  rw [Session.document, Document.ofHistory, History.finished, history, kept, List.map_map]
  exact congrArg Document.ofRecords (List.map_id _)

theorem plan_ofRecords {records : List ActionRecord} (h : records ≠ []) :
    (Document.ofRecords records).plan true = .ok (.replay records true) := by
  obtain ⟨r, more, rfl⟩ := List.exists_cons_of_ne_nil h
  rfl

/-- Of a run in which every step advanced with its first action, by whatever steps and runs: its
document is planned to be replayed. A new agent that replays it from where the surface was at first
gives the surface the same commands, asks its model nothing, succeeds, and has the same document. -/
theorem clean_run_reproduced {queue : List Instruction} {drives : List Drive} {model : μ}
    {browser : σ} (filled : queue ≠ []) (spoken : ∀ i ∈ queue, i.isBlank = false)
    (driven : drives ≠ [])
    (clean : ∀ l ∈ a.logs (drives.map .drive) (.start queue model browser),
      ∀ t ∈ l.turns, t.report.IsClean)
    (b : Agent ν σ) (same : b.surface = a.surface) (queue' : List Instruction) (model' : ν) :
    let calls := drives.map Call.drive
    let s := Session.start queue model browser
    let t := Session.start queue' model' browser
    ∃ records, (a.after calls s).document.plan true = .ok (.replay records true) ∧
      let replay := [Call.replay records true]
      (b.replay records true t).1 = .ok (b.after replay t).summary ∧
      b.commands replay t = a.commands calls s ∧
      b.exchanges replay t = [] ∧
      (b.after replay t).browser = (a.after calls s).browser ∧
      (b.after replay t).tally.replayed = (a.after calls s).tally.advanced ∧
      (b.after replay t).document = (a.after calls s).document := by
  intro calls s t
  have reports : ∀ report ∈ ((a.watched.logs calls s.watched).flatMap (·.turns)).map (·.report),
      report.IsClean := by
    rw [a.reports_watched]
    intro report hr
    obtain ⟨t, ht, rfl⟩ := List.mem_map.mp hr
    obtain ⟨l, hl, ht⟩ := List.mem_flatMap.mp ht
    exact clean l hl t ht
  obtain ⟨records, recorded, idle⟩ :=
    (a.watched.drives_chain drives s.watched).recorded_of_clean
      fun t ht => reports _ (List.mem_map_of_mem ht)
  have unwatched : a.Recorded records s (a.after calls s) := by
    rw [← (a.logs_watched calls s).2]
    exact recorded.unwatched
  have some : records ≠ [] := by
    -- The first step finds an instruction, so it left a record.
    intro none
    obtain ⟨d, more, rfl⟩ := List.exists_cons_of_ne_nil driven
    obtain ⟨i, rest, rfl⟩ := List.exists_cons_of_ne_nil filled
    have first := idle none _
      (List.mem_flatMap.mpr ⟨_, List.mem_cons_self, a.watched.turn_mem_log d s.watched⟩)
    have next := (a.watched.turn_stepped s.watched).idle_iff.mp first
    have queued : s.watched.skipBlank.queue = i :: rest :=
      List.dropWhile_cons_of_neg (by simp [spoken i])
    rw [Session.next?_of_cons queued] at next
    cases next
  have document : (a.after calls s).document = .ofRecords records :=
    document_of_confirmed unwatched.history
  refine ⟨records, by rw [document, plan_ofRecords some], ?_⟩
  intro replay
  have unfailing : b.surface.firstFailure? (records.map (·.action)) t.browser = none := by
    rw [same]
    exact unwatched.unfailing
  obtain ⟨m, replayed⟩ := b.replay_of_unfailing unfailing true
  have after : b.after replay t = { t.replayed records m
      (b.surface.afterActions (records.map (·.action)) t.browser) with phase := .idle } :=
    congrArg Prod.snd replayed
  refine ⟨?_, ?_, b.exchanges_replay records true t (.inl unfailing), ?_, ?_, ?_⟩
  · rw [after, replayed]
  · rw [b.commands_replay unfailing, same]
    exact congrArg Prod.snd recorded.browser.symm
  · rw [after, same]
    exact unwatched.browser.symm
  · rw [after, unwatched.advanced]
    rfl
  · rw [document]
    exact document_of_confirmed (after ▸ rfl)

theorem report_advanced {i : Instruction} {rest : List Instruction} {m : ActionRecord}
    {w : Workbench μ} {browser : σ} (queue : s.skipBlank.queue = i :: rest)
    (made : a.synthesizer.synthesize i s.workbench = (.ok m, w))
    (passed : a.refusedToken? m.action = none)
    (ran : (a.surface.runWhole m.action).run s.browser = (.ok (), browser)) :
    (a.report s).1 = ⟨[⟨Prompt.action i, m.action, .ran⟩], .ok (.advanced s.dispatched 1)⟩ := by
  rw [a.report_of_ok queue made, attempt_of_ran rfl passed (execute_of_run browser (by exact ran))]

/-- One step whose action reads the page. -/
theorem rehearsed_run_reproduced :
    let start : Session ScriptedModel Rehearsal :=
      .start [⟨"Read the page"⟩] (.ofAnswers [.ok "page_text()"]) .new
    (∀ l ∈ rehearsed.logs [.drive .step] start, ∀ t ∈ l.turns, t.report.IsClean) ∧
    ∃ records, (rehearsed.after [.drive .step] start).document.plan true =
        .ok (.replay records true) ∧
      rehearsed.commands [.replay records true] (.start [] (.ofAnswers []) .new) =
        rehearsed.commands [.drive .step] start := by
  intro start
  let i : Instruction := ⟨"Read the page"⟩
  have queue : start.skipBlank.queue = [i] := by decide
  have stripped : Action.stripFences "page_text()" = "page_text()" := by decide
  have passed : rehearsed.refusedToken? "page_text()" = none := by decide
  obtain ⟨requests, made⟩ := rehearsed_synthesize i "page_text()" []
  rw [stripped] at made
  have report := report_advanced queue made passed (run_pageText rfl)
  have clean : ∀ l ∈ rehearsed.logs [.drive .step] start, ∀ t ∈ l.turns, t.report.IsClean := by
    intro l hl t ht
    obtain rfl := List.mem_singleton.mp hl
    obtain rfl := List.mem_singleton.mp ht
    exact .inr ⟨0, congrArg StepReport.outcome report⟩
  have driven : [Drive.step] ≠ [] := List.cons_ne_nil _ _
  obtain ⟨records, plan, -, commands, -⟩ := clean_run_reproduced (List.cons_ne_nil i []) (by decide)
    driven clean rehearsed rfl [] (.ofAnswers [])
  exact ⟨clean, records, plan, commands⟩

end Agent

end BrowserAgent
