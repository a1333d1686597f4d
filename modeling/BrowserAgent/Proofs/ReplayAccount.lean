import BrowserAgent.Proofs.QueueAccount
import BrowserAgent.Proofs.Replaying

/-!
# The account of a replay

A replay that ends without an error has accounted for every record: the first it replayed, and the
others it stepped through, where each advanced, surfaced or was skipped as blank.
-/

namespace BrowserAgent

variable {μ σ : Type}

/-! ## Steps without an error -/

/-- The blank instructions that were skipped, and those that are still queued. -/
def Session.blanks (s : Session μ σ) : Nat :=
  s.tally.skippedBlank + s.queue.countP Instruction.isBlank

theorem Session.blanks_skipBlank (s : Session μ σ) : s.skipBlank.blanks = s.blanks := by
  have all : (s.queue.takeWhile Instruction.isBlank).countP Instruction.isBlank =
      (s.queue.takeWhile Instruction.isBlank).length :=
    List.countP_eq_length.mpr fun i hi => List.all_eq_true.mp List.all_takeWhile i hi
  have split := congrArg (List.countP Instruction.isBlank)
    (List.takeWhile_append_dropWhile (p := Instruction.isBlank) (l := s.queue))
  rw [List.countP_append, all] at split
  simp only [blanks, skipBlank, ← split]
  omega

namespace Agent

section

variable {a : Agent μ σ} {s s' : Session μ σ} {report : StepReport} {turns : List (Turn μ σ)}

theorem Stepped.replayed (h : a.Stepped s report s') : s'.tally.replayed = s.tally.replayed := by
  cases h with
  | idle | unmade => rfl
  | made _ h => rw [h.tally, Tally.replayed_count, Session.skipBlank]

theorem Stepped.blanks (h : a.Stepped s report s') : s'.blanks = s.blanks := by
  rw [← s.blanks_skipBlank]
  cases h with
  | idle => rfl
  | unmade hq =>
    rw [Session.blanks, Session.blanks, hq, List.countP_cons_of_neg]
    simp [Session.isBlank_of_cons hq]
  | made _ h =>
    rw [Session.blanks, Session.blanks, h.queue, h.tally, Tally.skippedBlank_count,
      List.countP_cons_of_neg]
    simp [Session.isBlank_of_cons h.queue]

theorem Stepped.answered (h : a.Stepped s report s') (ho : report.outcome.isOk = true) :
    ∀ d ∈ (⟨s, report, s'⟩ : Turn μ σ).dispatched? a, d.answered = true := by
  intro d hd
  obtain ⟨i, hi, rfl⟩ := Option.map_eq_some_iff.mp hd
  cases h with
  | idle hq =>
    rw [Session.next?_of_nil hq] at hi
    cases hi
  | unmade => cases ho
  | made hm h =>
    rw [Session.next?_of_cons h.queue] at hi
    cases hi
    simp only [hm]
    rfl

/-- The steps lead to the session without an error. -/
def Smooth (turns : List (Turn μ σ)) : Prop := ∀ t ∈ turns, t.report.outcome.isOk = true

theorem Chain.replayed (h : a.Chain s turns s') : s'.tally.replayed = s.tally.replayed := by
  induction h with
  | nil => rfl
  | cons _ ih => exact ih.trans (a.turn_stepped _).replayed

theorem Chain.blanks (h : a.Chain s turns s') : s'.blanks = s.blanks := by
  induction h with
  | nil => rfl
  | cons _ ih => exact ih.trans (a.turn_stepped _).blanks

/-- Steps without an error leave a record of every instruction that they take. -/
theorem Chain.recorded_of_smooth (h : a.Chain s turns s') (smooth : Smooth turns) :
    s'.history.records.map (·.instruction) ++ s'.instructions =
      s.history.records.map (·.instruction) ++ s.instructions := by
  have answered : (turns.filterMap (·.dispatched? a)).filter (·.answered) =
      turns.filterMap (·.dispatched? a) := by
    refine List.filter_eq_self.mpr fun d hd => ?_
    obtain ⟨t, ht, hd⟩ := List.mem_filterMap.mp hd
    exact (h.stepped t ht).answered (smooth t ht) d hd
  rw [h.recorded, answered, h.instructions, List.append_assoc]

theorem Stepped.queue_of_idle (h : a.Stepped s report s') (ho : report.outcome = .ok .idle) :
    s'.queue = [] := by
  cases h with
  | idle hq => exact hq
  | unmade => cases ho
  | made _ h =>
    rw [h.report_eq] at ho
    exact absurd ho (outcome_ne_idle _ _ _ _ _)

/-- A run that ends without an error has worked off its queue. -/
theorem run_smooth {summary : RunSummary} (h : (a.run s).1 = .ok summary) :
    summary = (a.run s).2.summary ∧ (a.run s).2.queue = [] ∧ Smooth (a.turns s) := by
  obtain ⟨turns, last, -, hturns, goes, stops, hrun⟩ := a.run_ends s
  rw [hrun] at h ⊢
  obtain ⟨o, ho, rfl⟩ : ∃ o, (a.turn last).report.outcome = .ok o ∧
      (a.turn last).after.summary = summary := by
    cases ho : (a.turn last).report.outcome with
    | error e => simp [Turn.answer, ho, Except.map] at h
    | ok o => exact ⟨o, rfl, by simpa [Turn.answer, ho, Except.map] using h⟩
  obtain rfl : o = .idle := by
    by_contra hne
    exact stops ⟨o, ho, hne⟩
  refine ⟨rfl, (a.turn_stepped last).queue_of_idle ho, ?_⟩
  rw [hturns, Smooth, List.forall_mem_append, List.forall_mem_singleton, ho]
  refine ⟨fun t ht => ?_, rfl⟩
  obtain ⟨o, ho, -⟩ := goes t ht
  rw [ho]
  rfl

/-- A run that ends without an error keeps the count of replayed records, counts every blank
instruction as skipped and every other as advanced or surfaced, and leaves a record of each of
these. -/
theorem run_accounted {summary : RunSummary} (h : (a.run s).1 = .ok summary) :
    summary = (a.run s).2.summary ∧ (a.run s).2.tally.replayed = s.tally.replayed ∧
      (a.run s).2.tally.skippedBlank =
        s.tally.skippedBlank + s.queue.countP Instruction.isBlank ∧
      (a.run s).2.tally.advanced + (a.run s).2.tally.surfaced + (a.run s).2.tally.skippedBlank =
        s.tally.advanced + s.tally.surfaced + s.tally.skippedBlank + s.queue.length ∧
      (a.run s).2.history.records.map (·.instruction) =
        s.history.records.map (·.instruction) ++ s.instructions := by
  obtain ⟨hsummary, queue, smooth⟩ := run_smooth h
  have chain := a.run_chain s
  have accounted := chain.accounted
  have blanks := chain.blanks
  have recorded := chain.recorded_of_smooth smooth
  have failed : (a.turns s).countP Turn.isFailed = 0 := by
    rw [List.countP_eq_zero]
    intro t ht
    simp [Turn.isFailed, smooth t ht]
  rw [Session.instructions, queue, List.filter_nil, List.append_nil] at recorded
  simp only [Session.accounted, Session.blanks, queue, failed, List.length_nil,
    List.countP_nil] at accounted blanks
  exact ⟨hsummary, chain.replayed, by omega, by omega, recorded⟩

end

/-! ## The account of a replay -/

variable (a : Agent μ σ)

/-- Of so many records the first ran of a replay that ended without an error; the others were
stepped through. -/
structure ReplayAccount (records : List ActionRecord) (ran : Nat) (s after : Session μ σ) : Prop where
  le : ran ≤ records.length
  replayed : after.tally.replayed = s.tally.replayed + ran
  skipped : after.tally.skippedBlank = s.tally.skippedBlank +
    ((records.drop ran).map (·.instruction)).countP Instruction.isBlank
  total : after.tally.replayed + after.tally.advanced + after.tally.surfaced +
      after.tally.skippedBlank =
    s.tally.replayed + s.tally.advanced + s.tally.surfaced + s.tally.skippedBlank + records.length
  history : after.history.records.map (·.instruction) = s.history.records.map (·.instruction) ++
    ((records.take ran).map (·.instruction) ++
      ((records.drop ran).map (·.instruction)).filter fun i => !i.isBlank)

theorem ReplayAccount.of_replayed (records : List ActionRecord) (s : Session μ σ) (model : μ)
    (browser : σ) :
    ReplayAccount records records.length s { s.replayed records model browser with phase := .idle }
    where
  le := Nat.le_refl _
  replayed := rfl
  skipped := by simp [Session.replayed]
  total := by
    simp only [Session.replayed]
    omega
  history := by simp [Session.replayed, ActionRecord.confirmed, Function.comp_def]

variable {a} in
theorem ReplayAccount.of_run {records : List ActionRecord} {ran : Nat} (le : ran ≤ records.length)
    {s : Session μ σ} {model : μ} {browser : σ} {summary : RunSummary}
    (h : (a.run { s.replayed (records.take ran) model browser with
      queue := (records.drop ran).map (·.instruction) }).1 = .ok summary) :
    ReplayAccount records ran s (a.run { s.replayed (records.take ran) model browser with
      queue := (records.drop ran).map (·.instruction) }).2 := by
  obtain ⟨-, replayed, skipped, total, history⟩ := run_accounted h
  generalize a.run { s.replayed (records.take ran) model browser with
    queue := (records.drop ran).map (·.instruction) } = finished at replayed skipped total history ⊢
  simp only [Session.replayed, Session.instructions, List.length_map, List.length_drop,
    List.length_take, Nat.min_eq_left le] at replayed skipped total history
  refine ⟨le, replayed, skipped, by omega, ?_⟩
  simp only [history, List.map_append, List.map_map, Function.comp_def, ActionRecord.confirmed,
    List.append_assoc]

/-- Of any records and session: without a failure the replay records them all. At a failure it has
recorded those before it, and ends in an error with its step, from one on, or goes on as a run of
what it and the records after it instruct. Unless it goes on nothing is asked of the model. Where it
ends without an error every record has been replayed, advanced, surfaced or skipped as blank, and
every one but the blank that were skipped has a record, in order. -/
theorem replay_accounted (records : List ActionRecord) (explicitSteps : Bool) (s : Session μ σ) :
    let actions := records.map (·.action)
    let result := (a.replay records explicitSteps s).1
    let after := (a.replay records explicitSteps s).2
    ∃ model,
      match a.surface.firstFailure? actions s.browser with
      | none =>
        result = .ok after.summary ∧
          after = { s.replayed records model (a.surface.afterActions actions s.browser) with
            phase := .idle } ∧
          ReplayAccount records records.length s after ∧
          a.exchanges [.replay records explicitSteps] s = []
      | some (ran, failure) =>
        let reached := s.replayed (records.take ran) model
          (a.surface.afterActions (actions.take (ran + 1)) s.browser)
        if explicitSteps = true ∧ a.settings.replayOnFailure = .stepThrough then
          (result, after) =
              a.run { reached with queue := (records.drop ran).map (·.instruction) } ∧
            ∀ summary, result = .ok summary →
              summary = after.summary ∧ ReplayAccount records ran s after
        else
          result = .error (.replay (ran + 1) (a.diagnose failure)) ∧
            after = { reached with phase := .fatal } ∧
            a.exchanges [.replay records explicitSteps] s = [] := by
  intro actions result after
  obtain ⟨model, replayed⟩ := a.replay_eq records explicitSteps s
  have quiet := a.exchanges_replay records explicitSteps s
  have stepsOn_iff : explicitSteps = true ∧ a.settings.replayOnFailure = .stepThrough ↔
      a.stepsOn explicitSteps = true := by
    rw [stepsOn, Bool.and_eq_true, beq_iff_eq]
  refine ⟨model, ?_⟩
  simp only [result, after, replayed]
  cases hf : a.surface.firstFailure? (records.map (·.action)) s.browser with
  | none => exact ⟨rfl, rfl, .of_replayed records s model _, quiet (.inl hf)⟩
  | some first =>
    obtain ⟨ran, failure⟩ := first
    have lt := Surface.firstFailure?_lt hf
    rw [List.length_map] at lt
    simp only [stepsOn_iff, List.map_take, actions]
    by_cases on : a.stepsOn explicitSteps = true
    · simp only [if_pos on]
      exact ⟨trivial, fun summary h => ⟨(run_accounted h).1, .of_run (Nat.le_of_lt lt) h⟩⟩
    · simp only [if_neg on]
      exact ⟨trivial, trivial, quiet (.inr (Bool.eq_false_iff.mpr on))⟩

end Agent

end BrowserAgent
