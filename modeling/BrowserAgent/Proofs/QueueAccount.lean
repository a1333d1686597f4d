import BrowserAgent.Proofs.Calls

/-!
# Where the instructions go

However a session is stepped and run, also after errors, every instruction it was given is still
queued, was skipped as blank, advanced, surfaced or ended a call with an error. The instructions
are taken in the order of the queue, each once, and those that got an action have their records in
that order.
-/

namespace BrowserAgent

/-- An instruction that was taken, and whether the first request for it got an action. -/
structure Dispatched where
  instruction : Instruction
  answered : Bool
deriving DecidableEq, Repr

/-- The position that an outcome reports for its instruction. -/
def StepOutcome.index? : StepOutcome → Option Nat
  | .idle => none
  | .advanced index _ | .surfaced index _ => some index

variable {μ σ : Type}

namespace Session

/-- The instructions that are queued, and those that were taken without an error. -/
def accounted (s : Session μ σ) : Nat :=
  s.queue.length + s.tally.skippedBlank + s.tally.advanced + s.tally.surfaced

theorem accounted_skipBlank (s : Session μ σ) : s.skipBlank.accounted = s.accounted := by
  have h := s.length_skipBlank
  have ha : s.skipBlank.tally.advanced = s.tally.advanced := rfl
  have hs : s.skipBlank.tally.surfaced = s.tally.surfaced := rfl
  rw [accounted, accounted, ha, hs, h]

end Session

namespace Turn

/-- The step ended in an error. -/
def isFailed (t : Turn μ σ) : Bool := !t.report.outcome.isOk

/-- The instruction that the step took. -/
def dispatched? (a : Agent μ σ) (t : Turn μ σ) : Option Dispatched :=
  t.before.next?.map fun i => ⟨i, (a.synthesizer.synthesize i t.before.workbench).1.isOk⟩

end Turn

namespace Agent

variable {a : Agent μ σ} {s s' : Session μ σ} {report : StepReport}

/-! ## One step -/

/-- An instruction that is taken is counted as advanced or surfaced, or its step fails. -/
theorem Stepped.accounted (h : a.Stepped s report s') :
    s.accounted = s'.accounted + (!report.outcome.isOk).toNat := by
  rw [← s.accounted_skipBlank]
  cases h with
  | idle => rfl
  | unmade hq =>
    simp only [Session.accounted, hq, List.length_cons, Except.isOk, Except.toBool, Bool.not_false,
      Bool.toNat_true]
    omega
  | made _ h =>
    rw [Session.accounted, Session.accounted, h.queue, h.tally, List.length_cons]
    cases ho : report.outcome with
    | error e =>
      simp only [Tally.count, Except.isOk, Except.toBool, Bool.not_false, Bool.toNat_true]
      omega
    | ok o =>
      cases o with
      | idle =>
        rw [h.report_eq] at ho
        exact absurd ho (outcome_ne_idle _ _ _ _ _)
      | advanced | surfaced =>
        simp only [Tally.count, Except.isOk, Except.toBool, Bool.not_true, Bool.toNat_false]
        omega

theorem Stepped.dispatched (h : a.Stepped s report s') :
    s'.dispatched = s.dispatched + s.next?.toList.length := by
  cases h with
  | idle hq => simp [Session.next?_of_nil hq, Session.skipBlank]
  | unmade hq => simp [Session.next?_of_cons hq]
  | made _ h => simp [Session.next?_of_cons h.queue, h.dispatched]

theorem Stepped.index (h : a.Stepped s report s') {o : StepOutcome} {index : Nat}
    (ho : report.outcome = .ok o) (hi : o.index? = some index) : index = s.dispatched := by
  cases h with
  | idle =>
    cases ho
    simp [StepOutcome.index?] at hi
  | unmade => cases ho
  | @made i _ _ c _ _ _ h =>
    rw [h.report_eq] at ho
    cases hc : c.ending with
    | ran =>
      simp only [outcome, hc, Except.ok.injEq] at ho
      subst ho
      exact (Option.some.inj hi).symm
    | exhausted failure =>
      cases hp : a.settings.onExhausted with
      | fatal => simp [outcome, hc, hp] at ho
      | «continue» =>
        simp only [outcome, hc, hp, Except.ok.injEq] at ho
        subst ho
        exact (Option.some.inj hi).symm
    | refused | deserted => simp [outcome, hc] at ho

/-- An instruction gets a record exactly if the first request for it is answered. -/
theorem Stepped.recorded (h : a.Stepped s report s') :
    s'.history.records.map (·.instruction) = s.history.records.map (·.instruction) ++
      (((⟨s, report, s'⟩ : Turn μ σ).dispatched? a).toList.filter (·.answered)).map
        (·.instruction) := by
  cases h with
  | idle hq => simp [Turn.dispatched?, Session.next?_of_nil hq, Session.skipBlank]
  | unmade hq hm =>
    simp [Turn.dispatched?, Session.next?_of_cons hq, hm, Except.isOk, Except.toBool,
      Session.skipBlank]
  | made hm h =>
    simp [Turn.dispatched?, Session.next?_of_cons h.queue, hm, Except.isOk, Except.toBool,
      h.history]

/-! ## Steps in a row -/

section

variable {turns : List (Turn μ σ)}

theorem Chain.accounted (h : a.Chain s turns s') :
    s.accounted = s'.accounted + turns.countP Turn.isFailed := by
  induction h with
  | nil => simp
  | @cons s s' turns _ ih =>
    rw [(a.turn_stepped s).accounted, ih, List.countP_cons, Turn.isFailed]
    cases (a.turn s).report.outcome.isOk with
    | false => simp [Nat.add_assoc]
    | true => simp

theorem Chain.instructions (h : a.Chain s turns s') :
    s.instructions =
      (turns.filterMap (·.dispatched? a)).map (·.instruction) ++ s'.instructions := by
  induction h with
  | nil => simp
  | @cons s s' turns _ ih =>
    rw [(a.turn_stepped s).instructions, ih, ← List.append_assoc]
    congr 1
    cases hn : s.next? <;> simp [Turn.dispatched?, turn, hn]

theorem Chain.dispatched (h : a.Chain s turns s') :
    s'.dispatched = s.dispatched + (turns.filterMap (·.dispatched? a)).length := by
  induction h with
  | nil => simp
  | @cons s s' turns _ ih =>
    rw [ih, (a.turn_stepped s).dispatched, Nat.add_assoc]
    congr 1
    cases hn : s.next? <;> simp [Turn.dispatched?, turn, hn, Nat.add_comm]

theorem Chain.recorded (h : a.Chain s turns s') :
    s'.history.records.map (·.instruction) = s.history.records.map (·.instruction) ++
      ((turns.filterMap (·.dispatched? a)).filter (·.answered)).map (·.instruction) := by
  induction h with
  | nil => simp
  | @cons s s' turns _ ih =>
    have hs : (a.turn s).after.history.records.map (·.instruction) =
        s.history.records.map (·.instruction) ++
          (((a.turn s).dispatched? a).toList.filter (·.answered)).map (·.instruction) :=
      (a.turn_stepped s).recorded
    rw [ih, hs, List.append_assoc, ← List.map_append, ← List.filter_append]
    cases hd : (a.turn s).dispatched? a with
    | none => simp [List.filterMap_cons_none hd]
    | some d => simp [List.filterMap_cons_some hd]

end

/-! ## Calls -/

/-- A call ends with an error exactly if one of its steps does, and that is one step only. -/
theorem log_failed (d : Drive) (s : Session μ σ) :
    (a.log (.drive d) s).turns.countP Turn.isFailed =
      (!(a.log (.drive d) s).answer.isOk).toNat := by
  obtain ⟨turns, s', -, hg, hl⟩ := a.log_drive d s
  -- Only the last step can fail, since the run went on after the others.
  have none : turns.countP Turn.isFailed = 0 := by
    rw [List.countP_eq_zero]
    intro t ht
    obtain ⟨o, ho, -⟩ := hg t ht
    simp [Turn.isFailed, ho, Except.isOk, Except.toBool]
  rw [hl, List.countP_append, none]
  cases d <;> cases ho : (a.turn s').report.outcome <;>
    simp [Turn.isFailed, Drive.answer, Turn.answer, ho, Except.map, Except.isOk, Except.toBool]

theorem logs_failed (drives : List Drive) (s : Session μ σ) :
    ((a.logs (drives.map .drive) s).flatMap (·.turns)).countP Turn.isFailed =
      (a.logs (drives.map .drive) s).countP fun l => !l.answer.isOk := by
  induction drives generalizing s with
  | nil => rfl
  | cons d drives ih =>
    rw [List.map_cons, logs, List.flatMap_cons, List.countP_append, log_failed, ih,
      List.countP_cons, Nat.add_comm]
    cases (a.log (.drive d) s).answer.isOk <;> simp

/-- Of any steps and runs, also after errors: the instructions given are those still queued, those
skipped, advanced and surfaced, and one for every call that failed. Those that are not blank are
taken in order. The ones that have a record, in the same order, are those whose first request was
answered, and an outcome tells the position of its instruction among them all. -/
theorem queue_accounted (a : Agent μ σ) (queue : List Instruction) (model : μ) (browser : σ)
    (drives : List Drive) :
    let calls := drives.map Call.drive
    let logs := a.logs calls (.start queue model browser)
    let after := a.after calls (.start queue model browser)
    let turns := logs.flatMap (·.turns)
    let dispatched := turns.filterMap (·.dispatched? a)
    let instructions := queue.filter fun i => !i.isBlank
    queue.length = after.queue.length + after.tally.skippedBlank + after.tally.advanced +
      after.tally.surfaced + logs.countP (fun l => !l.answer.isOk) ∧
    instructions = dispatched.map (·.instruction) ++ after.instructions ∧
    after.history.records.map (·.instruction) =
      (dispatched.filter (·.answered)).map (·.instruction) ∧
    ∀ earlier t later, turns = earlier ++ t :: later →
      ∀ o index, t.report.outcome = .ok o → o.index? = some index →
        index = (earlier.filterMap (·.dispatched? a)).length ∧
          instructions[index]? = t.before.next? := by
  intro calls logs after turns dispatched instructions
  have chain : a.Chain (.start queue model browser) turns after :=
    a.drives_chain drives (.start queue model browser)
  refine ⟨?_, chain.instructions, ?_, ?_⟩
  · have := chain.accounted
    rw [logs_failed] at this
    exact this
  · exact chain.recorded
  · intro earlier t later split o index ho hi
    have before : a.Chain _ earlier t.before := (split ▸ chain).before
    have stepped : a.Stepped t.before t.report t.after := chain.stepped t (by simp [split])
    have position : index = (earlier.filterMap (·.dispatched? a)).length := by
      rw [stepped.index ho hi, before.dispatched]
      exact Nat.zero_add _
    refine ⟨position, ?_⟩
    have taken : t.before.next? ≠ none := by
      rw [ne_eq, ← stepped.idle_iff, ho]
      rintro ⟨⟩
      cases hi
    rw [show instructions = _ from before.instructions, stepped.instructions]
    cases hn : t.before.next? with
    | none => exact absurd hn taken
    | some i => simp [position]

end Agent

end BrowserAgent
