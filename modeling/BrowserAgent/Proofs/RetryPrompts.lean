import BrowserAgent.Proofs.CompiledDocument
import BrowserAgent.Proofs.Moves

/-!
# What a retry is about

The prompt of a retry holds the action that failed last and the diagnostic of that failure, and the
history agrees: its record has the last action made and the number of actions. A retry that gets no
action leaves the history as it was.
-/

namespace BrowserAgent

namespace Synthesizer

variable {μ : Type} {s : Synthesizer μ} {diagnostic : String} {h : History} {w w' : Workbench μ}

theorem retryCurrent_of_none (hc : h.current? = none) :
    s.retryCurrent diagnostic h w = (.ok none, h, w) := by
  rw [retryCurrent, hc]

variable {r : AttemptRecord}

theorem retryCurrent_of_denied {reason : String} (hc : h.current? = some r)
    (hm : s.complete (Prompt.retry r.instruction r.action diagnostic) w = (.error reason, w')) :
    s.retryCurrent diagnostic h w = (.error reason, h, w') := by
  have denied : s.synthesizeRetry r.toActionRecord diagnostic w = (.error reason, w') :=
    synthesizeRetry_of_complete hm
  rw [retryCurrent, hc]
  simp only [denied]

theorem retryCurrent_of_made {action : String} (hc : h.current? = some r)
    (hm : s.complete (Prompt.retry r.instruction r.action diagnostic) w = (.ok action, w')) :
    s.retryCurrent diagnostic h w = (.ok (some ⟨r.instruction, action⟩),
      ⟨h.records.dropLast ++ [{ r with action := action, attempts := r.attempts + 1 }]⟩, w') := by
  have made : s.synthesizeRetry r.toActionRecord diagnostic w = (.ok ⟨r.instruction, action⟩, w') :=
    synthesizeRetry_of_complete hm
  rw [retryCurrent, hc]
  simp only [made, History.replaceCurrent_of_some hc]

end Synthesizer

namespace Agent

/-- A step asks about its last failure only, and its record keeps up with the actions made. Called
with any history, a retry puts the action that it gets in the record in flight, and otherwise changes
no history; without a record in flight it asks nothing. -/
theorem retries_follow_failures {μ σ : Type} (a : Agent μ σ) :
    (∀ (s : Session μ σ) (i : Instruction), s.next? = some i →
      ∃ moves, a.Pursued i moves ∧ a.Leads s moves (a.step s).2 ∧
        match (madeIn moves).getLast? with
        | none => (a.step s).2.history = s.history
        | some action => ∃ state, (a.step s).2.history =
          ⟨s.history.records ++ [⟨i, action, state, (madeIn moves).length⟩]⟩) ∧
    ∀ (diagnostic : String) (h : History) (w : Workbench μ),
      (h.current? = none → a.synthesizer.retryCurrent diagnostic h w = (.ok none, h, w)) ∧
      ∀ r, h.current? = some r → ∀ w',
        (∀ reason, a.synthesizer.complete (Prompt.retry r.instruction r.action diagnostic) w =
          (.error reason, w') →
          a.synthesizer.retryCurrent diagnostic h w = (.error reason, h, w')) ∧
        ∀ action, a.synthesizer.complete (Prompt.retry r.instruction r.action diagnostic) w =
          (.ok action, w') →
          a.synthesizer.retryCurrent diagnostic h w = (.ok (some ⟨r.instruction, action⟩),
            ⟨h.records.dropLast ++ [{ r with action := action, attempts := r.attempts + 1 }]⟩, w') := by
  refine ⟨fun s i hi => a.report_pursues hi, fun diagnostic h w => ⟨?_, fun r hc w' => ⟨?_, ?_⟩⟩⟩
  · exact Synthesizer.retryCurrent_of_none
  · exact fun reason => Synthesizer.retryCurrent_of_denied hc
  · exact fun action => Synthesizer.retryCurrent_of_made hc

/-- The model refuses to give another action in place of the first. -/
theorem rehearsed_retry_refused :
    let start : Session ScriptedModel Rehearsal :=
      .start [⟨"Click go"⟩] (.ofAnswers [.ok "click(go)", .error (.fatal "quota exceeded")]) .new
    ∃ moves, rehearsed.Pursued ⟨"Click go"⟩ moves ∧
      rehearsed.Leads start moves (rehearsed.step start).2 ∧ madeIn moves = ["click(go)"] ∧
      (rehearsed.step start).2.history = ⟨[⟨⟨"Click go"⟩, "click(go)", .attempted, 1⟩]⟩ := by
  intro start
  let i : Instruction := ⟨"Click go"⟩
  let failure : ActionFailure := ⟨1, "click(go)", .notEvaluated (.undefined "go")⟩
  have queue : start.skipBlank.queue = [i] := by decide
  have stripped : Action.stripFences "click(go)" = "click(go)" := by decide
  have passed : rehearsed.refusedToken? "click(go)" = none := by decide
  obtain ⟨requests, first⟩ := rehearsed_synthesize i "click(go)" [.error (.fatal "quota exceeded")]
  obtain ⟨w, second⟩ := rehearsed_synthesizeRetry i "click(go)" (rehearsed.diagnose failure)
    "click(go)" "quota exceeded" [] requests
  rw [stripped] at first
  have history : (rehearsed.step start).2.history = ⟨[⟨i, "click(go)", .attempted, 1⟩]⟩ := by
    rw [rehearsed.step_snd]
    exact report_deserted queue first rfl passed (run_click start.browser) second
  obtain ⟨moves, pursued, leads, kept⟩ :=
    (retries_follow_failures rehearsed).1 start i (Session.next?_of_cons queue)
  refine ⟨moves, pursued, leads, ?_, history⟩
  rw [history] at kept
  cases hlast : (madeIn moves).getLast? with
  | none =>
    rw [hlast] at kept
    cases kept
  | some action =>
    rw [hlast] at kept
    obtain ⟨state, kept⟩ := kept
    obtain ⟨rfl, -, one⟩ : "click(go)" = action ∧ AttemptState.attempted = state ∧
        1 = (madeIn moves).length := by simpa [start, Session.start, History.empty] using kept
    obtain ⟨only, heq⟩ := List.length_eq_one_iff.mp one.symm
    rw [heq] at hlast ⊢
    cases hlast
    rfl

end Agent

end BrowserAgent
