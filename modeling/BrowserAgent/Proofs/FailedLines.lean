import BrowserAgent.Proofs.Rehearsed
import BrowserAgent.Proofs.Replaying
import BrowserAgent.Proofs.StatementLines
import BrowserAgent.Proofs.StatementRuns

/-!
# The line that failed

An action that fails names one of its statement lines, unless it has none. If the line cannot be
read, it is the first such line, and no command was given. If it can be read, so can all of them:
the statements before it have run, it gave the last commands, and those behind it gave none.
-/

namespace BrowserAgent

open BrowserAgent.Action

variable {σ : Type}

namespace Surface

/-- How an action that is run from a state can fail, with the state and the commands then. -/
inductive Fails (s : Surface σ) (text : String) (start : σ) :
    ActionFailure → σ → List Command → Prop
  | empty : (∀ n source, ¬ StatementAt text n source) →
    Fails s text start ⟨1, "", .noStatement⟩ start []
  | unread {e : ActionSyntaxError} : FirstUnread text e →
    Fails s text start (.ofSyntaxError e) start []
  | stopped {done : List Evaluated} {x : Statement} {later : List Statement} {cause : EvalError}
    {after : σ} {commands : List Command} :
    StatementsOf text (done.map (·.statement) ++ x :: later) →
    s.watched.Stops [] (start, []) done x cause (after, commands) →
    Fails s text start (x.failure cause) after commands

variable {s : Surface σ} {text : String} {start after : σ} {f : ActionFailure}
  {commands : List Command}

/-- A failure names a line, unless there is none that it could name. -/
theorem Fails.located (h : s.Fails text start f after commands) :
    ((∀ n source, ¬ StatementAt text n source) ∧ f.reason = "action is empty") ∨
      StatementAt text f.line f.source := by
  cases h with
  | empty none => exact .inl ⟨none, rfl⟩
  | unread first => exact .inr first.stands
  | @stopped _ x _ _ _ _ statements => exact .inr (statements.stands x (by simp)).1

theorem Fails.run (h : s.Fails text start f after commands) :
    (s.watched.runWhole text).run (start, []) = (.error f, (after, commands)) := by
  cases h with
  | empty none =>
    rw [runWhole, parse_eq_ok_iff.mpr (statementsOf_nil_iff.mpr none)]
    rfl
  | unread first =>
    rw [runWhole, parse_eq_error_iff.mpr first]
    rfl
  | @stopped done x later cause _ _ statements stops =>
    have parsed : Action.parse text = .ok ⟨_⟩ := parse_eq_ok_iff.mpr statements
    have some : (done.map (·.statement) ++ x :: later).isEmpty = false := by simp
    rw [runWhole, parsed]
    simp only [some]
    exact Run.run_discard_error_iff.mpr (stops.runStatements later)

theorem watched_fails_iff :
    (s.watched.runWhole text).run (start, []) = (.error f, (after, commands)) ↔
      s.Fails text start f after commands := by
  refine ⟨?_, Fails.run⟩
  intro h
  rw [runWhole] at h
  cases parsed : Action.parse text with
  | error e =>
    rw [parsed] at h
    cases h
    exact .unread (parse_eq_error_iff.mp parsed)
  | ok program =>
    rw [parsed] at h
    obtain ⟨statements⟩ := program
    have spelled := parse_eq_ok_iff.mp parsed
    cases statements with
    | nil =>
      cases h
      exact .empty (statementsOf_nil_iff.mp spelled)
    | cons first more =>
      have ran := Run.run_discard_error_iff.mp h
      obtain ⟨done, x, later, cause, split, stops, rfl⟩ := runStatements_error_iff.mp ran
      exact .stopped (split ▸ spelled) stops

theorem runWhole_watched (s : Surface σ) (text : String) (start : σ) :
    (s.watched.runWhole text).run (start, []) =
      (((s.runWhole text).run start).1, ((s.runWhole text).run start).2,
        s.commandsOf [text] start) := by
  obtain ⟨result, state⟩ := runWhole_alike s.watched_alike text (start, []) start rfl
  exact Prod.ext result (Prod.ext state rfl)

/-- An action fails in one of three ways. If it has no statement line, it is empty; otherwise the
failure names one, with its number and trimmed. Either that line is the first which cannot be read,
and nothing was carried out, or all of them can be read: then the statements before it have run, it
was given up where it failed, and those behind it were not begun. -/
theorem failures_located (s : Surface σ) (text : String) (start : σ) :
    (∀ f after, (s.runWhole text).run start = (.error f, after) ↔
      s.Fails text start f after (s.commandsOf [text] start)) ∧
    ∀ f, ((s.runWhole text).run start).1 = .error f →
      ((∀ n source, ¬ StatementAt text n source) ∧ f.reason = "action is empty") ∨
        StatementAt text f.line f.source := by
  have fails_iff (f : ActionFailure) (after : σ) :
      (s.runWhole text).run start = (.error f, after) ↔
        s.Fails text start f after (s.commandsOf [text] start) := by
    rw [← watched_fails_iff, runWhole_watched]
    constructor
    · intro h
      rw [h]
    · intro h
      obtain ⟨result, rest⟩ := Prod.mk.inj h
      exact Prod.ext result (Prod.mk.inj rest).1
  refine ⟨fails_iff, ?_⟩
  intro f failed
  exact ((fails_iff f _).mp (Prod.ext failed rfl)).located

end Surface

/-- The text of the page is read, and nothing is called `go`. -/
def fencedClick : String := "```\npage_text()\nclick(go)"

theorem fencedClick_located :
    StatementAt fencedClick 3 "click(go)" ∧
      Rehearsal.surface.Fails fencedClick .new
        ⟨3, "click(go)", .notEvaluated (.undefined "go")⟩
        { Rehearsal.new with calls := [.pageText false] } [.pageText false] := by
  have lines : Text.lines fencedClick = ["```", "page_text()", "click(go)"] := by decide
  have page : Text.trim "page_text()" = "page_text()" := by decide
  have click : Text.trim "click(go)" = "click(go)" := by decide
  have parsed : Action.parse fencedClick =
      .ok ⟨[⟨2, "page_text()", none, .call .pageText [none]⟩,
        ⟨3, "click(go)", none, .call .click [some (.var "go")]⟩]⟩ := by
    rw [Action.parse, lines, statementsFrom_of_skipped (by decide),
      statementsFrom_of_ok (by decide) (page.symm ▸ readStatement_pageText),
      statementsFrom_of_ok (by decide) (click.symm ▸ readStatement_click)]
    rfl
  have ran : (Rehearsal.surface.runWhole fencedClick).run .new =
      (.error ⟨3, "click(go)", .notEvaluated (.undefined "go")⟩,
        { Rehearsal.new with calls := [.pageText false] }) := by
    rw [Surface.runWhole, parsed]
    rfl
  have commands : Rehearsal.surface.commandsOf [fencedClick] .new = [.pageText false] := by
    rw [Surface.commandsOf, Surface.afterActions, List.foldl_cons, Surface.runWhole, parsed]
    rfl
  obtain ⟨fails_iff, located⟩ := Rehearsal.surface.failures_located fencedClick .new
  have fails := (fails_iff _ _).mp ran
  rw [commands] at fails
  rcases located _ (congrArg Prod.fst ran) with ⟨-, empty⟩ | stands
  · exact absurd empty (by decide)
  · exact ⟨stands, fails⟩

end BrowserAgent
