import BrowserAgent.Proofs.Watching

/-!
# What a replay does

The records before the first failure are replayed, no more and no less. There the replay ends, or
it steps through what the records from that one on instruct.
-/

namespace BrowserAgent

variable {μ σ τ : Type}

namespace Surface

/-- The first of the actions that fails where each runs after the others: how many run before it,
and its failure. -/
def firstFailure? (s : Surface σ) : List String → σ → Option (Nat × ActionFailure)
  | [], _ => none
  | action :: more, browser =>
    match (s.runWhole action).run browser with
    | (.ok _, browser) => (firstFailure? s more browser).map fun (ran, failure) => (ran + 1, failure)
    | (.error failure, _) => some (0, failure)

theorem firstFailure?_cons_eq_none {s : Surface σ} {action : String} {more : List String}
    {browser : σ} :
    s.firstFailure? (action :: more) browser = none ↔
      ∃ after, (s.runWhole action).run browser = (.ok (), after) ∧
        s.firstFailure? more after = none := by
  rw [firstFailure?]
  generalize (s.runWhole action).run browser = x
  obtain ⟨failure | _, after⟩ := x
  · constructor
    · rintro ⟨⟩
    · rintro ⟨_, ⟨⟩, _⟩
  · rw [Option.map_eq_none_iff]
    constructor
    · exact fun h => ⟨after, rfl, h⟩
    · rintro ⟨_, ⟨⟩, h⟩
      exact h

theorem firstFailure?_append_eq_none {s : Surface σ} {actions more : List String}
    {browser : σ} :
    s.firstFailure? (actions ++ more) browser = none ↔
      s.firstFailure? actions browser = none ∧
        s.firstFailure? more (s.afterActions actions browser) = none := by
  induction actions generalizing browser with
  | nil => simp [firstFailure?, afterActions]
  | cons action actions ih =>
    rw [List.cons_append, firstFailure?_cons_eq_none, firstFailure?_cons_eq_none]
    constructor
    · rintro ⟨after, ran, later⟩
      obtain ⟨earlier, later⟩ := ih.mp later
      refine ⟨⟨after, ran, earlier⟩, ?_⟩
      rwa [afterActions, List.foldl_cons, ran]
    · rintro ⟨⟨after, ran, earlier⟩, later⟩
      rw [afterActions, List.foldl_cons, ran] at later
      exact ⟨after, ran, ih.mpr ⟨earlier, later⟩⟩

theorem firstFailure?_lt {s : Surface σ} {actions : List String} {browser : σ} {ran : Nat}
    {failure : ActionFailure} (h : s.firstFailure? actions browser = some (ran, failure)) :
    ran < actions.length := by
  induction actions generalizing browser ran with
  | nil => cases h
  | cons action more ih =>
    rw [firstFailure?] at h
    split at h
    · obtain ⟨⟨earlier, _⟩, hearlier, heq⟩ := Option.map_eq_some_iff.mp h
      cases heq
      exact Nat.succ_lt_succ (ih hearlier)
    · cases h
      exact Nat.succ_pos _

/-- The commands that the actions give to the surface where each runs after the others. -/
def commandsOf (s : Surface σ) (actions : List String) (browser : σ) : List Command :=
  (s.watched.afterActions actions (browser, [])).2

section

variable {Q : σ → τ → Prop} {s : Surface σ} {t : Surface τ} (h : s.Alike Q t)
include h

theorem afterActions_alike (actions : List String) {b : σ} {b' : τ} (hb : Q b b') :
    Q (s.afterActions actions b) (t.afterActions actions b') := by
  induction actions generalizing b b' with
  | nil => exact hb
  | cons action more ih => exact ih (runWhole_alike h action b b' hb).2

theorem firstFailure?_alike (actions : List String) {b : σ} {b' : τ} (hb : Q b b') :
    s.firstFailure? actions b = t.firstFailure? actions b' := by
  induction actions generalizing b b' with
  | nil => rfl
  | cons action more ih =>
    obtain ⟨result, c, c', hx, hy, hc⟩ := (runWhole_alike h action b b' hb).split
    rw [firstFailure?, firstFailure?, hx, hy]
    cases result with
    | ok => simp only [ih hc]
    | error failure => rfl

end

end Surface

/-- The record left by an action that ran at once. -/
def ActionRecord.confirmed (r : ActionRecord) : AttemptRecord :=
  ⟨r.instruction, r.action, .confirmed, 1⟩

/-- The session with so many records replayed. -/
def Session.replayed (s : Session μ σ) (records : List ActionRecord) (model : μ) (browser : σ) :
    Session μ σ :=
  { s with
    history := ⟨s.history.records ++ records.map (·.confirmed)⟩
    workbench := { s.workbench with model := model }
    browser := browser
    tally := { s.tally with replayed := s.tally.replayed + records.length } }

theorem Session.replayed_cons (s : Session μ σ) (r : ActionRecord) (records : List ActionRecord)
    (model model' : μ) (browser browser' : σ) :
    ({ s with browser := browser', workbench := ⟨model', s.workbench.cache⟩ }.addReplayed
        r).replayed records model browser = s.replayed (r :: records) model browser := by
  simp only [replayed, addReplayed, ActionRecord.confirmed, History.start_eq,
    History.confirmCurrent_append, List.append_assoc, List.singleton_append, List.map_cons,
    List.length_cons, Nat.add_assoc, Nat.add_comm 1]

namespace Agent

variable (a : Agent μ σ)

/-! ## Up to the first failure -/

theorem play_eq (records : List ActionRecord) (s : Session μ σ) :
    ∃ model, a.play records s =
      match a.surface.firstFailure? (records.map (·.action)) s.browser with
      | none =>
        ⟨records, s.replayed records model
          (a.surface.afterActions (records.map (·.action)) s.browser), none⟩
      | some (ran, failure) =>
        ⟨records.take ran, s.replayed (records.take ran) model
          (a.surface.afterActions ((records.take (ran + 1)).map (·.action)) s.browser),
          some (failure, records.drop ran)⟩ := by
  -- By induction on the records. Each runs on the surface that those before it have left.
  induction records generalizing s with
  | nil =>
    refine ⟨s.workbench.model, ?_⟩
    simp [play, Surface.firstFailure?, Session.replayed, Surface.afterActions]
  | cons r more ih =>
    obtain ⟨result, browser, hx⟩ : ∃ result browser,
      (a.surface.runWhole r.action).run s.browser = (result, browser) := ⟨_, _, rfl⟩
    have executed := execute_of_run browser hx
    cases result with
    | error failure =>
      refine ⟨a.reveal s.browser browser s.workbench.model, ?_⟩
      simp [play, executed, Surface.firstFailure?, hx, Session.replayed, Surface.afterActions]
    | ok =>
      let s₁ : Session μ σ := { s with
        browser := browser
        workbench := ⟨a.reveal s.browser browser s.workbench.model, s.workbench.cache⟩ }
      obtain ⟨model, later⟩ := ih (s₁.addReplayed r)
      rw [show (s₁.addReplayed r).browser = browser from rfl] at later
      refine ⟨model, ?_⟩
      simp only [play, executed, List.map_cons, Surface.firstFailure?, hx]
      rw [later]
      cases a.surface.firstFailure? (more.map (·.action)) browser with
      | none => simp [s₁, Session.replayed_cons, Surface.afterActions, hx]
      | some first => simp [s₁, Session.replayed_cons, Surface.afterActions, hx]

theorem replay_eq (records : List ActionRecord) (explicitSteps : Bool) (s : Session μ σ) :
    ∃ model, a.replay records explicitSteps s =
      match a.surface.firstFailure? (records.map (·.action)) s.browser with
      | none =>
        let after := { s.replayed records model
          (a.surface.afterActions (records.map (·.action)) s.browser) with phase := .idle }
        (.ok after.summary, after)
      | some (ran, failure) =>
        let reached := s.replayed (records.take ran) model
          (a.surface.afterActions ((records.take (ran + 1)).map (·.action)) s.browser)
        if a.stepsOn explicitSteps then
          a.run { reached with queue := (records.drop ran).map (·.instruction) }
        else (.error (.replay (ran + 1) (a.diagnose failure)), { reached with phase := .fatal }) := by
  obtain ⟨model, played⟩ := a.play_eq records s
  refine ⟨model, ?_⟩
  simp only [replay, replayFrom_eq, played]
  cases h : a.surface.firstFailure? (records.map (·.action)) s.browser with
  | none => rfl
  | some first =>
    have lt := Surface.firstFailure?_lt h
    rw [List.length_map] at lt
    simp only [List.length_take, Nat.min_eq_left (Nat.le_of_lt lt), Nat.add_comm 1]

/-- Replaying asks the model nothing. -/
theorem exchanges_play (records : List ActionRecord)
    (s : Session (μ × List Exchange) (σ × List Command)) :
    (a.watched.play records s).session.workbench.model.2 = s.workbench.model.2 := by
  induction records generalizing s with
  | nil => rfl
  | cons r more ih =>
    rw [play]
    have executed : (a.watched.execute r.action s).2.workbench.model.2 = s.workbench.model.2 := rfl
    generalize a.watched.execute r.action s = x at executed
    obtain ⟨result, s₁⟩ := x
    cases result with
    | ok => exact (ih (s₁.addReplayed r)).trans executed
    | error failure => exact executed

theorem exchanges_replay (records : List ActionRecord) (explicitSteps : Bool) (s : Session μ σ)
    (h : a.surface.firstFailure? (records.map (·.action)) s.browser = none ∨
      a.stepsOn explicitSteps = false) :
    a.exchanges [.replay records explicitSteps] s = [] := by
  obtain ⟨-, stopped, -⟩ :=
    play_agree a.simulates_watched s.watched.beside_unwatched records
  have kept := a.exchanges_play records s.watched
  obtain ⟨model, played⟩ := a.play_eq records s
  rw [show s.watched.unwatched = s from rfl, played] at stopped
  have stepsOn : a.watched.stepsOn explicitSteps = a.stepsOn explicitSteps := rfl
  show (a.watched.replay records explicitSteps s.watched).2.workbench.model.2 = []
  simp only [replay, replayFrom_eq, stopped, stepsOn]
  rcases h with h | h
  · rw [h]
    exact kept
  · cases a.surface.firstFailure? (records.map (·.action)) s.browser with
    | none => exact kept
    | some first =>
      simp only [h]
      exact kept

theorem replay_of_unfailing {records : List ActionRecord} {s : Session μ σ}
    (h : a.surface.firstFailure? (records.map (·.action)) s.browser = none)
    (explicitSteps : Bool) :
    ∃ model, a.replay records explicitSteps s =
      let after := { s.replayed records model
        (a.surface.afterActions (records.map (·.action)) s.browser) with phase := .idle }
      (.ok after.summary, after) := by
  obtain ⟨model, replayed⟩ := a.replay_eq records explicitSteps s
  rw [h] at replayed
  exact ⟨model, replayed⟩

theorem commands_replay {records : List ActionRecord} {s : Session μ σ}
    (h : a.surface.firstFailure? (records.map (·.action)) s.browser = none)
    (explicitSteps : Bool) :
    a.commands [.replay records explicitSteps] s =
      a.surface.commandsOf (records.map (·.action)) s.browser := by
  have watched : a.watched.surface.firstFailure? (records.map (·.action)) s.watched.browser =
      none :=
    (Surface.firstFailure?_alike a.surface.watched_alike _ rfl).trans h
  obtain ⟨model, replayed⟩ := a.watched.replay_of_unfailing watched explicitSteps
  exact congrArg (fun x => x.2.browser.2) replayed

end Agent

end BrowserAgent
