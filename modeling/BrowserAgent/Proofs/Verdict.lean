import BrowserAgent.Engine

/-!
# Verdicts

The verdicts that a step reports are what the gate and the surface make of its actions, judged one
after the other. So the gate has passed every action that was run, and the surface has seen those
actions and nothing else.
-/

namespace BrowserAgent

def Verdict.isExecuted : Verdict → Bool
  | .refused _ => false
  | .ran | .failed _ => true

@[simp]
def Verdict.isFailed : Verdict → Bool
  | .failed _ => true
  | .refused _ | .ran => false

@[simp]
def Verdict.token? : Verdict → Option String
  | .refused token => some token
  | .ran | .failed _ => none

theorem Verdict.isExecuted_iff (v : Verdict) : v.isExecuted = true ↔ v.token? = none := by
  cases v <;> simp [isExecuted]

theorem Verdict.eq_refused_iff {v : Verdict} {token : String} :
    v = .refused token ↔ v.token? = some token := by
  cases v <;> simp

theorem Verdict.isExecuted_of_isFailed {v : Verdict} (h : v.isFailed = true) :
    v.isExecuted = true := by
  cases v <;> simp_all [isExecuted]

def Trial.executed (trials : List Trial) : List String :=
  (trials.filter (·.verdict.isExecuted)).map (·.action)

/-- The surface after the actions, one run after the other, those that fail too. -/
def Surface.afterActions {σ : Type} (s : Surface σ) (actions : List String) (browser : σ) : σ :=
  actions.foldl (fun browser action => ((s.runWhole action).run browser).2) browser

theorem Surface.afterActions_append {σ : Type} (s : Surface σ) (actions more : List String)
    (browser : σ) :
    s.afterActions (actions ++ more) browser =
      s.afterActions more (s.afterActions actions browser) :=
  List.foldl_append

/-! ## Judging -/

namespace Agent

variable {μ σ : Type} (a : Agent μ σ)

/-- What the gate and the surface make of an action, and the surface then. -/
def judge (action : String) (browser : σ) : Verdict × σ :=
  match a.refusedToken? action with
  | some token => (.refused token, browser)
  | none =>
    match (a.surface.runWhole action).run browser with
    | (.ok _, browser) => (.ran, browser)
    | (.error failure, browser) => (.failed failure, browser)

/-- The verdicts on actions that are judged one after the other, and the surface then. -/
def judgeAll : List String → σ → List Verdict × σ
  | [], browser => ([], browser)
  | action :: more, browser =>
    let (verdict, browser) := a.judge action browser
    let (verdicts, browser) := judgeAll more browser
    (verdict :: verdicts, browser)

/-- The trials are what the gate and the surface make of their actions. -/
def Judged (trials : List Trial) (browser browser' : σ) : Prop :=
  a.judgeAll (trials.map (·.action)) browser = (trials.map (·.verdict), browser')

variable {a}

theorem judge_token (action : String) (browser : σ) :
    (a.judge action browser).1.token? = a.refusedToken? action := by
  unfold judge
  split
  · simp [*, Verdict.token?]
  · split <;> simp [*, Verdict.token?]

theorem judge_browser (action : String) (browser : σ) :
    (a.judge action browser).2 =
      if (a.judge action browser).1.isExecuted then a.surface.afterActions [action] browser
      else browser := by
  unfold judge
  split
  · simp [Verdict.isExecuted]
  · split <;> simp [*, Verdict.isExecuted, Surface.afterActions]

theorem run_of_judge {action : String} {browser : σ} (h : (a.judge action browser).1 = .ran) :
    (a.surface.runWhole action).run browser = (.ok (), (a.judge action browser).2) := by
  unfold judge at h ⊢
  split at h
  · cases h
  · generalize (a.surface.runWhole action).run browser = x at h ⊢
    obtain ⟨_ | _, after⟩ := x
    · cases h
    · rfl

theorem judged_cons {t : Trial} {trials : List Trial} {browser browser' : σ} :
    a.Judged (t :: trials) browser browser' ↔
      (a.judge t.action browser).1 = t.verdict ∧
        a.Judged trials (a.judge t.action browser).2 browser' := by
  simp only [Judged, List.map_cons, judgeAll, List.cons.injEq, Prod.ext_iff, and_assoc]

theorem Judged.token {trials : List Trial} {browser browser' : σ}
    (h : a.Judged trials browser browser') :
    ∀ t ∈ trials, a.refusedToken? t.action = t.verdict.token? := by
  induction trials generalizing browser with
  | nil => simp
  | cons t trials ih =>
    rw [judged_cons] at h
    intro u hu
    rcases List.mem_cons.mp hu with rfl | hu
    -- The surface before an action does not matter to the gate.
    · rw [← h.1, judge_token]
    · exact ih h.2 u hu

theorem Judged.browser {trials : List Trial} {browser browser' : σ}
    (h : a.Judged trials browser browser') :
    browser' = a.surface.afterActions (Trial.executed trials) browser := by
  induction trials generalizing browser with
  | nil =>
    simp only [Judged, List.map_nil, judgeAll, Prod.mk.injEq] at h
    exact h.2.symm
  | cons t trials ih =>
    rw [judged_cons] at h
    rw [ih h.2, judge_browser, h.1]
    cases hv : t.verdict.isExecuted <;>
      simp [Trial.executed, hv, Surface.afterActions]

end Agent

end BrowserAgent
