import BrowserAgent.Proofs.Exchanges
import BrowserAgent.Proofs.SideBySide

/-!
# Watching an agent

An agent is watched by a list of the commands that its surface is given and one of the exchanges
with its model. Watched or not, it does the same, so these are its own commands and exchanges.
-/

namespace BrowserAgent

variable {μ σ τ : Type}

/-! ## Surfaces that answer alike -/

/-- In related states every command is answered with the same and leads to related states. -/
structure Surface.Alike (Q : σ → τ → Prop) (s : Surface σ) (t : Surface τ) : Prop where
  hostName : t.hostName = s.hostName
  perform : ∀ c, (s.perform c).Alike Q (t.perform c)

namespace Surface

variable {Q : σ → τ → Prop} {s : Surface σ} {t : Surface τ}

section

variable (h : s.Alike Q t)
include h

theorem inFrame_alike {α : Type} (frame : String) {x : Run σ Fault α} {y : Run τ Fault α}
    (hxy : x.Alike Q y) : (s.inFrame frame x).Alike Q (t.inFrame frame y) := by
  intro b b' hb
  obtain ⟨entered, c, c', hx, hy, hc⟩ := (h.perform (.enterFrame frame) b b' hb).split
  simp only [inFrame, ExceptT.run_mk, hx, hy]
  cases entered with
  | error fault => exact ⟨rfl, hc⟩
  | ok =>
    obtain ⟨result, d, d', hx, hy, hd⟩ := (hxy c c' hc).split
    obtain ⟨left, e, e', hleft, hleft', he⟩ := (h.perform .exitFrame d d' hd).split
    simp only [hx, hy, hleft, hleft']
    cases result <;> cases left <;> exact ⟨rfl, he⟩

theorem address_alike (c : Command) : (s.address c).Alike Q (t.address c) := by
  unfold address
  cases c.element? with
  | none => exact h.perform c
  | some element =>
    simp only [inFrameOf]
    cases element.frame with
    | none => exact h.perform c
    | some frame => exact inFrame_alike h frame (h.perform c)

theorem carryOut_alike (args : CallArgs) : (s.carryOut args).Alike Q (t.carryOut args) := by
  refine (Run.Alike.ofExcept _).bind fun command => ?_
  refine ((address_alike h command).adapt _).bind fun reply => ?_
  exact .ofExcept _

end

mutual

theorem eval_alike (h : s.Alike Q t) (bindings : Bindings) :
    (e : Expr) → (s.eval bindings e).Alike Q (t.eval bindings e)
  | .text _ | .number _ | .bool _ | .nothing => .pure _
  | .var name => by
    rw [eval, eval]
    cases bindings.find? name with
    | some value => exact .pure value
    | none => exact .throw _
  | .item name index => .ofExcept _
  | .call op args => by
    rw [eval, eval]
    exact (evalArgs_alike h bindings op op.params args).bind fun values => carryOut_alike h _

theorem evalArgs_alike (h : s.Alike Q t) (bindings : Bindings) (op : Operation) :
    (params : List Param) → (args : List (Option Expr)) →
      (s.evalArgs bindings op params args).Alike Q (t.evalArgs bindings op params args)
  | [], _ => by
    rw [evalArgs, evalArgs]
    exact .pure _
  | p :: params, some arg :: args => by
    rw [evalArgs, evalArgs]
    refine (eval_alike h bindings arg).bind fun value => ?_
    refine (Run.Alike.ofExcept _).bind fun value => ?_
    exact (evalArgs_alike h bindings op params args).bind fun values => .pure _
  | p :: params, none :: args => by
    rw [evalArgs, evalArgs]
    refine (Run.Alike.ofExcept _).bind fun value => ?_
    exact (evalArgs_alike h bindings op params args).bind fun values => .pure _
  | p :: params, [] => by
    simp only [evalArgs]
    exact .ofExcept _

end

theorem runStatements_alike (h : s.Alike Q t) (bindings : Bindings) (statements : List Statement) :
    (s.runStatements bindings statements).Alike Q (t.runStatements bindings statements) := by
  induction statements generalizing bindings with
  | nil => exact .pure _
  | cons statement more ih =>
    rw [runStatements, runStatements]
    refine ((eval_alike h bindings statement.expr).adapt _).bind fun value => ?_
    cases statement.binding with
    | some name => exact ih _
    | none => exact ih _

theorem runWhole_alike (h : s.Alike Q t) (action : String) :
    (s.runWhole action).Alike Q (t.runWhole action) := by
  unfold runWhole
  cases Action.parse action with
  | error e => exact .throw _
  | ok program =>
    simp only []
    split
    · exact .throw _
    · exact (runStatements_alike h [] program.statements).bind fun _ => .pure _

end Surface

/-! ## The lists -/

/-- The surface with a list of all commands, oldest first. -/
def Surface.watched (s : Surface σ) : Surface (σ × List Command) where
  hostName := s.hostName
  perform c := ExceptT.mk fun b =>
    let (reply, after) := (s.perform c).run b.1
    (reply, after, b.2 ++ [c])

theorem Surface.watched_alike (s : Surface σ) : s.watched.Alike (fun b b' => b.1 = b') s where
  hostName := rfl
  perform c := by
    rintro b _ rfl
    exact ⟨rfl, rfl⟩

def Agent.watched (a : Agent μ σ) : Agent (μ × List Exchange) (σ × List Command) :=
  ⟨a.synthesizer.watched, a.surface.watched, a.settings,
    fun before after m => (a.reveal before.1 after.1 m.1, m.2)⟩

namespace Session

def watched (s : Session μ σ) : Session (μ × List Exchange) (σ × List Command) :=
  ⟨s.queue, s.history, ⟨(s.workbench.model, []), s.workbench.cache⟩, (s.browser, []), s.phase,
    s.dispatched, s.tally⟩

def unwatched (s : Session (μ × List Exchange) (σ × List Command)) : Session μ σ :=
  ⟨s.queue, s.history, s.workbench.unwatched, s.browser.1, s.phase, s.dispatched, s.tally⟩

end Session

namespace Agent

variable (a : Agent μ σ)

def commands (calls : List Call) (s : Session μ σ) : List Command :=
  (a.watched.after calls s.watched).browser.2

def exchanges (calls : List Call) (s : Session μ σ) : List Exchange :=
  (a.watched.after calls s.watched).workbench.model.2

/-! ## Watched and not -/

theorem simulates_watched :
    a.watched.Simulates a (fun w w' => w.unwatched = w') (fun b b' => b.1 = b') where
  settings := rfl
  hostName := rfl
  complete prompt w _ h := h ▸ a.synthesizer.complete_unwatched prompt w
  runWhole action := Surface.runWhole_alike a.surface.watched_alike action
  reveal := by
    rintro b _ after _ w _ rfl rfl rfl
    rfl

end Agent

theorem Session.beside_unwatched (s : Session (μ × List Exchange) (σ × List Command)) :
    s.Beside (fun w w' => w.unwatched = w') (fun b b' => b.1 = b') s.unwatched :=
  .mk rfl rfl

theorem CallLog.map_id : (CallLog.map id id : CallLog μ σ → CallLog μ σ) = id := by
  have turns : Turn.map (id : Session μ σ → Session μ σ) = id := rfl
  have answer : Answer.map id = id := by
    funext found
    cases found <;> rfl
  funext ⟨before, replayed, steps, result, after⟩
  rw [CallLog.map, turns, answer, List.map_id]
  cases result <;> rfl

/-- Watching makes no difference. -/
theorem Agent.logs_watched (a : Agent μ σ) (calls : List Call) (s : Session μ σ) :
    (a.watched.logs calls s.watched).map (CallLog.map Session.unwatched id) = a.logs calls s ∧
      (a.watched.after calls s.watched).unwatched = a.after calls s := by
  have view : Views (fun w w' => w.unwatched = w') (fun b b' => b.1 = b')
      (Session.unwatched (μ := μ) (σ := σ)) id id id := by
    constructor
    · rintro _ _ ⟨rfl, rfl⟩
      rfl
    · rintro _ _ ⟨rfl, rfl⟩
      rfl
  obtain ⟨logs, sessions⟩ := logs_agree a.simulates_watched s.watched.beside_unwatched view calls
  rw [CallLog.map_id, List.map_id] at logs
  exact ⟨logs, view.session sessions⟩

/-- The steps of a watched agent report the same. -/
theorem Agent.reports_watched (a : Agent μ σ) (calls : List Call) (s : Session μ σ) :
    ((a.watched.logs calls s.watched).flatMap (·.turns)).map (·.report) =
      ((a.logs calls s).flatMap (·.turns)).map (·.report) := by
  rw [← (a.logs_watched calls s).1, List.flatMap_map, List.map_flatMap, List.map_flatMap]
  simp only [CallLog.map, Turn.map, List.map_map, Function.comp_def]

theorem Agent.report_watched (a : Agent μ σ) (s : Session μ σ) :
    (a.watched.report s.watched).1 = (a.report s).1 := by
  have reports := a.reports_watched [.drive .step] s
  simpa [logs, log, turn] using reports

end BrowserAgent
