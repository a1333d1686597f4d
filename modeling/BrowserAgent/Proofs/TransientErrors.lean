import BrowserAgent.Proofs.Watching
import Mathlib.Data.List.Destutter

/-!
# Transient errors

A run takes no notice of transient errors. Without them in the answers of a model everything is as
it was, and the same requests are sent, but none is sent again.
-/

namespace BrowserAgent

variable {σ : Type}

/-- The request may be sent again. -/
def ScriptedModel.isTransient : Except ModelError String → Bool
  | .ok _ => false
  | .error e => e.isTransient

/-- The session apart from the model. -/
def Session.withoutModel {μ : Type} (s : Session μ σ) : Session Unit σ :=
  ⟨s.queue, s.history, ⟨(), s.workbench.cache⟩, s.browser, s.phase, s.dispatched, s.tally⟩

/-! ## Requests sent again -/

/-- After every transient error the same request is sent. -/
inductive Resent : List Exchange → Prop
  | nil : Resent []
  | settled {e : Exchange} {more : List Exchange} : e.isTransient = false → Resent more →
    Resent (e :: more)
  | again {e next : Exchange} {more : List Exchange} : e.isTransient = true →
    next.request = e.request → Resent (next :: more) → Resent (e :: next :: more)

namespace Resent

variable {exchanges more : List Exchange}

theorem append (h : Resent exchanges) (h' : Resent more) : Resent (exchanges ++ more) := by
  induction h with
  | nil => exact h'
  | settled he _ ih => exact .settled he ih
  | again he hr _ ih => exact .again he hr ih

theorem of_repeats {repeats : List Exchange} {last : Exchange}
    (h : AllTransient last.request repeats) (hl : last.isTransient = false) :
    Resent (repeats ++ [last]) := by
  induction repeats with
  | nil => exact .settled hl .nil
  | cons e repeats ih =>
    obtain ⟨⟨hr, he⟩, h⟩ := List.forall_mem_cons.mp h
    have later := ih h
    cases repeats with
    | nil => exact .again he hr.symm later
    | cons next repeats => exact .again he ((h next List.mem_cons_self).1.trans hr.symm) later

/-- Behind any request the transient errors only repeat what is sent after them. -/
theorem destutter' (h : Resent exchanges) (request : CompletionRequest) :
    (exchanges.map (·.request)).destutter' (· ≠ ·) request =
      ((exchanges.filter fun e => !e.isTransient).map (·.request)).destutter' (· ≠ ·) request := by
  induction h generalizing request with
  | nil => rfl
  | @settled e more he _ ih =>
    rw [List.filter_cons_of_pos (by simp [he]), List.map_cons, List.map_cons, List.destutter',
      List.destutter', ih, ih]
  | @again e next more he hr _ ih =>
    rw [List.filter_cons_of_neg (by simp [he]), ← ih, List.map_cons, List.map_cons, hr]
    by_cases hn : request ≠ e.request
    · rw [List.destutter'_cons_pos _ hn, List.destutter'_cons_pos _ hn,
        List.destutter'_cons_neg _ (by simp)]
    · rw [List.destutter'_cons_neg _ hn]

/-- Without the transient errors the same requests follow one another. -/
theorem destutter (h : Resent exchanges) :
    (exchanges.map (·.request)).destutter (· ≠ ·) =
      ((exchanges.filter fun e => !e.isTransient).map (·.request)).destutter (· ≠ ·) := by
  induction h with
  | nil => rfl
  | @settled e more he h _ =>
    rw [List.filter_cons_of_pos (by simp [he])]
    exact h.destutter' e.request
  | @again e next more he hr _ ih =>
    rw [List.filter_cons_of_neg (by simp [he]), ← ih, List.map_cons, List.map_cons, hr]
    exact List.destutter'_cons_neg _ (by simp)

end Resent

/-! ## Answers without transient errors -/

section

open ScriptedModel (isTransient model)

/-- From a script with transient errors and from the same without them a request gets the same
answer; the errors passed over on the way are the only difference. -/
theorem ScriptedModel.ask_settled (request : CompletionRequest)
    (answers : List (Except ModelError String)) (sent sent' : List CompletionRequest)
    (past past' : List Exchange) :
    ∃ result left later later' repeats last,
      model.watched.ask request (⟨answers, sent⟩, past) =
        (result, ⟨left, later⟩, past ++ (repeats ++ [last])) ∧
      model.watched.ask request (⟨answers.filter (!isTransient ·), sent'⟩, past') =
        (result, ⟨left.filter (!isTransient ·), later'⟩, past' ++ [last]) ∧
      AllTransient last.request repeats ∧ last.request = request ∧ last.isTransient = false ∧
      answers.countP isTransient = repeats.length + left.countP isTransient := by
  -- On the script: an error that may be passed over stands in the one and is missing in the other.
  induction answers generalizing sent past with
  | nil =>
    exact ⟨_, _, _, _, [], _, model.watched.ask_of_fatal rfl, model.watched.ask_of_fatal rfl,
      .nil _, rfl, rfl, rfl⟩
  | cons answer more ih =>
    cases answer with
    | ok completion =>
      exact ⟨_, _, _, _, [], _, model.watched.ask_of_ok rfl, model.watched.ask_of_ok rfl,
        .nil _, rfl, rfl, by simp [isTransient]⟩
    | error e =>
      cases e with
      | fatal reason =>
        exact ⟨_, _, _, _, [], _, model.watched.ask_of_fatal rfl, model.watched.ask_of_fatal rfl,
          .nil _, rfl, rfl, by simp [isTransient, ModelError.isTransient]⟩
      | transient reason =>
        let e : Exchange := ⟨request, .error (.transient reason)⟩
        obtain ⟨result, left, later, later', repeats, last, hask, hask', hrepeats, hrequest, hlast,
          hcount⟩ := ih (sent ++ [request]) (past ++ [e])
        refine ⟨result, left, later, later', e :: repeats, last, ?_, hask', ?_, hrequest, hlast, ?_⟩
        · rw [model.watched.ask_of_transient rfl]
          simpa [e] using hask
        · exact List.forall_mem_cons.mpr ⟨⟨hrequest.symm, rfl⟩, hrepeats⟩
        · rw [List.countP_cons_of_pos (by rfl), hcount, List.length_cons]
          omega

/-- A model with transient errors in its script, so many in all, and one without them. -/
structure Resending (transients : Nat) (m m' : ScriptedModel × List Exchange) : Prop where
  answers : m'.1.answers = m.1.answers.filter (!isTransient ·)
  exchanges : m'.2 = m.2.filter (!·.isTransient)
  resent : Resent m.2
  transients : m.2.countP Exchange.isTransient + m.1.answers.countP isTransient = transients

variable {n : Nat} {m m' : ScriptedModel × List Exchange}

theorem Resending.ask (h : Resending n m m') (request : CompletionRequest) :
    Agree (Resending n) (model.watched.ask request m) (model.watched.ask request m') := by
  obtain ⟨⟨answers, sent⟩, past⟩ := m
  obtain ⟨⟨answers', sent'⟩, past'⟩ := m'
  obtain rfl : answers' = answers.filter (!isTransient ·) := h.answers
  obtain rfl : past' = past.filter (!·.isTransient) := h.exchanges
  obtain ⟨result, left, later, later', repeats, last, hask, hask', hrepeats, -, hlast, hcount⟩ :=
    ScriptedModel.ask_settled request answers sent sent' past (past.filter (!·.isTransient))
  rw [hask, hask']
  refine ⟨rfl, rfl, ?_, h.resent.append (.of_repeats hrepeats hlast), ?_⟩
  · exact (hrepeats.settled hlast).symm
  · have := h.transients
    rw [hrepeats.transients hlast]
    simp only at this ⊢
    omega

end

/-! ## Runs -/

variable (temperature : Number.Binary) (maxTokens : Nat) (reuse : Bool) (surface : Surface σ)
  (settings : EngineSettings)

/-- An agent whose model has its answers written beforehand. -/
def Agent.scripted : Agent ScriptedModel σ :=
  .apart ⟨ScriptedModel.model, temperature, maxTokens, reuse⟩ surface settings

/-- The same cache, and models that differ in transient errors. -/
structure Workbench.Resending (transients : Nat) (w w' : Workbench (ScriptedModel × List Exchange)) :
    Prop where
  cache : w.cache = w'.cache
  model : BrowserAgent.Resending transients w.model w'.model

theorem Workbench.Resending.complete {n : Nat} {w w' : Workbench (ScriptedModel × List Exchange)}
    (h : w.Resending n w') (s : Synthesizer ScriptedModel) (hs : s.model = ScriptedModel.model)
    (prompt : String) :
    Agree (Resending n) (s.watched.complete prompt w) (s.watched.complete prompt w') := by
  obtain ⟨m, cache⟩ := w
  obtain ⟨m', cache'⟩ := w'
  obtain rfl : cache = cache' := h.cache
  obtain ⟨reuse, completion, hc⟩ | missed := s.watched.found_or_missed prompt cache
  · rw [s.watched.complete_of_found reuse hc, s.watched.complete_of_found reuse hc]
    exact ⟨rfl, rfl, h.model⟩
  · obtain ⟨result, models⟩ := h.model.ask (s.request prompt)
    rw [s.watched.complete_of_missed missed, s.watched.complete_of_missed missed, s.watched_model,
      s.watched_request, hs]
    exact ⟨congrArg (Except.map _) result, congrArg (Synthesizer.keep prompt cache) result, models⟩

theorem Agent.simulates_resending (n : Nat) :
    let a : Agent ScriptedModel σ := .scripted temperature maxTokens reuse surface settings
    a.watched.Simulates a.watched (Workbench.Resending n) Eq where
  settings := rfl
  hostName := rfl
  complete prompt w w' h := h.complete _ rfl prompt
  runWhole action := by
    rintro b _ rfl
    exact ⟨rfl, rfl⟩
  reveal := by
    rintro b _ after _ w w' rfl rfl h
    exact h

theorem Workbench.Resending.views (n : Nat) :
    Views (Resending n) Eq
      (fun s : Session (ScriptedModel × List Exchange) (σ × List Command) =>
        s.unwatched.withoutModel) (fun t => t.unwatched.withoutModel) id id where
  session := by
    rintro _ _ ⟨hw, rfl⟩
    simp only [Session.withoutModel, Session.unwatched, Workbench.unwatched, hw.cache]
  summary := by
    rintro _ _ ⟨hw, rfl⟩
    simp only [Session.summary, hw.cache, id]

/-- Whatever is called, on any surface: from a script with transient errors and from the same script
without them everything that a session does is the same, its document too, and so is every command
given to the surface. The exchanges with the model are the same apart from those with a transient
error, and each of these only sends a request once more that is sent after it. -/
theorem Agent.transient_errors_unseen (queue : List Instruction)
    (answers : List (Except ModelError String)) (browser : σ) (calls : List Call) :
    let a : Agent ScriptedModel σ := .scripted temperature maxTokens reuse surface settings
    let s : Session ScriptedModel σ := .start queue (.ofAnswers answers) browser
    let t : Session ScriptedModel σ :=
      .start queue (.ofAnswers (answers.filter (!ScriptedModel.isTransient ·))) browser
    (a.logs calls s).map (CallLog.map Session.withoutModel id) =
        (a.logs calls t).map (CallLog.map Session.withoutModel id) ∧
      (a.after calls s).withoutModel = (a.after calls t).withoutModel ∧
      (a.after calls s).document = (a.after calls t).document ∧
      a.commands calls s = a.commands calls t ∧
      a.exchanges calls t = (a.exchanges calls s).filter (!·.isTransient) ∧
      ((a.exchanges calls s).map (·.request)).destutter (· ≠ ·) =
        ((a.exchanges calls t).map (·.request)).destutter (· ≠ ·) ∧
      (a.exchanges calls s).length =
        (a.exchanges calls t).length + (a.exchanges calls s).countP Exchange.isTransient ∧
      answers.countP ScriptedModel.isTransient =
        (a.exchanges calls s).countP Exchange.isTransient +
          (a.after calls s).workbench.model.answers.countP ScriptedModel.isTransient := by
  intro a s t
  let n := answers.countP ScriptedModel.isTransient
  have start : s.watched.Beside (Workbench.Resending n) Eq t.watched :=
    .mk ⟨rfl, rfl, rfl, .nil, Nat.zero_add _⟩ rfl
  have view := Workbench.Resending.views (σ := σ) n
  obtain ⟨logs, sessions⟩ := logs_agree
    (simulates_resending temperature maxTokens reuse surface settings n) start view calls
  obtain ⟨logs_s, after_s⟩ := a.logs_watched calls s
  obtain ⟨logs_t, after_t⟩ := a.logs_watched calls t
  have seen : (a.after calls s).withoutModel = (a.after calls t).withoutModel := by
    rw [← after_s, ← after_t]
    exact view.session sessions
  have models : Resending n _ _ := sessions.workbench.model
  have exchanges : a.exchanges calls t = (a.exchanges calls s).filter (!·.isTransient) :=
    models.exchanges
  refine ⟨?_, seen, congrArg (fun s : Session Unit σ => s.document) seen,
    congrArg Prod.snd sessions.browser, exchanges, ?_, ?_, ?_⟩
  · simp only [← logs_s, ← logs_t, List.map_map, Function.comp_def, CallLog.map_map]
    exact logs
  · rw [exchanges]
    exact models.resent.destutter
  · rw [exchanges, List.length_eq_countP_add_countP Exchange.isTransient, Nat.add_comm,
      ← List.countP_eq_length_filter]
    simp only [Bool.not_eq_true, Bool.decide_eq_false]
  · rw [← after_s]
    exact models.transients.symm

end BrowserAgent
