import BrowserAgent.Proofs.Calls
import BrowserAgent.Proofs.Exchanges

/-!
# Moves

A session asks for actions and runs them, one after the other; nothing else changes its workbench or
its surface. What a step asks for and runs follows from the answers and the failures: after a failure
it asks for an action in place of the one that failed, with the diagnostic of that failure.
-/

namespace BrowserAgent

/-- A request for an action with its result, or an action that was run. -/
inductive Move where
  | ask (request : Ask) (result : Except String String)
  | run (action : String) (result : Except ActionFailure Unit)

def Move.made? : Move → Option String
  | ask _ (.ok action) => some action
  | ask _ (.error _) | run .. => none

def madeIn (moves : List Move) : List String := moves.filterMap Move.made?

variable {μ σ : Type}

namespace Agent

/-- The moves lead from the one workbench and surface to the other. A model and a surface may keep
all that they are given, so for every model and surface these are the moves that are made, in order.
-/
inductive Does (a : Agent μ σ) : Workbench μ → σ → List Move → Workbench μ → σ → Prop
  | nil (w : Workbench μ) (b : σ) : Does a w b [] w b
  | ask {w w₁ w' : Workbench μ} {b b' : σ} {moves : List Move} {request : Ask}
    {result : Except String String} :
    a.synthesizer.complete request.prompt w = (result, w₁) → Does a w₁ b moves w' b' →
      Does a w b (.ask request result :: moves) w' b'
  | run {w w' : Workbench μ} {b b₁ b' : σ} {moves : List Move} {action : String}
    {result : Except ActionFailure Unit} :
    (a.surface.runWhole action).run b = (result, b₁) →
      Does a ⟨a.reveal b b₁ w.model, w.cache⟩ b₁ moves w' b' →
      Does a w b (.run action result :: moves) w' b'

def Leads (a : Agent μ σ) (s : Session μ σ) (moves : List Move) (s' : Session μ σ) : Prop :=
  a.Does s.workbench s.browser moves s'.workbench s'.browser

/-- The moves for an instruction once it has an action, with so many attempts left. -/
inductive Pursuit (a : Agent μ σ) (i : Instruction) : Nat → String → List Move → Prop
  | refused {left : Nat} {action token : String} :
    a.refusedToken? action = some token → Pursuit a i left action []
  | ran {left : Nat} {action : String} :
    a.refusedToken? action = none → Pursuit a i left action [.run action (.ok ())]
  | exhausted {action : String} {failure : ActionFailure} :
    a.refusedToken? action = none → Pursuit a i 0 action [.run action (.error failure)]
  | deserted {left : Nat} {action reason : String} {failure : ActionFailure} :
    a.refusedToken? action = none →
      Pursuit a i (left + 1) action [.run action (.error failure),
        .ask (.again ⟨i, action⟩ (a.diagnose failure)) (.error reason)]
  | again {left : Nat} {action next : String} {failure : ActionFailure} {moves : List Move} :
    a.refusedToken? action = none → Pursuit a i left next moves →
      Pursuit a i (left + 1) action (.run action (.error failure) ::
        .ask (.again ⟨i, action⟩ (a.diagnose failure)) (.ok next) :: moves)

/-- The moves of a step that takes the instruction. -/
inductive Pursued (a : Agent μ σ) (i : Instruction) : List Move → Prop
  | denied (reason : String) : Pursued a i [.ask (.first i) (.error reason)]
  | made {action : String} {moves : List Move} :
    a.Pursuit i (a.settings.maxAttempts - 1) action moves →
      Pursued a i (.ask (.first i) (.ok action) :: moves)

section

variable {a : Agent μ σ} {w w₁ w₂ : Workbench μ} {b b₁ b₂ : σ} {xs ys : List Move}
  {i : Instruction} {action : String} {s s₁ : Session μ σ} {past : List AttemptRecord}

theorem Does.append (h : a.Does w b xs w₁ b₁) (h' : a.Does w₁ b₁ ys w₂ b₂) :
    a.Does w b (xs ++ ys) w₂ b₂ := by
  induction h with
  | nil => exact h'
  | ask asked _ ih => exact .ask asked (ih h')
  | run ran _ ih => exact .run ran (ih h')

theorem Does.of_execute {result : Except ActionFailure Unit}
    (hx : a.execute action s = (result, s₁)) (h : a.Does s₁.workbench s₁.browser xs w b) :
    a.Does s.workbench s.browser (.run action result :: xs) w b := by
  obtain rfl : s₁ = (a.execute action s).2 := by rw [hx]
  obtain rfl : result = (a.execute action s).1 := by rw [hx]
  exact .run rfl h

/-! ## Attempts -/

/-- The attempts lead to the session by the moves of a pursuit. The record of the instruction then
has the last of its actions, and counts them, where so many were made before. -/
def Pursues (a : Agent μ σ) (i : Instruction) (left made : Nat) (past : List AttemptRecord)
    (action : String) (s s' : Session μ σ) : Prop :=
  ∃ moves, a.Pursuit i left action moves ∧ a.Leads s moves s' ∧ ∃ state, s'.history =
    ⟨past ++ [⟨i, (madeIn moves).getLast?.getD action, state, made + (madeIn moves).length⟩]⟩

variable {index left made : Nat} {prompt : String} {failure : ActionFailure}

theorem Pursues.cons {next : String} {s' : Session μ σ} (h : a.refusedToken? action = none)
    (hx : a.execute action s = (.error failure, s₁))
    (asked : a.synthesizer.complete (Prompt.retry i action (a.diagnose failure)) s₁.workbench =
      (.ok next, w))
    (later : a.Pursues i left (made + 1) past next
      { s₁ with
        history := ⟨past ++ [⟨i, next, .attempted, made + 1⟩]⟩
        workbench := w } s') :
    a.Pursues i (left + 1) made past action s s' := by
  obtain ⟨moves, pursuit, leads, state, history⟩ := later
  refine ⟨_, .again h pursuit, .of_execute hx (.ask asked leads), state, ?_⟩
  have last : (madeIn (.run action (.error failure) ::
      .ask (.again ⟨i, action⟩ (a.diagnose failure)) (.ok next) :: moves)) =
      next :: madeIn moves := rfl
  rw [history, last, List.getLast?_cons, Option.getD_some, List.length_cons, Nat.add_right_comm,
    Nat.add_assoc made]

theorem Tries.pursues {report : StepReport} {s' : Session μ σ}
    (h : a.Tries i index past left made prompt action s report s') :
    a.Pursues i left made past action s s' := by
  induction h with
  | refused h => exact ⟨_, .refused h, .nil _ _, .failed, by simp [madeIn]⟩
  | ran h hx =>
    exact ⟨_, .ran h, .of_execute hx (.nil _ _), .confirmed, by simp [madeIn, Move.made?]⟩
  | exhausted h hx | surfaced h hx =>
    exact ⟨_, .exhausted h, .of_execute hx (.nil _ _), .failed, by simp [madeIn, Move.made?]⟩
  | deserted h hx asked =>
    exact ⟨_, .deserted h, .of_execute hx (.ask asked (.nil _ _)), .attempted, rfl⟩
  | again h hx asked _ ih => exact ih.cons h hx asked

/-! ## Steps -/

theorem report_pursues (a : Agent μ σ) {s : Session μ σ} (hi : s.next? = some i) :
    ∃ moves, a.Pursued i moves ∧ a.Leads s moves (a.report s).2 ∧
      match (madeIn moves).getLast? with
      | none => (a.report s).2.history = s.history
      | some action => ∃ state, (a.report s).2.history =
        ⟨s.history.records ++ [⟨i, action, state, (madeIn moves).length⟩]⟩ := by
  obtain ⟨rest, hq⟩ : ∃ rest, s.skipBlank.queue = i :: rest := by
    obtain ⟨rest, hq⟩ := List.head?_eq_some_iff.mp hi
    exact ⟨rest, hq⟩
  obtain ⟨result, w, hc⟩ : ∃ result w, a.synthesizer.complete (Prompt.action i) s.workbench =
    (result, w) := ⟨_, _, rfl⟩
  have hm := Synthesizer.synthesize_of_complete hc
  cases result with
  | error reason =>
    rw [a.report_of_error hq hm]
    exact ⟨_, .denied reason, .ask hc (.nil _ _), rfl⟩
  | ok action =>
    rw [a.report_of_ok hq hm]
    have tries := a.attempt_tries s.dispatched (a.settings.maxAttempts - 1) 1 (Prompt.action i)
      action
      { s.skipBlank with
        queue := rest, dispatched := s.dispatched + 1, workbench := w,
        history := ⟨s.history.records ++ [⟨i, action, .attempted, 1⟩]⟩ } rfl
    obtain ⟨moves, pursuit, leads, state, history⟩ := tries.pursues
    refine ⟨_, .made pursuit, .ask hc leads, ?_⟩
    have last : madeIn (.ask (.first i) (.ok action) :: moves) = action :: madeIn moves := rfl
    rw [last, List.getLast?_cons, List.length_cons,
      Nat.add_comm (madeIn moves).length]
    exact ⟨state, history⟩

theorem step_snd (a : Agent μ σ) (s : Session μ σ) : (a.step s).2 = (a.report s).2 := rfl

theorem report_idles (a : Agent μ σ) {s : Session μ σ} (hi : s.next? = none) :
    a.Leads s [] (a.report s).2 := by
  rw [a.report_of_nil (List.head?_eq_none_iff.mp hi)]
  exact .nil _ _

/-! ## Calls -/

variable {P : Instruction → Prop} {s' : Session μ σ} {moves : List Move}

/-- All that is asked for is asked for instructions of a kind. -/
def AsksFor (P : Instruction → Prop) (moves : List Move) : Prop :=
  ∀ request result, .ask request result ∈ moves → P request.instruction

theorem Pursuit.asksFor {left : Nat} (h : a.Pursuit i left action moves) (hi : P i) :
    AsksFor P moves := by
  induction h with
  | refused | ran | exhausted => simp [AsksFor]
  | deserted => simp [AsksFor, Ask.instruction, hi]
  | again _ _ ih =>
    intro request result hmem
    simp only [List.mem_cons, reduceCtorEq, Move.ask.injEq, false_or] at hmem
    rcases hmem with ⟨rfl, -⟩ | hmem
    · exact hi
    · exact ih request result hmem

theorem Pursued.asksFor (h : a.Pursued i moves) (hi : P i) : AsksFor P moves := by
  cases h with
  | denied => simp [AsksFor, Ask.instruction, hi]
  | made pursuit =>
    intro request result hmem
    rcases List.mem_cons.mp hmem with heq | hmem
    · cases heq
      exact hi
    · exact pursuit.asksFor hi request result hmem

/-- The moves between the sessions, all for instructions of the kind, which the queue holds before
and after. -/
def Moved (a : Agent μ σ) (P : Instruction → Prop) (s s' : Session μ σ) : Prop :=
  (∃ moves, a.Leads s moves s' ∧ AsksFor P moves) ∧ ∀ i ∈ s'.queue, P i

theorem Stepped.queue_subset {report : StepReport} (h : a.Stepped s report s') :
    s'.queue ⊆ s.queue := by
  have taken : s.skipBlank.queue ⊆ s.queue := (List.dropWhile_suffix _).subset
  cases h with
  | idle => exact taken
  | unmade hq => exact fun i hi => taken (hq ▸ List.mem_cons_of_mem _ hi)
  | made _ h => exact fun i hi => taken (h.queue ▸ List.mem_cons_of_mem _ hi)

theorem mem_queue_of_next? (h : s.next? = some i) : i ∈ s.queue :=
  (List.dropWhile_suffix _).subset (List.mem_of_head? h)

theorem report_moved (a : Agent μ σ) (hs : ∀ i ∈ s.queue, P i) : a.Moved P s (a.report s).2 := by
  refine ⟨?_, fun i hi => hs i ((a.report_stepped s).queue_subset hi)⟩
  cases hi : s.next? with
  | none => exact ⟨[], a.report_idles hi, by simp [AsksFor]⟩
  | some i =>
    obtain ⟨moves, pursued, leads, -⟩ := a.report_pursues hi
    exact ⟨moves, leads, pursued.asksFor (hs i (mem_queue_of_next? hi))⟩

theorem Moved.trans {s₂ : Session μ σ} (h : a.Moved P s s₁) (h' : a.Moved P s₁ s₂) :
    a.Moved P s s₂ := by
  obtain ⟨⟨xs, led, asks⟩, -⟩ := h
  obtain ⟨⟨ys, led', asks'⟩, queue⟩ := h'
  refine ⟨⟨xs ++ ys, led.append led', fun request result hmem => ?_⟩, queue⟩
  exact (List.mem_append.mp hmem).elim (asks request result) (asks' request result)

theorem Chain.moved {turns : List (Turn μ σ)} (h : a.Chain s turns s') (hs : ∀ i ∈ s.queue, P i) :
    a.Moved P s s' := by
  induction h with
  | nil s => exact ⟨⟨[], .nil _ _, by simp [AsksFor]⟩, hs⟩
  | @cons s s' turns _ ih =>
    have first : a.Moved P s (a.turn s).after := a.report_moved hs
    exact first.trans (ih first.2)

theorem play_moved (a : Agent μ σ) (records : List ActionRecord) (hs : ∀ i ∈ s.queue, P i) :
    a.Moved P s (a.play records s).session := by
  induction records generalizing s with
  | nil => exact ⟨⟨[], .nil _ _, by simp [AsksFor]⟩, hs⟩
  | cons r more ih =>
    obtain ⟨result, s₁, hx⟩ : ∃ result s₁, a.execute r.action s = (result, s₁) := ⟨_, _, rfl⟩
    have ran : a.Moved P s s₁ := by
      refine ⟨⟨[.run r.action result], .of_execute hx (.nil _ _), by simp [AsksFor]⟩, ?_⟩
      rw [(execute_frame hx).2.1]
      exact hs
    cases result with
    | ok =>
      have added : ∀ i ∈ (s₁.addReplayed r).queue, P i := ran.2
      rw [play, hx]
      exact ran.trans (ih added)
    | error failure =>
      rw [play, hx]
      exact ran

theorem stopped_suffix {records rest : List ActionRecord} {failure : ActionFailure}
    (h : (a.play records s).stopped = some (failure, rest)) : rest <:+ records := by
  induction records generalizing s with
  | nil => cases h
  | cons r more ih =>
    obtain ⟨result, s₁, hx⟩ : ∃ result s₁, a.execute r.action s = (result, s₁) := ⟨_, _, rfl⟩
    rw [play, hx] at h
    cases result with
    | ok => exact (ih h).trans (List.suffix_cons r more)
    | error =>
      cases h
      exact List.suffix_rfl

theorem replay_moved (a : Agent μ σ) (records : List ActionRecord) (explicitSteps : Bool)
    (hs : ∀ i ∈ s.queue, P i) (hr : ∀ r ∈ records, P r.instruction) :
    a.Moved P s (a.replay records explicitSteps s).2 := by
  have played := a.play_moved records hs
  rw [replay, replayFrom_eq]
  cases hstop : (a.play records s).stopped with
  | none =>
    simp only [hstop]
    exact played
  | some stopped =>
    obtain ⟨failure, rest⟩ := stopped
    simp only [hstop]
    split
    · have queued : ∀ i ∈ rest.map (·.instruction), P i := List.forall_mem_map.mpr fun r hmem =>
        hr r ((stopped_suffix hstop).subset hmem)
      have stepping : a.Moved P s
          { (a.play records s).session with queue := rest.map (·.instruction) } := ⟨played.1, queued⟩
      exact stepping.trans ((a.run_chain _).moved queued)
    · exact played

theorem log_moved (a : Agent μ σ) (c : Call) (hs : ∀ i ∈ s.queue, P i)
    (hc : ∀ records explicitSteps, c = .replay records explicitSteps →
      ∀ r ∈ records, P r.instruction) : a.Moved P s (a.log c s).after := by
  cases c with
  | drive d => exact (a.log_chain d s).moved hs
  | replay records explicitSteps =>
    exact a.replay_moved records explicitSteps hs (hc records explicitSteps rfl)

theorem after_moved (a : Agent μ σ) (calls : List Call) (hs : ∀ i ∈ s.queue, P i)
    (hc : ∀ records explicitSteps, .replay records explicitSteps ∈ calls →
      ∀ r ∈ records, P r.instruction) : a.Moved P s (a.after calls s) := by
  induction calls generalizing s with
  | nil => exact ⟨⟨[], .nil _ _, by simp [AsksFor]⟩, hs⟩
  | cons c calls ih =>
    have first : a.Moved P s (a.log c s).after := a.log_moved c hs fun records e heq =>
      hc records e (heq ▸ List.mem_cons_self)
    exact first.trans (ih first.2 fun records e hmem => hc records e (List.mem_cons_of_mem _ hmem))

end

end Agent

end BrowserAgent
