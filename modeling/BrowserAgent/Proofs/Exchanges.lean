import BrowserAgent.Proofs.CachedCompletions

/-!
# Exchanges with a model

Each time a request is sent the model gives an answer. A model can be watched without a difference
to what it answers; then every exchange is known, the ones with a transient error too.
-/

namespace BrowserAgent

/-- A request that was sent, and the answer to it. -/
structure Exchange where
  request : CompletionRequest
  answer : Except ModelError String

namespace Exchange

def isCompletion (e : Exchange) : Bool := e.answer.isOk

def isTransient (e : Exchange) : Bool :=
  match e.answer with
  | .ok _ => false
  | .error error => error.isTransient

def prompt (e : Exchange) : String := e.request.prompt

end Exchange

/-- Transient errors, which all are answers to the one request. -/
def AllTransient (request : CompletionRequest) (repeats : List Exchange) : Prop :=
  ∀ e ∈ repeats, e.request = request ∧ e.isTransient = true

theorem Exchange.isCompletion_iff {e : Exchange} :
    e.isCompletion = true ↔ ∃ completion, e.answer = .ok completion := by
  rw [isCompletion]
  cases e.answer <;> simp [Except.isOk, Except.toBool]

theorem Exchange.answer_ne_ok {e : Exchange} (h : e.isTransient = true) {completion : String} :
    e.answer ≠ .ok completion := by
  intro heq
  rw [isTransient, heq] at h
  cases h

theorem Exchange.isCompletion_of_transient {e : Exchange} (h : e.isTransient = true) :
    e.isCompletion = false := by
  rw [Bool.eq_false_iff]
  intro hcompletion
  obtain ⟨completion, heq⟩ := isCompletion_iff.mp hcompletion
  exact answer_ne_ok h heq

section

variable {request : CompletionRequest} {exchanges repeats : List Exchange} {last : Exchange}

theorem AllTransient.nil (request : CompletionRequest) : AllTransient request [] := by
  simp [AllTransient]

theorem AllTransient.completions (h : AllTransient request repeats) :
    (exchanges ++ (repeats ++ [last])).filter Exchange.isCompletion =
      exchanges.filter Exchange.isCompletion ++ [last].filter Exchange.isCompletion := by
  have none : repeats.filter Exchange.isCompletion = [] := by
    refine List.filter_eq_nil_iff.mpr fun e he => ?_
    simp [Exchange.isCompletion_of_transient (h e he).2]
  rw [List.filter_append, List.filter_append, none, List.nil_append]

theorem AllTransient.settled (h : AllTransient request repeats) (hl : last.isTransient = false) :
    (exchanges ++ (repeats ++ [last])).filter (!·.isTransient) =
      exchanges.filter (!·.isTransient) ++ [last] := by
  have none : repeats.filter (!·.isTransient) = [] :=
    List.filter_eq_nil_iff.mpr fun e he => by simp [(h e he).2]
  rw [List.filter_append, List.filter_append, none, List.filter_cons_of_pos (by simp [hl])]
  rfl

theorem AllTransient.transients (h : AllTransient request repeats)
    (hl : last.isTransient = false) :
    (exchanges ++ (repeats ++ [last])).countP Exchange.isTransient =
      exchanges.countP Exchange.isTransient + repeats.length := by
  have all : repeats.countP Exchange.isTransient = repeats.length :=
    List.countP_eq_length.mpr fun e he => (h e he).2
  rw [List.countP_append, List.countP_append, all, List.countP_singleton, hl]
  rfl

end

variable {μ : Type}

/-- The model with a list of all exchanges, oldest first. -/
def LanguageModel.watched (model : LanguageModel μ) : LanguageModel (μ × List Exchange) where
  complete request m :=
    let (answer, after) := model.complete request m.1
    (answer, after, m.2 ++ [⟨request, answer⟩])
  patience request m := model.patience request m.1
  patience_lt request m := model.patience_lt request m.1

def Synthesizer.watched (s : Synthesizer μ) : Synthesizer (μ × List Exchange) :=
  ⟨s.model.watched, s.temperature, s.maxTokens, s.reuse⟩

theorem Synthesizer.watched_model (s : Synthesizer μ) : s.watched.model = s.model.watched := rfl

theorem Synthesizer.watched_request (s : Synthesizer μ) (prompt : String) :
    s.watched.request prompt = s.request prompt := rfl

def Workbench.unwatched (w : Workbench (μ × List Exchange)) : Workbench μ := ⟨w.model.1, w.cache⟩

namespace LanguageModel

variable (model : LanguageModel μ) {request : CompletionRequest}

theorem ask_of_transient {m m' : μ} {reason : String}
    (h : model.complete request m = (.error (.transient reason), m')) :
    model.ask request m = model.ask request m' := by
  rw [ask]
  split <;> simp_all

/-- What asking adds to the exchanges: transient errors, then the answer that is none. -/
theorem ask_watched (request : CompletionRequest) (m : μ × List Exchange) :
    ∃ repeats last, model.watched.ask request m =
        ((model.ask request m.1).1, (model.ask request m.1).2, m.2 ++ (repeats ++ [last])) ∧
      AllTransient request repeats ∧
      last = ⟨request, (model.ask request m.1).1.mapError .fatal⟩ := by
  obtain ⟨m, past⟩ := m
  -- By induction on the patience, which every transient error lessens.
  induction hp : model.patience request m using Nat.strongRecOn generalizing m past with
  | ind p ih =>
    obtain ⟨answer, after, h⟩ : ∃ answer after, model.complete request m = (answer, after) :=
      ⟨_, _, rfl⟩
    have watched : model.watched.complete request (m, past) =
        (answer, after, past ++ [⟨request, answer⟩]) := by
      simp only [LanguageModel.watched, h]
    match answer with
    | .ok completion =>
      refine ⟨[], _, ?_, .nil _, rfl⟩
      rw [ask_of_ok _ watched, ask_of_ok _ h]
      rfl
    | .error (.fatal reason) =>
      refine ⟨[], _, ?_, .nil _, rfl⟩
      rw [ask_of_fatal _ watched, ask_of_fatal _ h]
      rfl
    | .error (.transient reason) =>
      have lt := model.patience_lt request m reason (by rw [h])
      rw [h, hp] at lt
      obtain ⟨repeats, last, hask, hrepeats, hlast⟩ :=
        ih _ lt after (past ++ [⟨request, .error (.transient reason)⟩]) rfl
      rw [ask_of_transient _ watched, hask, ask_of_transient _ h]
      refine ⟨⟨request, .error (.transient reason)⟩ :: repeats, last, ?_, ?_, hlast⟩
      · simp
      · exact List.forall_mem_cons.mpr ⟨⟨rfl, rfl⟩, hrepeats⟩

end LanguageModel

theorem Synthesizer.complete_unwatched (s : Synthesizer μ) (prompt : String)
    (w : Workbench (μ × List Exchange)) :
    (s.watched.complete prompt w).1 = (s.complete prompt w.unwatched).1 ∧
      (s.watched.complete prompt w).2.unwatched = (s.complete prompt w.unwatched).2 := by
  obtain ⟨reuse, completion, hc⟩ | missed := s.found_or_missed prompt w.cache
  · rw [s.watched.complete_of_found reuse hc, s.complete_of_found (w := w.unwatched) reuse hc]
    exact ⟨rfl, rfl⟩
  · obtain ⟨repeats, last, hask, -, -⟩ := s.model.ask_watched (s.request prompt) w.model
    rw [s.watched.complete_of_missed missed, s.complete_of_missed (w := w.unwatched) missed,
      s.watched_model, s.watched_request, hask]
    exact ⟨rfl, rfl⟩

/-! ## Requests -/

/-- A request for an action: the first for an instruction, or another in place of one that failed.
-/
inductive Ask where
  | first (i : Instruction)
  | again (previous : ActionRecord) (diagnostic : String)
deriving DecidableEq, Repr

namespace Ask

def instruction : Ask → Instruction
  | first i => i
  | again previous _ => previous.instruction

def prompt : Ask → String
  | first i => Prompt.action i
  | again previous diagnostic => Prompt.retry previous.instruction previous.action diagnostic

end Ask

/-- Requests that were made, each with its result, and the workbench after them. -/
structure Account (μ : Type) where
  answered : List (Ask × Except String ActionRecord)
  workbench : Workbench μ

namespace Synthesizer

variable (s : Synthesizer μ)

def perform (w : Workbench μ) : Ask → Except String ActionRecord × Workbench μ
  | .first i => s.synthesize i w
  | .again previous diagnostic => s.synthesizeRetry previous diagnostic w

def next (d : Account μ) (ask : Ask) : Account μ :=
  let (result, w) := s.perform d.workbench ask
  ⟨d.answered ++ [(ask, result)], w⟩

/-- Makes the requests, one after the other, with a cache that is empty at first. -/
def performAll (asks : List Ask) (m : μ) : Account μ := asks.foldl s.next ⟨[], ⟨m, .empty⟩⟩

theorem perform_eq (w : Workbench μ) (ask : Ask) :
    s.perform w ask =
      ((s.complete ask.prompt w).1.map (ActionRecord.mk ask.instruction),
        (s.complete ask.prompt w).2) := by
  cases ask <;> rfl

end Synthesizer

end BrowserAgent
