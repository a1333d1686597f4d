import BrowserAgent.Number.Binary

/-!
# Language models

A model answers a request with a completion or with an error. A transient error means that the
same request may be sent again. A model has a patience with every request, which every transient
error to it lessens, so no request is answered with transient errors for ever.
-/

namespace BrowserAgent

inductive ModelError where
  | transient (reason : String)
  | fatal (reason : String)
deriving DecidableEq, Repr

namespace ModelError

def message : ModelError → String
  | transient reason => "transient model error: " ++ reason
  | fatal reason => "model error: " ++ reason

def isTransient : ModelError → Bool
  | transient _ => true
  | fatal _ => false

end ModelError

structure CompletionRequest where
  prompt : String
  temperature : Number.Binary
  maxTokens : Nat
  /-- The completion ends before the first of these. -/
  stop : List String
deriving DecidableEq, Repr

structure LanguageModel (μ : Type) where
  complete : CompletionRequest → μ → Except ModelError String × μ
  patience : CompletionRequest → μ → Nat
  patience_lt (request : CompletionRequest) (m : μ) (reason : String) :
    (complete request m).1 = .error (.transient reason) →
      patience request (complete request m).2 < patience request m

namespace LanguageModel

variable {μ : Type} (model : LanguageModel μ)

/-- Sends the request until the answer is no transient error. The error is a fatal one. -/
def ask (request : CompletionRequest) (m : μ) : Except String String × μ :=
  match h : model.complete request m with
  | (.ok completion, after) => (.ok completion, after)
  | (.error (.fatal reason), after) => (.error reason, after)
  | (.error (.transient reason), after) =>
    -- Every transient error takes some of the patience.
    have : model.patience request after < model.patience request m := by
      have lt := model.patience_lt request m reason (by rw [h])
      rwa [h] at lt
    ask request after
termination_by model.patience request m

/-- A model whose answer depends on the prompt alone, and that never asks for patience. -/
def ofFunction (answer : String → Except String String) : LanguageModel Unit where
  complete request m :=
    match answer request.prompt with
    | .ok completion => (.ok completion, m)
    | .error reason => (.error (.fatal reason), m)
  patience _ _ := 0
  patience_lt request _ _ := by
    cases answer request.prompt <;> simp

end LanguageModel

/-! ## Answers written beforehand -/

/-- A model that gives the answers of a list in order. -/
structure ScriptedModel where
  answers : List (Except ModelError String)
  /-- The requests so far, oldest first. -/
  requests : List CompletionRequest

namespace ScriptedModel

def ofAnswers (answers : List (Except ModelError String)) : ScriptedModel := ⟨answers, []⟩

def push (m : ScriptedModel) (more : List (Except ModelError String)) : ScriptedModel :=
  { m with answers := m.answers ++ more }

/-- The next answer; when none is left that is an error. -/
def next (request : CompletionRequest) (m : ScriptedModel) :
    Except ModelError String × ScriptedModel :=
  match m.answers with
  | [] => (.error (.fatal "no scripted completion left"), ⟨[], m.requests ++ [request]⟩)
  | answer :: more => (answer, ⟨more, m.requests ++ [request]⟩)

def model : LanguageModel ScriptedModel where
  complete := next
  patience _ m := m.answers.length
  patience_lt request m reason h := by
    unfold next at h ⊢
    split at h <;> simp_all

end ScriptedModel

end BrowserAgent
