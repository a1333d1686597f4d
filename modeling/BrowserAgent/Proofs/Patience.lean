import BrowserAgent.Model
import Mathlib.Data.Nat.Find

/-!
# Patience

To have a patience with every request is to answer every request after finitely many transient
errors, whatever was asked before. So nothing else is assumed of a language model.
-/

namespace BrowserAgent.LanguageModel

variable {μ : Type}

/-! ## Asking -/

section

variable (model : LanguageModel μ) {request : CompletionRequest} {m m' : μ}

theorem ask_of_ok {completion : String} (h : model.complete request m = (.ok completion, m')) :
    model.ask request m = (.ok completion, m') := by
  rw [ask]
  split <;> simp_all

theorem ask_of_fatal {reason : String}
    (h : model.complete request m = (.error (.fatal reason), m')) :
    model.ask request m = (.error reason, m') := by
  rw [ask]
  split <;> simp_all

end

/-! ## Sending again -/

variable (complete : CompletionRequest → μ → Except ModelError String × μ)
  (request : CompletionRequest)

/-- The state after the request was sent so many times. -/
def afterSends : Nat → μ → μ
  | 0, m => m
  | n + 1, m => afterSends n (complete request m).2

/-- Sent once more after so many times, the request gets an answer that is no transient error. -/
def Settles (n : Nat) (m : μ) : Prop :=
  ∀ reason, (complete request (afterSends complete request n m)).1 ≠ .error (.transient reason)

theorem exists_settles (model : LanguageModel μ) (m : μ) :
    ∃ n, Settles model.complete request n m := by
  induction hp : model.patience request m using Nat.strongRecOn generalizing m with
  | ind p ih =>
    by_cases h : ∃ reason, (model.complete request m).1 = .error (.transient reason)
    · obtain ⟨reason, h⟩ := h
      have lt := model.patience_lt request m reason h
      obtain ⟨n, hn⟩ := ih _ (hp ▸ lt) _ rfl
      exact ⟨n + 1, hn⟩
    · exact ⟨0, fun reason hr => h ⟨reason, hr⟩⟩

/-- The models are the ways to answer that settle every request in the end. -/
theorem exists_model_iff :
    (∃ model : LanguageModel μ, model.complete = complete) ↔
      ∀ request m, ∃ n, Settles complete request n m := by
  constructor
  · rintro ⟨model, rfl⟩ request m
    exact exists_settles request model m
  · intro settles
    classical
    -- The patience is the number of sends until the request settles.
    refine ⟨⟨complete, fun request m => Nat.find (settles request m), ?_⟩, rfl⟩
    intro request m reason h
    have spec := Nat.find_spec (settles request m)
    cases hn : Nat.find (settles request m) with
    | zero =>
      rw [hn] at spec
      exact absurd h (spec reason)
    | succ n =>
      rw [hn] at spec
      exact Nat.lt_succ_of_le (Nat.find_min' _ spec)

end BrowserAgent.LanguageModel
