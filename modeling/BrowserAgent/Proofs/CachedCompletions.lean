import BrowserAgent.Proofs.Requests

/-!
# Cached completions

A request finds the completion of its prompt, or it is sent and its completion, if there is one, is
found from then on.
-/

namespace BrowserAgent

/-! ## The cache -/

namespace PromptCache

variable {prompt other : String}

theorem lookup_filter_of_ne (h : other ≠ prompt) (entries : List (String × String)) :
    (entries.filter fun entry => entry.1 != prompt).lookup other = entries.lookup other := by
  induction entries with
  | nil => rfl
  | cons entry entries ih =>
    obtain ⟨key, completion⟩ := entry
    by_cases hk : key = prompt
    · subst hk
      rw [List.filter_cons_of_neg (by simp), ih, List.lookup_cons, beq_false_of_ne h]
    · rw [List.filter_cons_of_pos (by simpa using hk), List.lookup_cons, List.lookup_cons, ih]

theorem get?_insert (c : PromptCache) (completion : String) :
    (c.insert prompt completion).get? other =
      if other = prompt then some completion else c.get? other := by
  rw [get?, insert, List.lookup_cons]
  by_cases h : other = prompt
  · rw [if_pos h, h, beq_self_eq_true]
  · rw [if_neg h, beq_false_of_ne h, lookup_filter_of_ne h, get?]

theorem get?_insert_of_kept {c : PromptCache} {completion kept : String}
    (hc : c.get? prompt = none) (h : c.get? other = some kept) :
    (c.insert prompt completion).get? other = some kept := by
  have hne : other ≠ prompt := by
    rintro rfl
    rw [hc] at h
    cases h
  rw [get?_insert, if_neg hne, h]

end PromptCache

/-! ## Requests -/

namespace Synthesizer

variable {μ : Type} (s : Synthesizer μ) {prompt : String} {w : Workbench μ}

theorem found_or_missed (prompt : String) (c : PromptCache) :
    (s.reuse = true ∧ ∃ completion, c.get? prompt = some completion) ∨
      (s.reuse = true → c.get? prompt = none) := by
  cases h : c.get? prompt with
  | none => exact .inr fun _ => rfl
  | some completion =>
    cases reuse : s.reuse with
    | true => exact .inl ⟨rfl, completion, rfl⟩
    | false => exact .inr fun reused => by cases reused

theorem complete_of_found {completion : String} (reuse : s.reuse = true)
    (h : w.cache.get? prompt = some completion) :
    s.complete prompt w = (.ok (Action.stripFences completion),
      { w with cache := { w.cache with hits := w.cache.hits + 1 } }) := by
  simp only [complete, lookUp, reuse, if_true, PromptCache.find, h]

/-- The cache after a prompt was sent: one lookup more, and the completion if there is one. -/
def keep (prompt : String) (c : PromptCache) : Except String String → PromptCache
  | .ok completion => { c with misses := c.misses + 1 }.insert prompt completion
  | .error _ => { c with misses := c.misses + 1 }

/-- A prompt is sent if completions are not reused or none is kept for it. -/
theorem complete_of_missed (h : s.reuse = true → w.cache.get? prompt = none) :
    s.complete prompt w =
      ((s.model.ask (s.request prompt) w.model).1.map Action.stripFences,
        ⟨(s.model.ask (s.request prompt) w.model).2,
          keep prompt w.cache (s.model.ask (s.request prompt) w.model).1⟩) := by
  have missed : s.lookUp prompt w.cache =
      (none, { w.cache with misses := w.cache.misses + 1 }) := by
    cases hr : s.reuse with
    | false => simp [lookUp, hr]
    | true => exact s.lookUp_of_absent (h hr)
  rw [complete, missed]
  rcases s.model.ask (s.request prompt) w.model with ⟨_ | completion, model⟩ <;> rfl

end Synthesizer

end BrowserAgent
