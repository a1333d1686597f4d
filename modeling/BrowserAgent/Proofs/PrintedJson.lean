import BrowserAgent.Json.Decoder
import BrowserAgent.Json.Printer
import BrowserAgent.Proofs.FormatLaws

/-!
# Reading printed JSON

What was printed over several lines is read back: each decoder passes the text of a value that it
reads, with blanks before it, and stops directly behind.
-/

namespace BrowserAgent.Json

namespace Reader

variable {α β : Type} {text between rest : List Char} {c : Char}

/-- The reader passes the text up to the rest and ends with the value. -/
def Passes (x : Reader α) (text : List Char) (value : α) (rest : List Char) : Prop :=
  ∀ index, ∃ after, x.run ⟨text, index⟩ = .ok (value, ⟨rest, after⟩)

/-! ## Single steps -/

theorem passes_pure (value : α) : Passes (pure value) rest value rest := fun index => ⟨index, rfl⟩

theorem Passes.bind {x : Reader α} {f : α → Reader β} {a : α} {b : β}
    (first : Passes x text a between) (second : Passes (f a) between b rest) :
    Passes (x >>= f) text b rest := by
  intro index
  obtain ⟨middle, hx⟩ := first index
  obtain ⟨after, hf⟩ := second middle
  refine ⟨after, ?_⟩
  rw [StateT.run_bind, hx]
  exact hf

theorem Passes.map {x : Reader α} {a : α} (g : α → β) (h : Passes x text a rest) :
    Passes (g <$> x) text (g a) rest := by
  rw [map_eq_pure_bind]
  exact h.bind (passes_pure (g a))

/-- The character with which a text, a list or an object starts. -/
def opening? : JsonValue → Option Char
  | .text _ => some '"'
  | .list _ => some '['
  | .object _ => some '\x7b'
  | _ => none

/-- The reader reads the value wherever it is printed, behind any blanks. -/
def Reads ⦃α : Type⦄ (x : Reader α) (v : JsonValue) (a : α) : Prop :=
  (opening? v).isSome ∧ ∀ level blanks rest, (∀ b ∈ blanks, isBlank b = true) →
    Passes x (blanks ++ ((v.pretty level).toList ++ rest)) a rest

end Reader

end BrowserAgent.Json
