/-!
# The prompt cache

Completions by the prompt that asked for them, with a count of the lookups that found one and of
those that did not. A later completion for a prompt takes the place of the earlier one.
-/

namespace BrowserAgent

structure PromptCache where
  /-- No prompt occurs twice. -/
  entries : List (String × String)
  hits : Nat
  misses : Nat
deriving DecidableEq, Repr

namespace PromptCache

def empty : PromptCache := ⟨[], 0, 0⟩

def size (c : PromptCache) : Nat := c.entries.length

def get? (c : PromptCache) (prompt : String) : Option String := c.entries.lookup prompt

/-- A counted lookup. -/
def find (c : PromptCache) (prompt : String) : Option String × PromptCache :=
  match c.get? prompt with
  | some completion => (some completion, { c with hits := c.hits + 1 })
  | none => (none, { c with misses := c.misses + 1 })

def insert (c : PromptCache) (prompt completion : String) : PromptCache :=
  { c with entries := (prompt, completion) :: c.entries.filter fun entry => entry.1 != prompt }

end PromptCache

end BrowserAgent
