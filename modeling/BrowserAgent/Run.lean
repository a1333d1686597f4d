/-!
# Runs

A run may change a state and ends with a value or an error; an error keeps the changes.
-/

namespace BrowserAgent

abbrev Run (σ ε α : Type) := ExceptT ε (StateM σ) α

/-- The run that changes nothing and ends so. -/
def Run.ofExcept {σ ε α : Type} (result : Except ε α) : Run σ ε α := ExceptT.mk (pure result)

/-- The run with its errors put in another way. -/
def Run.mapError {σ ε ε' α : Type} (f : ε → ε') (run : Run σ ε α) : Run σ ε' α :=
  ExceptT.mk fun state =>
    let (result, state) := ExceptT.run run state
    (result.mapError f, state)

end BrowserAgent
