import BrowserAgent.Record

/-!
# The history of attempts

One record for each dispatched instruction. The last record is in flight until it is confirmed or
failed; a retry replaces its action and counts one attempt more. Every other record is final.
-/

namespace BrowserAgent

inductive AttemptState where
  /-- In flight: made, and not yet run to an end. -/
  | attempted
  /-- Ran without a failure. -/
  | confirmed
  | failed
deriving DecidableEq, Repr

def AttemptState.name : AttemptState → String
  | .attempted => "attempted"
  | .confirmed => "confirmed"
  | .failed => "failed"

structure AttemptRecord where
  instruction : Instruction
  action : String
  state : AttemptState
  /-- How many actions were made for the instruction so far. -/
  attempts : Nat
deriving DecidableEq, Repr

def AttemptRecord.toActionRecord (r : AttemptRecord) : ActionRecord := ⟨r.instruction, r.action⟩

structure History where
  /-- Oldest first. -/
  records : List AttemptRecord
deriving DecidableEq, Repr

namespace History

def empty : History := ⟨[]⟩

def start (h : History) (r : ActionRecord) : History :=
  ⟨h.records ++ [⟨r.instruction, r.action, .attempted, 1⟩]⟩

/-- The record in flight. -/
def current? (h : History) : Option AttemptRecord :=
  h.records.getLast?.filter fun r => r.state == .attempted

/-- The change made to the record in flight; without one nothing changes. -/
def modifyCurrent (f : AttemptRecord → AttemptRecord) (h : History) : History :=
  match h.current? with
  | some r => ⟨h.records.dropLast ++ [f r]⟩
  | none => h

/-- The record in flight takes the action of another record, and is given back. Its instruction
stays. -/
def replaceCurrent (h : History) (r : ActionRecord) : Option AttemptRecord × History :=
  match h.current? with
  | none => (none, h)
  | some current =>
    let replaced : AttemptRecord :=
      { current with action := r.action, state := .attempted, attempts := current.attempts + 1 }
    (some replaced, ⟨h.records.dropLast ++ [replaced]⟩)

def confirmCurrent (h : History) : History := h.modifyCurrent ({ · with state := .confirmed })

def failCurrent (h : History) : History := h.modifyCurrent ({ · with state := .failed })

/-- The records that did not fail. -/
def finished (h : History) : List AttemptRecord := h.records.filter fun r => r.state != .failed

def finishedInstructions (h : History) : List Instruction := h.finished.map (·.instruction)

def actionRecords (h : History) : List ActionRecord := h.records.map (·.toActionRecord)

/-! ## The record in flight -/

theorem current?_eq_some_iff {h : History} {r : AttemptRecord} :
    h.current? = some r ↔ h.records.getLast? = some r ∧ r.state = .attempted := by
  simp [current?, Option.filter_eq_some_iff]

theorem replaceCurrent_of_none {h : History} (none : h.current? = none) (r : ActionRecord) :
    h.replaceCurrent r = (.none, h) := by
  rw [replaceCurrent, none]

theorem replaceCurrent_of_some {h : History} {current : AttemptRecord}
    (flying : h.current? = some current) (r : ActionRecord) :
    let replaced := { current with action := r.action, attempts := current.attempts + 1 }
    h.replaceCurrent r = (some replaced, ⟨h.records.dropLast ++ [replaced]⟩) := by
  rw [replaceCurrent, flying, ← (current?_eq_some_iff.mp flying).2]

section

variable (past : List AttemptRecord) (i : Instruction) (action : String) (n : Nat)

theorem current?_append :
    (⟨past ++ [⟨i, action, .attempted, n⟩]⟩ : History).current? =
      some ⟨i, action, .attempted, n⟩ := by
  simp [current?]

theorem modifyCurrent_append (f : AttemptRecord → AttemptRecord) :
    (⟨past ++ [⟨i, action, .attempted, n⟩]⟩ : History).modifyCurrent f =
      ⟨past ++ [f ⟨i, action, .attempted, n⟩]⟩ := by
  simp [modifyCurrent, current?_append]

@[simp]
theorem confirmCurrent_append :
    (⟨past ++ [⟨i, action, .attempted, n⟩]⟩ : History).confirmCurrent =
      ⟨past ++ [⟨i, action, .confirmed, n⟩]⟩ :=
  modifyCurrent_append past i action n _

@[simp]
theorem failCurrent_append :
    (⟨past ++ [⟨i, action, .attempted, n⟩]⟩ : History).failCurrent =
      ⟨past ++ [⟨i, action, .failed, n⟩]⟩ :=
  modifyCurrent_append past i action n _

@[simp]
theorem replaceCurrent_append (r : ActionRecord) :
    (⟨past ++ [⟨i, action, .attempted, n⟩]⟩ : History).replaceCurrent r =
      (some ⟨i, r.action, .attempted, n + 1⟩, ⟨past ++ [⟨i, r.action, .attempted, n + 1⟩]⟩) := by
  simp [replaceCurrent_of_some (current?_append past i action n)]

theorem start_eq (h : History) (r : ActionRecord) :
    h.start r = ⟨h.records ++ [⟨r.instruction, r.action, .attempted, 1⟩]⟩ := rfl

end

end History

end BrowserAgent
