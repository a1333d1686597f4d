import BrowserAgent.Mismatch

/-!
# Decoding

What a program keeps may be written in several text formats. A format says how its texts, its
lists, its values that may be absent and its records are decoded; with that, what is kept is
described once for all formats.
-/

namespace BrowserAgent.Decoding

/-- A part of a record. -/
structure Field (D : Type → Type) (α : Type) where
  name : String
  /-- The part may be missing. -/
  isOptional : Bool
  /-- Puts the part into the record. -/
  decode : D (α → α)

/-- A record starts without its parts and takes them one by one. -/
structure Record (D : Type → Type) (α : Type) where
  name : String
  start : α
  fields : List (Field D α)

/-- The decoders of a format. -/
structure Format (D : Type → Type) where
  text : D String
  list {α : Type} : D α → D (List α)
  /-- A value that may be absent. -/
  optional {α : Type} : D α → D (Option α)
  /-- A record holds each of its parts at most once. What else it holds is passed over. -/
  record {α : Type} : Record D α → D α

/-! ## What is wanted, as messages call it -/

def textName : String := "a string"

def listName : String := "a sequence"

def Record.wanted {D : Type → Type} {α : Type} (r : Record D α) : String := "struct " ++ r.name

/-- A record that is written as a list of its parts in order. -/
def Record.wantedItems {D : Type → Type} {α : Type} (r : Record D α) : String :=
  r.wanted ++ " with " ++ toString r.fields.length ++ " elements"

/-- A part that has to be there and has not been seen. -/
def Record.missing? {D : Type → Type} {α : Type} (r : Record D α) (seen : List String) :
    Option String :=
  (r.fields.find? fun f => !f.isOptional && !seen.contains f.name).map (·.name)

def Record.field? {D : Type → Type} {α : Type} (r : Record D α) (name : String) :
    Option (Field D α) :=
  r.fields.find? fun f => f.name == name

end BrowserAgent.Decoding
