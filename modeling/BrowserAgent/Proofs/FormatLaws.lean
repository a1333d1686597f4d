import BrowserAgent.Document.Fields
import Mathlib.Data.List.Forall2

/-!
# What a format reads

A format is lawful if its decoders read the values of which documents are made: texts, lists and
objects. What is kept is described once for all formats, so what it takes to read it back is shown
once for all lawful ones.
-/

namespace BrowserAgent

namespace Decoding

variable {D : Type → Type}

/-- What it means that a decoder reads a value. -/
abbrev Reads (D : Type → Type) := ∀ ⦃α : Type⦄, D α → JsonValue → α → Prop

/-- The members in order, behind those with the names, make the one record of the other. -/
inductive Fills (reads : Reads D) {α : Type} (r : Record D α) :
    List (String × JsonValue) → List String → α → α → Prop
  | done {seen : List String} {value : α} (complete : r.missing? seen = none) :
    Fills reads r [] seen value value
  | next {name : String} {member : JsonValue} {more : List (String × JsonValue)}
      {seen : List String} {value whole : α} {f : Field D α} {change : α → α}
      (field : r.field? name = some f) (first : seen.contains name = false)
      (read : reads f.decode member change)
      (rest : Fills reads r more (name :: seen) (change value) whole) :
    Fills reads r ((name, member) :: more) seen value whole

end Decoding

namespace Document

open Decoding

variable {D : Type → Type} [Functor D] {f : Format D} {reads : Reads D}

end Document

end BrowserAgent
