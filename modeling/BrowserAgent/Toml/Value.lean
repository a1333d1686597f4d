import BrowserAgent.Number.Binary

/-!
# TOML values

A table remembers how it came to be, since that decides what may still be added to it. A header
opens a table once; a table that was only named on the way to another one may still be opened. Keys
with points add to tables made by such keys, or named on the way. A table in braces is closed.
-/

namespace BrowserAgent.Toml

inductive TableKind where
  /-- Named on the way to another table. -/
  | implied
  /-- Made by a key with points. -/
  | dotted
  /-- Opened by a header. -/
  | headed
  /-- Written in braces. -/
  | closed
deriving DecidableEq, Repr

inductive Value where
  | text (value : String)
  | integer (value : Int)
  | float (value : Number.Binary)
  | bool (value : Bool)
  /-- A date, a time of day, or both. -/
  | moment (literal : String)
  /-- A list; one of tables with headers may still grow. -/
  | list (items : List Value) (grows : Bool)
  | table (kind : TableKind) (members : List (String × Value))

abbrev Members := List (String × Value)

namespace Members

def replace (key : String) (value : Value) (m : Members) : Members :=
  m.map fun (name, old) => if name = key then (name, value) else (name, old)

def add? (key : String) (value : Value) (m : Members) : Option Members :=
  if (m.lookup key).isSome then none else some (m ++ [(key, value)])

def openTable? (key : String) (m : Members) : Option Members :=
  match m.lookup key with
  | none => some (m ++ [(key, .table .headed [])])
  | some (.table .implied inner) => some (m.replace key (.table .headed inner))
  | some _ => none

/-- Opens the next table of a list of tables. -/
def openItem? (key : String) (m : Members) : Option Members :=
  match m.lookup key with
  | none => some (m ++ [(key, .list [.table .headed []] true)])
  | some (.list items true) => some (m.replace key (.list (items ++ [.table .headed []]) true))
  | some _ => none

/-- Changes the table that the path leads to, where tables on the way are made if they are missing.
-/
def within? (byKey : Bool) : List String → (Members → Option Members) → Members → Option Members
  | [], change, m => change m
  | key :: path, change, m =>
    match m.lookup key with
    | none => do
      let inner ← within? byKey path change []
      return m ++ [(key, .table (if byKey then .dotted else .implied) inner)]
    | some (.table kind inner) =>
      -- A key with points goes through no table that a header has opened.
      if kind = .closed || (byKey && kind = .headed) then none
      else do
        let inner ← within? byKey path change inner
        return m.replace key (.table kind inner)
    | some (.list items true) =>
      match byKey, items.getLast? with
      -- A header goes through the last table of a list.
      | false, some (.table kind inner) => do
        let inner ← within? byKey path change inner
        return m.replace key (.list (items.dropLast ++ [.table kind inner]) true)
      | _, _ => none
    | some _ => none

/-- Adds a member under a key with points; the last name comes apart from those before. -/
def addAt? (path : List String) (key : String) (value : Value) (m : Members) : Option Members :=
  within? true path (add? key value) m

end Members

end BrowserAgent.Toml
