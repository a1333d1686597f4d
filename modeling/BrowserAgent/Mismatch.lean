import BrowserAgent.Text.Shown

/-!
# Values that do not fit

A value of a text format may not be what is wanted at its place. A mismatch tells both, and its
message names them.
-/

namespace BrowserAgent

/-- What stands where something else is wanted. -/
inductive Found where
  | bool (value : Bool)
  | integer (value : Int)
  /-- An integer of more than sixty-four bits, of a kind that is named. -/
  | wide (value : Int) (kind : String)
  /-- A number with a point or an exponent, as it is shown. -/
  | decimal (digits : String)
  | text (value : String)
  /-- No value, as the format calls it. -/
  | nothing (name : String)
  | list
  | map
deriving DecidableEq, Repr

def Found.name : Found → String
  | bool value => "boolean `" ++ toString value ++ "`"
  | integer value => "integer `" ++ toString value ++ "`"
  | wide value kind => "integer `" ++ toString value ++ "` as " ++ kind
  | decimal digits => "floating point `" ++ digits ++ "`"
  | text value => "string " ++ Text.shown value
  | nothing name => name
  | list => "sequence"
  | map => "map"

inductive Mismatch where
  | kind (found : Found) (wanted : String)
  /-- The kind is right, but not the value. -/
  | value (found : Found) (wanted : String)
  /-- A list that stands for an object has too few items. -/
  | length (count : Nat) (wanted : String)
  | missing (name : String)
  | duplicate (name : String)
deriving DecidableEq, Repr

namespace Mismatch

def message : Mismatch → String
  | kind found wanted => "invalid type: " ++ found.name ++ ", expected " ++ wanted
  | value found wanted => "invalid value: " ++ found.name ++ ", expected " ++ wanted
  | length count wanted => "invalid length " ++ toString count ++ ", expected " ++ wanted
  | missing name => "missing field `" ++ name ++ "`"
  | duplicate name => "duplicate field `" ++ name ++ "`"

end Mismatch

end BrowserAgent
