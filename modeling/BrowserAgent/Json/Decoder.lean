import BrowserAgent.Decoding
import BrowserAgent.Json.Reader

/-!
# Decoding JSON

A value is decoded while it is read. A record is an object, or a list of its parts in order; then
those at the end that are optional may be missing.
-/

namespace BrowserAgent.Json

open Decoding

namespace Reader

/-- The value at the reader is not what is wanted. -/
def mismatch {α : Type} (wanted : String) : Reader α := do
  -- A value without parts is read first.
  let found ← match ← peek with
    | some 'n' =>
      readWord ['n', 'u', 'l', 'l']
      pure (Found.nothing "null")
    | some 't' =>
      readWord ['t', 'r', 'u', 'e']
      pure (.bool true)
    | some 'f' =>
      readWord ['f', 'a', 'l', 's', 'e']
      pure (.bool false)
    | some '-' =>
      pass 1
      readNumber true
    | some '"' =>
      pass 1
      pure (.text (String.ofList (← readText (← fuel))))
    | some '[' => pure .list
    | some '\x7b' => pure .map
    | some x => if x.isDigit then readNumber false else refuseNext .value
    | none => refuse .endInValue
  refuse (.mismatch (.kind found wanted))

def decodeText : Reader String := do
  match ← peekValue with
  | some '"' =>
    pass 1
    return String.ofList (← readText (← fuel))
  | _ => mismatch textName

/-- At the next item of a list, if there is one: the opening bracket or an item comes before. -/
def atItem (isFirst : Bool) : Reader Bool := do
  match ← peekValue with
  | none => refuse .endInList
  | some ']' => return false
  | some x =>
    if isFirst then return true
    else if x = ',' then
      pass 1
      match ← peekValue with
      | none => refuse .endInValue
      | some ']' => refuseNext .lastComma
      | some _ => return true
    else refuseNext .listComma

def decodeItems {α : Type} (item : Reader α) : Bool → Nat → Reader (List α)
  | _, 0 => return []
  | isFirst, fuel + 1 => do
    if ← atItem isFirst then
      let first ← item
      return first :: (← decodeItems item false fuel)
    else
      pass 1
      return []

def decodeList {α : Type} (item : Reader α) : Reader (List α) := do
  match ← peekValue with
  | some '[' =>
    pass 1
    decodeItems item true (← fuel)
  | _ => mismatch listName

def decodeOptional {α : Type} (value : Reader α) : Reader (Option α) := do
  match ← peekValue with
  | some 'n' =>
    readWord ['n', 'u', 'l', 'l']
    return none
  | _ => return some (← value)

/-! ## Records -/

/-- The end of a list of parts: there may be no more of them. -/
def endItems : Reader Unit := do
  match ← peekValue with
  | some ']' => pass 1
  | some ',' =>
    pass 1
    refuseNext (if (← peekValue) = some ']' then .lastComma else .more)
  | some _ => refuseNext .more
  | none => refuse .endInList

/-- The parts in order, so many of them before. -/
def decodeOrdered {α : Type} (wanted : String) : List (Field Reader α) → Nat → α → Reader α
  | [], _, value => do
    endItems
    return value
  | f :: more, count, value => do
    if ← atItem (count == 0) then
      let change ← f.decode
      decodeOrdered wanted more (count + 1) (change value)
    else if f.isOptional then decodeOrdered wanted more count value
    else
      pass 1
      refuse (.mismatch (.length count wanted))

/-- The name that starts with the character at the reader. -/
def readName (first : Char) : Reader String := do
  if first = '"' then
    pass 1
    return String.ofList (← readText (← fuel))
  else refuseNext .key

/-- The name of the next member, if there is one: the opening brace or a member comes before. -/
def nextName (isFirst : Bool) : Reader (Option String) := do
  match ← peekValue with
  | none => refuse .endInObject
  | some '\x7d' =>
    pass 1
    return none
  | some x =>
    if isFirst then return some (← readName x)
    else if x = ',' then
      pass 1
      match ← peekValue with
      | none => refuse .endInValue
      | some '\x7d' => refuseNext .lastComma
      | some y => return some (← readName y)
    else refuseNext .objectComma

def passColon : Reader Unit := do
  match ← peekValue with
  | some ':' => pass 1
  | some _ => refuseNext .colon
  | none => refuse .endInObject

/-- The members of a record, in any order, with the names that were seen before. -/
def decodeMembers {α : Type} (r : Record Reader α) : Nat → Bool → List String → α → Reader α
  | 0, _, _, value => return value
  | fuel + 1, isFirst, seen, value => do
    match ← nextName isFirst with
    | none =>
      match r.missing? seen with
      | some name => refuse (.mismatch (.missing name))
      | none => return value
    | some name =>
      match r.field? name with
      | none =>
        passColon
        passValue (← Reader.fuel)
        decodeMembers r fuel false seen value
      | some f =>
        if seen.contains name then
          let _ ← peekValue
          refuse (.mismatch (.duplicate name))
        else
          passColon
          let change ← f.decode
          decodeMembers r fuel false (name :: seen) (change value)

def decodeRecord {α : Type} (r : Record Reader α) : Reader α := do
  match ← peekValue with
  | some '[' =>
    pass 1
    decodeOrdered r.wantedItems r.fields 0 r.start
  | some '\x7b' =>
    pass 1
    decodeMembers r (← fuel) true [] r.start
  | _ => mismatch r.wanted

end Reader

def format : Format Reader where
  text := Reader.decodeText
  list := Reader.decodeList
  optional := Reader.decodeOptional
  record := Reader.decodeRecord

/-- The value that a text holds, with nothing but blanks around it. -/
def decode {α : Type} (decoder : Reader α) (text : String) : Except Fault α :=
  let whole : Reader α := do
    let value ← decoder
    if (← Reader.peekValue).isSome then Reader.refuseNext .more else return value
  match whole.run ⟨text.toList, 0⟩ with
  | .ok (value, _) => .ok value
  | .error stop => .error (.behind text stop.problem stop.index)

end BrowserAgent.Json
