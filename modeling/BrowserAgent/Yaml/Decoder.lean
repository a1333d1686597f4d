import BrowserAgent.Decoding
import BrowserAgent.Yaml.Node
import BrowserAgent.Yaml.Plain

/-!
# Decoding YAML

A node is decoded at its place in a tree. An alias is decoded as the node that it stands for, and a
plain scalar without characters also as an empty collection. Any scalar is a text. A broken node
stands for the rest of what could not be read, so its fault is met where the text has it.
-/

namespace BrowserAgent.Yaml

open Decoding

/-! ## Scalars that are not wanted -/

/-- The tag of a kind of value that every text may hold. -/
def standardTag (kind : String) : Tag := ("tag:yaml.org,2002:" ++ kind).toUTF8.toList

/-- What a scalar stands for, if its tag says of which kind it is: the kind has to fit. -/
def taggedValue? (text : String) (tag : Tag) : Option (Except Mismatch Found) :=
  let as (name : String) (value : Option Found) : Option (Except Mismatch Found) :=
    some (value.elim (.error (.value (.text text) name)) .ok)
  if tag = standardTag "bool" then as "a boolean" ((bool? text).map .bool)
  else if tag = standardTag "int" then as "an integer" ((integer? text).map integerValue)
  else if tag = standardTag "float" then as "a float" ((float? text).map floatValue)
  else if tag = standardTag "null" then
    as "null" (if nullWords.contains text then some (.nothing "unit value") else none)
  else none

def scalarValue (text : String) (isPlain : Bool) (tag : Option Tag) : Except Mismatch Found :=
  match tag.bind (taggedValue? text) with
  | some value => value
  | none =>
    -- One without quotes may be more than a text, if it has no tag or a local one.
    .ok (if isPlain && tag.all (·.head? == some 0x21) then plainValue text else .text text)

/-- Why a scalar is not what is wanted. -/
def scalarMismatch (text : String) (isPlain : Bool) (tag : Option Tag) (wanted : String) :
    Mismatch :=
  match scalarValue text isPlain tag with
  | .ok found => .kind found wanted
  | .error cause => cause

/-- Whether a scalar stands for no value, if its tag fits that. -/
def isAbsent (text : String) (isPlain : Bool) (tag : Option Tag) : Except Mismatch Bool :=
  if !isPlain then .ok false
  else match tag with
    | none => .ok (text == "" || nullWords.contains text)
    | some tag =>
      if tag != standardTag "null" then .ok false
      else if nullWords.contains text then .ok true
      else .error (.value (.text text) "null")

/-! ## Places -/

/-- A node in a tree. -/
structure Place where
  tree : Tree
  /-- The way to the node. -/
  path : String
  node : Node
  /-- The way to the collection around the node, and where that starts. -/
  around : String × Mark

abbrev Decoder := ReaderT Place (Except Fault)

namespace Decoder

/-- The node, or the one that it stands for as an alias. -/
def target : Decoder Node := do
  let p ← read
  return p.tree.target p.node

def refuse {α : Type} (cause : Mismatch) (mark : Mark) : Decoder α := do
  throw (.mismatch (← read).path cause mark)

/-- The node at the place is not what is wanted. -/
def mismatch {α : Type} (wanted : String) : Decoder α := do
  match ← target with
  | .scalar mark text isPlain tag => refuse (scalarMismatch text isPlain tag wanted) mark
  | .list mark _ => refuse (.kind .list wanted) mark
  | .map mark _ => refuse (.kind .map wanted) mark
  | .alias _ => throw (.unknownName ⟨0, 0, 0⟩)
  | .broken f => throw f

def decodeText : Decoder String := do
  match ← target with
  | .scalar _ text _ _ => return text
  | _ => mismatch textName

/-- Decodes the item of the list at the place. -/
def atItem {α : Type} (item : Decoder α) (mark : Mark) (index : Nat) (node : Node) : Decoder α :=
  fun p => item ⟨p.tree, p.path ++ "[" ++ toString index ++ "]", node, (p.path, mark)⟩

def decodeItems {α : Type} (item : Decoder α) (mark : Mark) : Nat → List Node → Decoder (List α)
  | _, [] => return []
  | index, n :: more => do
    let first ← atItem item mark index n
    return first :: (← decodeItems item mark (index + 1) more)

def decodeList {α : Type} (item : Decoder α) : Decoder (List α) := do
  match ← target with
  | .list mark items => decodeItems item mark 0 items
  | .scalar _ "" true _ => return []
  | _ => mismatch listName

/-- That a value has the tag of no value, but is one, is told of the collection around it. -/
def decodeOptional {α : Type} (value : Decoder α) : Decoder (Option α) := do
  match ← target with
  | .scalar _ text isPlain tag =>
    match isAbsent text isPlain tag with
    | .ok true => return none
    | .ok false => return some (← value)
    | .error cause =>
      let (path, mark) := (← read).around
      throw (.mismatch path cause mark)
  | _ => return some (← value)

/-! ## Records -/

/-- The way to a member of the map at the path. -/
def memberPath (path : String) (key : Node) (name : String) : String :=
  let last := match key with
    | .scalar .. => name
    -- Of a name that is an alias it says nothing.
    | _ => "?"
  if path = "" then last else path ++ "." ++ last

def decodeName (key : Node) : Decoder String := fun p =>
  match p.tree.target key with
  | .scalar _ text _ _ => .ok text
  | _ => (mismatch (α := String) "field identifier") { p with node := key }

/-- The members of a record in order, with the names that were seen before. -/
def decodeMembers {α : Type} (r : Record Decoder α) (mark : Mark) :
    List (Node × Node) → List String → α → Decoder α
  | [], seen, value =>
    match r.missing? seen with
    | some name => refuse (.missing name) mark
    | none => return value
  | (key, node) :: more, seen, value => do
    let name ← decodeName key
    match r.field? name with
    | none => decodeMembers r mark more seen value
    | some f =>
      if seen.contains name then refuse (.duplicate name) mark
      else
        let p ← read
        let change ← f.decode ⟨p.tree, memberPath p.path key name, node, (p.path, mark)⟩
        decodeMembers r mark more (name :: seen) (change value)

def decodeRecord {α : Type} (r : Record Decoder α) : Decoder α := do
  match ← target with
  | .map mark members => decodeMembers r mark members [] r.start
  | .scalar mark "" true _ => decodeMembers r mark [] [] r.start
  | _ => mismatch r.wanted

end Decoder

def format : Format Decoder where
  text := Decoder.decodeText
  list := Decoder.decodeList
  optional := Decoder.decodeOptional
  record := Decoder.decodeRecord

/-- The value that the root of a tree stands for; nothing may be wrong behind it. -/
def Tree.decode {α : Type} (decoder : Decoder α) (t : Tree) : Except Fault α := do
  let value ← decoder ⟨t, "", t.root, ("", ⟨0, 0, 0⟩)⟩
  match t.trailing with
  | some f => throw f
  | none => return value

end BrowserAgent.Yaml
