import BrowserAgent.Table
import BrowserAgent.Yaml.Token

/-!
# Reading YAML

The tokens of a text make one document, and a document is one node. Each kind of collection has a
function for its entries; where an entry is missing, an empty scalar stands. Where the text cannot
be read on, a broken node stands for the rest of every collection that is not closed yet, so that
whoever takes the nodes in order meets the fault where the text has it.

A node under a name gets the number of the name. A name that is new takes the count of the names so
far, and so does a name that is used again; of two names with one number the later node counts, for
every alias of the document.
-/

namespace BrowserAgent.Yaml

structure ReaderState where
  tokens : List Token
  /-- What tags start with, by their handles. -/
  handles : List (String × Tag)
  /-- The numbers of the names so far. -/
  numbers : Table Nat
  /-- How many nodes have been named. -/
  count : Nat
  /-- Which of the named nodes has the number, counted from the first. -/
  latest : List (Nat × Nat)
  /-- The named nodes that are complete. -/
  complete : List (Nat × Node)

abbrev Reader (α : Type) := StateM ReaderState α

namespace Reader

def nothing : Token := ⟨.textEnd, ⟨0, 0, 0⟩, ⟨0, 0, 0⟩⟩

def peek : Reader Token := do return (← get).tokens.headD nothing

def drop : Reader Unit := modify fun s => { s with tokens := s.tokens.tail }

/-- Drops the next token if it is one of these. -/
def dropAny (kinds : List TokenKind) : Reader (Option Token) := do
  let t ← peek
  if kinds.contains t.kind then
    drop
    return some t
  else return none

def dropIf (kind : TokenKind) : Reader (Option Token) := dropAny [kind]

/-- Drops the comma between two entries, if there has to be one: whether it was there. -/
def passComma (isFirst : Bool) : Reader Bool :=
  if isFirst then return true else return (← dropIf .comma).isSome

/-! ## Faults -/

/-- What is wrong with the text from here on. -/
def fault? : Reader (Option Fault) := do
  match (← peek).kind with
  | .broken f => return some f
  | _ => return none

def stop (f : Fault) : Reader Node := do
  modify fun s => { s with tokens := [{ nothing with kind := .broken f }] }
  return .broken f

/-- The next token may not stand where it does. -/
def refuse (problem : Problem) (context : Option (Activity × Mark)) : Reader Node := do
  match ← fault? with
  | some f => return .broken f
  | none => stop (.form ⟨problem, (← peek).start, context⟩)

/-- The empty scalar where nothing stands before the next token. -/
def emptyHere : Reader Node := do
  return (← fault?).elim (.empty (← peek).start) .broken

/-! ## Names and tags -/

/-- A node is about to stand under the name: its place among the named nodes. -/
def announce (name : String) : Reader Nat := do
  let s ← get
  let number := s.numbers.length
  set { s with
    numbers := s.numbers.insert name number
    count := s.count + 1
    latest := (number, s.count) :: s.latest }
  return s.count

def anchor? : Reader (Option String) := do
  match (← peek).kind with
  | .anchor name =>
    drop
    return some name
  | _ => return none

def tag? : Reader (Option Token) := do
  let t ← peek
  match t.kind with
  | .tag .. =>
    drop
    return some t
  | _ => return none

/-- An anchor and a tag, in either order. -/
def properties : Reader (Option String × Option Token) := do
  match ← anchor? with
  | some name => return (some name, ← tag?)
  | none =>
    let tag ← tag?
    return (← if tag.isSome then anchor? else pure none, tag)

/-- The tag of the token, if its handle is known. -/
def fullTag? (handles : List (String × Tag)) (t : Token) : Option Tag :=
  match t.kind with
  | .tag handle rest =>
    if handle = "" then some rest else (handles.lookup handle).map fun start => start ++ rest
  | _ => none

/-! ## Nodes -/

/-- What stands before the content of a node. -/
structure Properties where
  start : Mark
  isNamed : Bool
  tag : Option Tag

mutual

/-- A node. Outside of brackets it may be a block collection; where `flush` is set, a list may stand
at the column of the map around it. -/
def node (inBlock flush : Bool) : Nat → Reader Node
  | 0 => refuse .content none
  | fuel + 1 => do
    let t ← peek
    match t.kind with
    | .alias name =>
      drop
      match (← get).numbers.find? name with
      | some number => return .alias number
      | none => stop (.unknownName t.start)
    | _ =>
      let (anchor, tagToken) ← properties
      let tag := tagToken.bind (fullTag? (← get).handles)
      match ← fault?, tagToken, tag, anchor with
      | some f, _, _, _ => return .broken f
      | none, some written, none, _ =>
        stop (.form ⟨.unknownHandle, written.start, some (.node, t.start)⟩)
      | none, _, _, none => content inBlock flush ⟨t.start, false, tag⟩ fuel
      | none, _, _, some name =>
        let place ← announce name
        let n ← content inBlock flush ⟨t.start, true, tag⟩ fuel
        modify fun s => { s with complete := (place, n) :: s.complete }
        return n
termination_by structural fuel => fuel

/-- The content of a node after its properties. -/
def content (inBlock flush : Bool) (p : Properties) : Nat → Reader Node
  | 0 => refuse .content none
  | fuel + 1 => do
    let t ← peek
    match t.kind with
    | .scalar text isPlain => drop; return .scalar p.start text isPlain p.tag
    | .openList => drop; return .list p.start (← flowItems t.start true fuel)
    | .openMap => drop; return .map p.start (← flowMembers t.start true fuel)
    | .item =>
      if flush then return .list p.start (← flushItems fuel) else emptyContent inBlock p
    | .blockList =>
      if inBlock then drop; return .list p.start (← blockItems t.start fuel)
      else emptyContent inBlock p
    | .blockMap =>
      if inBlock then drop; return .map p.start (← blockMembers t.start fuel)
      else emptyContent inBlock p
    | _ => emptyContent inBlock p
termination_by structural fuel => fuel

/-- A node of which only properties are written. -/
def emptyContent (inBlock : Bool) (p : Properties) : Reader Node :=
  if p.isNamed || p.tag.isSome then return .scalar p.start "" true p.tag
  else refuse .content (some (if inBlock then .blockNode else .flowNode, p.start))

/-- A node, or an empty scalar where one of the tokens comes next. -/
def nodeUnless (ends : List TokenKind) (emptyMark : Option Mark) (inBlock flush : Bool) :
    Nat → Reader Node
  | 0 => refuse .content none
  | fuel + 1 => do
    let t ← peek
    if ends.contains t.kind then return .empty (emptyMark.getD t.start)
    else node inBlock flush fuel
termination_by structural fuel => fuel

def blockItems (start : Mark) : Nat → Reader (List Node)
  | 0 => return [← refuse .item none]
  | fuel + 1 => do
    match ← dropIf .item with
    | some t =>
      let first ← nodeUnless [.item, .blockEnd] t.stop true false fuel
      return first :: (← blockItems start fuel)
    | none =>
      match ← dropIf .blockEnd with
      | some _ => return []
      | none => return [← refuse .item (some (.blockList, start))]
termination_by structural fuel => fuel

/-- The entries of a list at the column of the map around it. -/
def flushItems : Nat → Reader (List Node)
  | 0 => return [← refuse .item none]
  | fuel + 1 => do
    match ← dropIf .item with
    | some t =>
      let first ← nodeUnless [.item, .key, .value, .blockEnd] t.stop true false fuel
      return first :: (← flushItems fuel)
    | none => return ((← fault?).map .broken).toList
termination_by structural fuel => fuel

def blockMembers (start : Mark) : Nat → Reader (List (Node × Node))
  | 0 => return [(← refuse .key none, ← emptyHere)]
  | fuel + 1 => do
    match ← dropIf .key with
    | some t =>
      let key ← nodeUnless [.key, .value, .blockEnd] t.stop true true fuel
      let value ← match ← dropIf .value with
        | some t => nodeUnless [.key, .value, .blockEnd] t.stop true true fuel
        | none => emptyHere
      return (key, value) :: (← blockMembers start fuel)
    | none =>
      match ← dropIf .blockEnd with
      | some _ => return []
      | none => return [(← refuse .key (some (.blockMap, start)), ← emptyHere)]
termination_by structural fuel => fuel

def flowItems (start : Mark) (isFirst : Bool) : Nat → Reader (List Node)
  | 0 => return [← refuse .listEnd none]
  | fuel + 1 => do
    if (← dropIf .closeList).isSome then return []
    else if !(← passComma isFirst) then return [← refuse .listEnd (some (.flowList, start))]
    else match ← dropIf .key with
      | some t =>
        -- A key makes a map of one member.
        let first ← flowPair t.start fuel
        return first :: (← flowItems start false fuel)
      | none =>
        if (← dropIf .closeList).isSome then return []
        else
          let first ← node false false fuel
          return first :: (← flowItems start false fuel)
termination_by structural fuel => fuel

/-- The map of one member, after the token that announces its key. Where nothing stands after that,
the token that ends the key goes with it. -/
def flowPair (start : Mark) : Nat → Reader Node
  | 0 => refuse .content none
  | fuel + 1 => do
    let key ← match ← dropAny [.value, .comma, .closeList] with
      | some t => pure (.empty t.stop)
      | none => node false false fuel
    let value ←
      if (← dropIf .value).isSome then nodeUnless [.comma, .closeList] none false false fuel
      else emptyHere
    let behind := (← fault?).map fun f => (Node.broken f, Node.broken f)
    return .map start ((key, value) :: behind.toList)
termination_by structural fuel => fuel

def flowMembers (start : Mark) (isFirst : Bool) : Nat → Reader (List (Node × Node))
  | 0 => return [(← refuse .mapEnd none, ← emptyHere)]
  | fuel + 1 => do
    if (← dropIf .closeMap).isSome then return []
    else if !(← passComma isFirst) then
      return [(← refuse .mapEnd (some (.flowMap, start)), ← emptyHere)]
    else if (← dropIf .key).isSome then
      let key ← nodeUnless [.value, .comma, .closeMap] none false false fuel
      let value ←
        if (← dropIf .value).isSome then nodeUnless [.comma, .closeMap] none false false fuel
        else emptyHere
      return (key, value) :: (← flowMembers start false fuel)
    else if (← dropIf .closeMap).isSome then return []
    else
      let key ← node false false fuel
      return (key, ← emptyHere) :: (← flowMembers start false fuel)
termination_by structural fuel => fuel

end

/-! ## Documents -/

/-- What tags start with if nothing else is said. -/
def standardHandles : List (String × Tag) :=
  [("!", [0x21]), ("!!", "tag:yaml.org,2002:".toUTF8.toList)]

/-- Why a directive may not stand behind others: each says something new, the version at most once.
-/
def directiveProblem? (versionSeen : Bool) (handles : List (String × Tag)) :
    TokenKind → Option Problem
  | .version major minor =>
    if versionSeen then some .secondVersion
    else if major != 1 || (minor != 1 && minor != 2) then some .otherVersion
    else none
  | .handle handle _ => (handles.lookup handle).map fun _ => .secondHandle
  | _ => none

/-- The handles that the directives give a meaning. -/
def directives : Nat → Bool → List (String × Tag) → Reader (List (String × Tag))
  | 0, _, handles => return handles
  | fuel + 1, versionSeen, handles => do
    let kind := (← peek).kind
    match directiveProblem? versionSeen handles kind, kind with
    | some problem, _ =>
      let _ ← refuse problem none
      return handles
    | none, .version .. =>
      drop
      directives fuel true handles
    | none, .handle handle start =>
      drop
      directives fuel versionSeen ((handle, start) :: handles)
    | none, _ => return handles

def isDirective : TokenKind → Bool
  | .version .. | .handle .. => true
  | _ => false

/-- What stands after the start of a document. -/
def documentContent (fuel : Nat) : Reader Node := do
  let t ← peek
  if isDirective t.kind || [.documentStart, .documentEnd, .textEnd].contains t.kind then
    return .empty t.start
  else node true false fuel

def root (fuel : Nat) : Reader Node := do
  let t ← peek
  -- An empty text is an empty document.
  if t.kind = .textEnd then return .empty t.start
  else if isDirective t.kind || t.kind = .documentStart then
    let handles ← directives fuel false []
    if (← dropIf .documentStart).isSome then
      modify fun s => { s with handles := handles ++ standardHandles }
      documentContent fuel
    else refuse .documentStart none
  else node true false fuel

/-- What is wrong behind the root: no other document may follow. -/
def trailing? (tokens : List Token) : Option Fault :=
  match tokens.map Token.kind with
  | TokenKind.broken f :: _ => some f
  | kinds =>
    if (kinds.dropWhile (· == .documentEnd)).head? = some .textEnd then none
    else some .severalDocuments

/-- The tree of a root, after all nodes have been named. -/
def treeOf (root : Node) (s : ReaderState) : Tree :=
  ⟨root, s.latest.filterMap fun (number, place) =>
    (s.complete.lookup place).map fun n => (number, n), trailing? s.tokens⟩

end Reader

def read (s : String) : Tree :=
  let tokens := Token.ofText s
  let (root, final) :=
    (Reader.root (4 * tokens.length + 16)).run ⟨tokens, Reader.standardHandles, [], 0, [], []⟩
  Reader.treeOf root final

end BrowserAgent.Yaml
