import BrowserAgent.Yaml.Fault

/-!
# YAML nodes

A node may stand under a name, and an alias says a name again instead of a node. So a document is
its root, and the nodes that its aliases stand for. Where a text cannot be read on, its last node
says why.
-/

namespace BrowserAgent.Yaml

/-- A tag, as the bytes that its escapes spell. -/
abbrev Tag := List UInt8

inductive Node where
  /-- A text. A plain one stands without quotes, so it may also be read as a value of another kind.
  -/
  | scalar (mark : Mark) (text : String) (isPlain : Bool) (tag : Option Tag)
  | list (mark : Mark) (items : List Node)
  /-- The members in the order in which they are written. -/
  | map (mark : Mark) (members : List (Node × Node))
  /-- What stands under a name, by the number of the name. -/
  | alias (number : Nat)
  /-- The text cannot be read on here. -/
  | broken (fault : Fault)

/-- The node that stands where nothing is written. -/
def Node.empty (mark : Mark) : Node := .scalar mark "" true none

structure Tree where
  root : Node
  /-- The nodes that aliases stand for, by number. -/
  named : List (Nat × Node)
  /-- What is wrong behind the root. -/
  trailing : Option Fault

namespace Tree

/-- The node that an alias stands for; another node stands for itself. -/
def target (t : Tree) : Node → Node
  | .alias number => (t.named.lookup number).getD (.alias number)
  | node => node

end Tree

/-! ## Characters -/

def isBreak (c : Char) : Bool :=
  c == '\n' || c == '\r' || c == '\u0085' || c == '\u2028' || c == '\u2029'

def isBlank (c : Char) : Bool := c == ' ' || c == '\t'

/-- The rest of a text is at a blank, at a break or at its end. -/
def atGap : List Char → Bool
  | [] => true
  | c :: _ => isBlank c || isBreak c

end BrowserAgent.Yaml
