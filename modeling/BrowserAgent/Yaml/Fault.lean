import BrowserAgent.Mismatch

/-!
# Why a YAML text is not read

A fault of form tells what is wrong and where, and what was being read there. Other faults are of
the values: a name without a node, or a node that is not what is wanted at its place.
-/

namespace BrowserAgent.Yaml

/-- A place in a text. -/
structure Mark where
  /-- The bytes before it. -/
  index : Nat
  /-- The lines before it. -/
  line : Nat
  /-- The characters before it on its line. -/
  column : Nat
deriving DecidableEq, Repr

namespace Mark

/-- The start of a text is not worth telling. -/
def isStart (m : Mark) : Bool := m.line == 0 && m.column == 0

def text (m : Mark) : String :=
  "line " ++ toString (m.line + 1) ++ " column " ++ toString (m.column + 1)

/-- The place behind a message. -/
def tail (m : Mark) : String := if m.isStart then "" else " at " ++ m.text

end Mark

inductive Problem where
  | token
  | colon
  | misplacedItem
  | misplacedKey
  | misplacedValue
  | directive
  | lineEnd
  | directiveName
  | directiveLetter
  | versionPoint
  | longVersion
  | versionNumber
  | gap
  | gapOrLineEnd
  | name
  | tagEnd
  | tagMark
  | tagText
  | escapedByte
  | firstByte
  | laterByte
  | zeroIndent
  | tabInIndent
  | documentMark
  | textEnd
  | escape
  | hexDigits
  | charNumber
  | colonInFlow
  | tabBeforeText
  | documentStart
  | secondVersion
  | otherVersion
  | secondHandle
  | unknownHandle
  | content
  | item
  | key
  | listEnd
  | mapEnd
deriving DecidableEq, Repr

def Problem.message : Problem → String
  | token => "found character that cannot start any token"
  | colon => "could not find expected ':'"
  | misplacedItem => "block sequence entries are not allowed in this context"
  | misplacedKey => "mapping keys are not allowed in this context"
  | misplacedValue => "mapping values are not allowed in this context"
  | directive => "found unknown directive name"
  | lineEnd => "did not find expected comment or line break"
  | directiveName => "could not find expected directive name"
  | directiveLetter => "found unexpected non-alphabetical character"
  | versionPoint => "did not find expected digit or '.' character"
  | longVersion => "found extremely long version number"
  | versionNumber => "did not find expected version number"
  | gap => "did not find expected whitespace"
  | gapOrLineEnd => "did not find expected whitespace or line break"
  | name => "did not find expected alphabetic or numeric character"
  | tagEnd => "did not find the expected '>'"
  | tagMark => "did not find expected '!'"
  | tagText => "did not find expected tag URI"
  | escapedByte => "did not find URI escaped octet"
  | firstByte => "found an incorrect leading UTF-8 octet"
  | laterByte => "found an incorrect trailing UTF-8 octet"
  | zeroIndent => "found an indentation indicator equal to 0"
  | tabInIndent => "found a tab character where an indentation space is expected"
  | documentMark => "found unexpected document indicator"
  | textEnd => "found unexpected end of stream"
  | escape => "found unknown escape character"
  | hexDigits => "did not find expected hexdecimal number"
  | charNumber => "found invalid Unicode character escape code"
  | colonInFlow => "found unexpected ':'"
  | tabBeforeText => "found a tab character that violates indentation"
  | documentStart => "did not find expected <document start>"
  | secondVersion => "found duplicate %YAML directive"
  | otherVersion => "found incompatible YAML document"
  | secondHandle => "found duplicate %TAG directive"
  | unknownHandle => "found undefined tag handle"
  | content => "did not find expected node content"
  | item => "did not find expected '-' indicator"
  | key => "did not find expected key"
  | listEnd => "did not find expected ',' or ']'"
  | mapEnd => "did not find expected ',' or '\x7d'"

/-- What is being read. -/
inductive Activity where
  | nextToken
  | simpleKey
  | directive
  | version
  | handle
  | handleMark
  | handleLetters
  | handleText
  | alias
  | anchor
  | tag
  | tagText
  | blockScalar
  | quotedScalar
  | escape
  | plainScalar
  | node
  | blockNode
  | flowNode
  | blockList
  | blockMap
  | flowList
  | flowMap
deriving DecidableEq, Repr

def Activity.message : Activity → String
  | nextToken => "while scanning for the next token"
  | simpleKey => "while scanning a simple key"
  | directive => "while scanning a directive"
  | version => "while scanning a %YAML directive"
  | handle => "while scanning a %TAG directive"
  | handleMark => "while scanning a tag directive"
  | handleLetters => "while parsing a tag directive"
  | handleText => "while parsing a %TAG directive"
  | .alias => "while scanning an alias"
  | anchor => "while scanning an anchor"
  | tag => "while scanning a tag"
  | tagText => "while parsing a tag"
  | blockScalar => "while scanning a block scalar"
  | quotedScalar => "while scanning a quoted scalar"
  | escape => "while parsing a quoted scalar"
  | plainScalar => "while scanning a plain scalar"
  | node => "while parsing a node"
  | blockNode => "while parsing a block node"
  | flowNode => "while parsing a flow node"
  | blockList => "while parsing a block collection"
  | blockMap => "while parsing a block mapping"
  | flowList => "while parsing a flow sequence"
  | flowMap => "while parsing a flow mapping"

/-- What is wrong in the form of a text. -/
structure FormFault where
  problem : Problem
  mark : Mark
  /-- What was being read, and where that starts. -/
  context : Option (Activity × Mark)
deriving DecidableEq, Repr

/-- The place of the context is told if it is another one. -/
def FormFault.message (f : FormFault) : String :=
  f.problem.message ++ f.mark.tail ++
    match f.context with
    | none => ""
    | some (activity, start) =>
      ", " ++ activity.message ++
        (if start.line == f.mark.line && start.column == f.mark.column then "" else start.tail)

inductive Fault where
  /-- A character that may stand in no text, behind so many bytes. -/
  | character (index : Nat)
  | form (fault : FormFault)
  /-- An alias of a name that no node has. -/
  | unknownName (mark : Mark)
  | severalDocuments
  /-- A node is not what is wanted; the path leads to it. -/
  | mismatch (path : String) (cause : Mismatch) (mark : Mark)
deriving DecidableEq, Repr

def Fault.message : Fault → String
  | character index =>
    "control characters are not allowed" ++
      (if index = 0 then "" else " at position " ++ toString index)
  | form fault => fault.message
  | unknownName mark => "unknown anchor" ++ mark.tail
  | severalDocuments =>
    "deserializing from YAML containing more than one document is not supported"
  | mismatch path cause mark =>
    (if path = "" then "" else path ++ ": ") ++ cause.message ++ mark.tail

end BrowserAgent.Yaml
