import BrowserAgent.Disk.Replacement
import BrowserAgent.Document.Fields
import BrowserAgent.Json.Decoder
import BrowserAgent.Json.Printer
import BrowserAgent.Yaml.Decoder
import BrowserAgent.Yaml.Printer
import BrowserAgent.Yaml.Reader

/-!
# Documents on disk

The extension of a path says in which format its document is. A document is saved by replacing the
file as a whole.
-/

namespace BrowserAgent

inductive DocumentFormat where
  | yaml
  | json
deriving DecidableEq, Repr

namespace DocumentFormat

def name : DocumentFormat → String
  | yaml => "yaml"
  | json => "json"

def ofPath? (p : Path) : Option DocumentFormat :=
  match p.extension? with
  | some "yaml" | some "yml" => some yaml
  | some "json" => some json
  | _ => none

def render (d : Document) : DocumentFormat → String
  | yaml => Yaml.render d.members
  | json => (JsonValue.object d.members).pretty 0 ++ "\n"

end DocumentFormat

/-- Why a text is not read as a document. -/
inductive DocumentFault where
  | yaml (fault : Yaml.Fault)
  | json (fault : Json.Fault)
deriving DecidableEq, Repr

def DocumentFault.message : DocumentFault → String
  | yaml fault => fault.message
  | json fault => fault.message

def DocumentFormat.read (text : String) : DocumentFormat → Except DocumentFault Document
  | yaml => ((Yaml.read text).decode (Document.decoder Yaml.format)).mapError .yaml
  | json => (Json.decode (Document.decoder Json.format) text).mapError .json

/-- Why a document was not loaded. -/
inductive LoadError where
  | unknownFormat (path : Path)
  | unread (path : Path) (cause : DiskError)
  | malformed (format : DocumentFormat) (path : Path) (cause : DocumentFault)
deriving DecidableEq, Repr

/-- Why a document was not saved. -/
inductive SaveError where
  | unknownFormat (path : Path)
  | disk (error : ReplaceError)
deriving DecidableEq, Repr

/-- What is asked of the name of a file. -/
def extensionRule : String := " must end with .yaml, .yml or .json"

def LoadError.message : LoadError → String
  | .unknownFormat path => "compiled script " ++ path.text ++ extensionRule
  | .unread path _ => "read " ++ path.text
  | .malformed format path _ => "parse " ++ format.name ++ " " ++ path.text

/-- The message with what led to it. -/
def LoadError.chain : LoadError → String
  | .unread path cause => (LoadError.unread path cause).message ++ ": " ++ cause.message
  | .malformed format path cause =>
    (LoadError.malformed format path cause).message ++ ": " ++ cause.message
  | e => e.message

def SaveError.message : SaveError → String
  | .unknownFormat path => "output " ++ path.text ++ extensionRule
  | .disk ⟨.createDirectory parent, _⟩ => "create directory " ++ parent.text
  | .disk ⟨.writeTemporary temporary, _⟩ => "write temp " ++ temporary.text
  | .disk ⟨.replace path, _⟩ => "replace " ++ path.text

def SaveError.chain : SaveError → String
  | .disk e => (SaveError.disk e).message ++ ": " ++ e.cause.message
  | e => e.message

namespace Document

def load (p : Path) (d : Disk) : Except LoadError Document :=
  match DocumentFormat.ofPath? p with
  | none => .error (.unknownFormat p)
  | some format =>
    match d.readText p with
    | .error cause => .error (.unread p cause)
    | .ok text => (format.read text).mapError (.malformed format p)

def save (p : Path) (doc : Document) : Run Disk SaveError Unit :=
  match DocumentFormat.ofPath? p with
  | none => throw (.unknownFormat p)
  | some format =>
    (Disk.replaceFile p p.temporary (Text.toBytes (format.render doc))).mapError .disk

end Document

end BrowserAgent
