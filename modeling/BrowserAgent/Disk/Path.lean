import BrowserAgent.Text.Lines

/-!
# Paths

A path is a text of names with slashes between them. Empty names and dots say nothing, so they are
skipped; a slash at the front is the name of the root. A path is kept as it is written, since it
is shown so.
-/

namespace BrowserAgent

structure Path where
  text : String
deriving DecidableEq, Repr

namespace Path

/-- The texts between the slashes. -/
def segments (p : Path) : List String :=
  (Text.splitAtChar '/' p.text.toList).map String.ofList

def saysNothing (segment : String) : Bool := segment == "" || segment == "."

/-- Whether the path starts at the root. -/
def isAbsolute (p : Path) : Bool := p.text.toList.head? == some '/'

/-- The path asks for a directory, since no name follows its last slash. -/
def namesDirectory (p : Path) : Bool :=
  1 < p.segments.length && p.segments.getLast?.any saysNothing

/-- A slash stands directly after the last name, so that no file can be made under it. -/
def hasSlashAfterName (p : Path) : Bool :=
  p.segments.getLast? == some "" &&
    (p.segments.reverse.dropWhile (· == "")).head?.any fun s => s != "." && s != ".."

/-- A dot, or two, stands where the last name would be. -/
def endsInDots (p : Path) : Bool :=
  (p.segments.reverse.dropWhile (· == "")).head?.any fun s => s == "." || s == ".."

/-- The path up to its last name, without slashes and dots after it. -/
def trimmedSegments (p : Path) : List String := (p.segments.reverse.dropWhile saysNothing).reverse

def fileName? (p : Path) : Option String :=
  p.trimmedSegments.getLast?.filter fun name => name != ".."

/-- A file name cut at its last point, unless nothing stands before that. -/
def splitName (name : String) : String × Option String :=
  match Text.splitAtChar '.' name.toList |>.reverse with
  | last :: before :: more =>
    let stem := String.ofList (['.'].intercalate (before :: more).reverse)
    if stem = "" then (name, none) else (stem, some (String.ofList last))
  | _ => (name, none)

/-- What stands after the last point of the file name. -/
def extension? (p : Path) : Option String := p.fileName?.bind fun name => (splitName name).2

/-- The path without its last name, if anything is left. -/
def parent? (p : Path) : Option Path :=
  let before := p.trimmedSegments.dropLast
  match (before.reverse.dropWhile saysNothing).reverse with
  | [] =>
    if p.trimmedSegments.isEmpty then none
    else if p.isAbsolute then some ⟨"/"⟩
    else if before.head? = some "." then some ⟨"."⟩
    else none
  | kept => some ⟨"/".intercalate kept⟩

/-- The path with `.tmp` after it. -/
def temporary (p : Path) : Path := ⟨p.text ++ ".tmp"⟩

/-- The path with another extension, which is added if there is none. -/
def withExtension (ext : String) (p : Path) : Path :=
  match p.fileName? with
  | none => p
  | some name =>
    ⟨"/".intercalate (p.trimmedSegments.dropLast ++ [(splitName name).1 ++ "." ++ ext])⟩

end Path

end BrowserAgent
