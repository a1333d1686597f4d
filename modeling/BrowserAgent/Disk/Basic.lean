import BrowserAgent.Disk.Path
import BrowserAgent.Run
import BrowserAgent.Text.Utf8

/-!
# Disks

A disk holds files, directories and symbolic links at places. A place is the list of names that
lead to it from the working directory, or from the root if the first name is a slash. The working
directory, the directories above it and those of the system are always there. Where a file stands,
only its number is kept, and the bytes are kept by the number: a file that stands at several places
is the same at all of them, and it stays the same file wherever it is moved to. Limits say which
operations fail for reasons that lie outside the disk's contents.
-/

namespace BrowserAgent

inductive DiskError where
  | missing
  | notDirectory
  | isDirectory
  | occupied
  | notEmpty
  | denied
  | full
  | busy
  | nameTooLong
  | tooManyLinks
  /-- A zero byte would end the path too early. -/
  | zeroByte
  /-- The file holds bytes that are no text. -/
  | notText
deriving DecidableEq, Repr

namespace DiskError

/-- The reason in words, and the number that the system gives it. -/
def reason : DiskError → String × Option Nat
  | missing => ("No such file or directory", some 2)
  | notDirectory => ("Not a directory", some 20)
  | isDirectory => ("Is a directory", some 21)
  | occupied => ("File exists", some 17)
  | notEmpty => ("Directory not empty", some 39)
  | denied => ("Permission denied", some 13)
  | full => ("No space left on device", some 28)
  | busy => ("Device or resource busy", some 16)
  | nameTooLong => ("File name too long", some 36)
  | tooManyLinks => ("Too many levels of symbolic links", some 40)
  | zeroByte => ("file name contained an unexpected NUL byte", none)
  | notText => ("stream did not contain valid UTF-8", none)

def message (e : DiskError) : String :=
  match e.reason with
  | (words, some number) => words ++ " (os error " ++ toString number ++ ")"
  | (words, none) => words

end DiskError

inductive DiskEntry where
  /-- The file with the number. -/
  | file (number : Nat)
  | directory
  /-- What is written there is lost, and nothing can be read from it. -/
  | nullDevice
  /-- A symbolic link. -/
  | link (target : Path)
deriving DecidableEq, Repr

/-- What keeps a file from being written. -/
inductive WriteLimit where
  /-- The file cannot be opened. -/
  | refused
  /-- So many bytes fit into the file. -/
  | room (bytes : Nat)
deriving DecidableEq, Repr

/-- Where the operations on a disk stop. -/
structure DiskLimits where
  /-- How many directories can still be made, if that is limited. -/
  directories : Option Nat
  write : Option WriteLimit
  canRename : Bool
deriving DecidableEq, Repr

def DiskLimits.unlimited : DiskLimits := ⟨none, none, true⟩

abbrev Place := List String

structure Disk where
  entries : List (Place × DiskEntry)
  /-- What the files hold, by their numbers. -/
  contents : List (Nat × List UInt8)
  limits : DiskLimits
deriving DecidableEq, Repr

/-! ## Places -/

namespace Place

/-- The directories of the system, below the root. -/
def systemDirectories : List Place :=
  [["bin"], ["dev"], ["etc"], ["home"], ["root"], ["tmp"], ["usr"], ["usr", "bin"], ["var"]].map
    ("/" :: ·)

/-- Whether the place lies above the working directory. -/
def isAbove (place : Place) : Bool := place.all (· == "..")

/-- The place of the directory around a place. The root lies in itself. -/
def parent (place : Place) : Place :=
  if place = ["/"] then place else if place.isAbove then place ++ [".."] else place.dropLast

def next (place : Place) (name : String) : Place :=
  if name = ".." then place.parent else if name = "." then place else place ++ [name]

/-- What is always at the place. -/
def standing? (place : Place) : Option DiskEntry :=
  if place.isAbove || place = ["/"] || systemDirectories.contains place then some .directory
  else if place = ["/", "dev", "null"] then some .nullDevice
  else none

end Place

namespace Path

/-- The place from which the names of the path lead on, seen from a directory. -/
def startFrom (base : Place) (p : Path) : Place := if p.isAbsolute then ["/"] else base

/-- The names that lead on from there. -/
def steps (p : Path) : List String := p.segments.filter fun s => !saysNothing s

/-- The names of a path on which another way goes on. If the path asks for a directory they end in
a dot, which only a directory has. -/
def stepsThrough (p : Path) : List String := p.steps ++ if p.namesDirectory then ["."] else []

end Path

namespace Disk

def empty : Disk := ⟨[], [], .unlimited⟩

def entryAt? (d : Disk) (place : Place) : Option DiskEntry :=
  place.standing?.or (d.entries.lookup place)

def linkAt? (d : Disk) (place : Place) : Option Path :=
  match d.entryAt? place with
  | some (.link target) => some target
  | _ => none

def bytesOf (d : Disk) (number : Nat) : List UInt8 := (d.contents.lookup number).getD []

def remove (place : Place) (d : Disk) : Disk :=
  { d with entries := d.entries.filter fun e => e.1 != place }

def put (place : Place) (entry : DiskEntry) (d : Disk) : Disk :=
  { d with entries := (place, entry) :: (d.remove place).entries }

def setContents (number : Nat) (bytes : List UInt8) (d : Disk) : Disk :=
  { d with contents := (number, bytes) :: d.contents.filter fun c => c.1 != number }

def numberOf? : DiskEntry → Option Nat
  | .file number => some number
  | .directory | .nullDevice | .link _ => none

/-- A number that no file has, nor had. -/
def newNumber (d : Disk) : Nat :=
  (d.entries.filterMap (fun e => numberOf? e.2) ++ d.contents.map (·.1)).max?.getD 0 + 1

def putNew (place : Place) (bytes : List UInt8) (d : Disk) : Disk :=
  (d.put place (.file d.newNumber)).setContents d.newNumber bytes

/-! ## Finding -/

/-- The most bytes of one name, and of a path. -/
def longestName : Nat := 255

def longestPath : Nat := 4095

/-- The most links that one path leads through. -/
def mostLinks : Nat := 40

/-- What makes a path no path at all. -/
def pathFault? (p : Path) : Option DiskError :=
  if p.text.toList.contains '\x00' then some .zeroByte
  else if longestPath < p.text.utf8ByteSize then some .nameTooLong
  else none

/-- The place that a name leads to, inside a directory. -/
def descend (d : Disk) (place : Place) (name : String) : Except DiskError Place :=
  match d.entryAt? place with
  | none => .error .missing
  | some .directory =>
    if longestName < name.utf8ByteSize then .error .nameTooLong else .ok (place.next name)
  | some _ => .error .notDirectory

/-- Goes along the names. Every place on the way has to be a directory, and from a link the way
goes on along its target; a link at the end may be left as it is. -/
def walkBy (d : Disk) (follow : Bool) (onLink : Place → List String → Except DiskError Place) :
    Place → List String → Except DiskError Place
  | place, [] => .ok place
  | place, name :: more => do
    let next ← d.descend place name
    match d.linkAt? next with
    | some target =>
      if more.isEmpty && !follow then return next
      else onLink (target.startFrom place) (target.stepsThrough ++ more)
    | none => walkBy d follow onLink next more

/-- The place that the names lead to, through so many links at most. -/
def walk (d : Disk) (follow : Bool) : Nat → Place → List String → Except DiskError Place
  | 0 => d.walkBy follow fun _ _ => .error .tooManyLinks
  | links + 1 => d.walkBy follow (d.walk follow links)

/-- The place that a path leads to, whether or not anything is there. A link at the path is followed
if asked, and always where the path asks for a directory. -/
def reach (d : Disk) (p : Path) (follow : Bool) : Except DiskError Place :=
  match pathFault? p with
  | some e => .error e
  | none =>
    if p.text = "" then .error .missing
    else d.walk (follow || p.namesDirectory) mostLinks (p.startFrom []) p.steps

/-- What the path leads to. -/
def lookUp (d : Disk) (p : Path) : Except DiskError DiskEntry := do
  match d.entryAt? (← d.reach p true) with
  | none => .error .missing
  | some .directory => return .directory
  -- A path that asks for a directory names no file.
  | some entry => if p.namesDirectory then .error .notDirectory else return entry

def contains (d : Disk) (p : Path) : Bool := (d.lookUp p).isOk

def read (d : Disk) (p : Path) : Except DiskError (List UInt8) := do
  match ← d.lookUp p with
  | .file number => return d.bytesOf number
  | .nullDevice => return []
  | .directory | .link _ => .error .isDirectory

def readText (d : Disk) (p : Path) : Except DiskError String := do
  let bytes ← d.read p
  (Text.ofBytes? bytes).elim (.error .notText) .ok

/-- The files below the working directory with their paths, in ascending order. -/
def files (d : Disk) : List (String × List UInt8) :=
  let named := d.entries.filterMap fun (place, entry) =>
    match entry with
    | .file number =>
      if place.head?.any fun name => name == "/" || name == ".." then none
      else some ("/".intercalate place, d.bytesOf number)
    | _ => none
  named.mergeSort fun a b => a.1 ≤ b.1

/-! ## Changing -/

/-- A directory is where the names lead. -/
def leadsToDirectory (d : Disk) (start : Place) (names : List String) : Bool :=
  match d.walk true mostLinks start names with
  | .ok place => d.entryAt? place == some .directory
  | .error _ => false

/-- Makes the directory that the names lead to, if there is none. -/
def makeDirectory (start : Place) (names : List String) : Run Disk DiskError Unit :=
  ExceptT.mk fun d =>
    match d.walk false mostLinks start names with
    | .error e => (.error e, d)
    | .ok place =>
      match d.entryAt? place, d.limits.directories with
      -- A link will do if it leads to a directory.
      | some _, _ => (if d.leadsToDirectory start names then .ok () else .error .occupied, d)
      | none, some 0 => (.error .full, d)
      | none, left =>
        (.ok (), { d.put place .directory with
          limits := { d.limits with directories := left.map (· - 1) } })

/-- Makes every directory on the way that is not there yet. The names are those of the way back. -/
def makeDirectories (start : Place) : List String → Run Disk DiskError Unit
  | [] => pure ()
  | name :: before => do
    let names := (name :: before).reverse
    match (← get).walk false mostLinks start names with
    | .error .missing => makeDirectories start before
    | _ => pure ()
    makeDirectory start names

def createDirectories (p : Path) : Run Disk DiskError Unit :=
  match pathFault? p with
  | some e => throw e
  | none => makeDirectories (p.startFrom []) p.steps.reverse

/-- Gives the file at the place its bytes; a file is made where there is none. -/
def setBytes (place : Place) (bytes : List UInt8) (d : Disk) : Disk :=
  match d.entryAt? place with
  | some (.file number) => d.setContents number bytes
  | some _ => d
  | none => d.putNew place bytes

/-- Writes a file from its first byte. -/
def writeAt (place : Place) (bytes : List UInt8) : Run Disk DiskError Unit :=
  ExceptT.mk fun d =>
    match d.limits.write with
    | none => (.ok (), d.setBytes place bytes)
    | some .refused => (.error .denied, d)
    -- When the room ends, what fits stays.
    | some (.room n) =>
      (if bytes.length ≤ n then .ok () else .error .full, d.setBytes place (bytes.take n))

/-- The place of a file that is there or can be made. -/
def locateFile (d : Disk) (p : Path) : Except DiskError Place := do
  let place ← d.reach p true
  if p.hasSlashAfterName then .error .isDirectory
  else match d.entryAt? place with
    | some .directory => .error .isDirectory
    | some (.file _) => if p.endsInDots then .error .notDirectory else return place
    | some _ => return place
    | none => if p.endsInDots then .error .missing else return place

def write (p : Path) (bytes : List UInt8) : Run Disk DiskError Unit := do
  writeAt (← liftM ((← get).locateFile p)) bytes

def bytesAt (d : Disk) (place : Place) : List UInt8 :=
  match d.entryAt? place with
  | some (.file number) => d.bytesOf number
  | _ => []

/-- Writes at the end of a file, which is made if it is not there. -/
def append (p : Path) (bytes : List UInt8) : Run Disk DiskError Unit := do
  let d ← get
  let place ← liftM (d.locateFile p)
  writeAt place (d.bytesAt place ++ bytes)

/-- The place that something other than a directory can be moved to. -/
def locateTarget (d : Disk) (p : Path) : Except DiskError Place := do
  let place ← d.reach p false
  if p.hasSlashAfterName then .error .notDirectory
  else if p.endsInDots then
    match d.entryAt? place with
    | some .directory => .error .busy
    | some _ => .error .notDirectory
    | none => .error .missing
  else match d.entryAt? place with
    | some .directory => .error .isDirectory
    | _ => return place

/-- Takes an entry from one place to another, where it stands in place of what was there. -/
def move (place goal : Place) (entry : DiskEntry) (d : Disk) : Disk :=
  (d.remove place).put goal entry

/-- Moves a file or a link to another path in one step. -/
def rename (source target : Path) : Run Disk DiskError Unit := do
  let d ← get
  let place ← liftM (d.reach source false)
  match d.entryAt? place with
  | none => throw .missing
  | some .directory | some .nullDevice => throw .isDirectory
  | some entry =>
    let goal ← liftM (d.locateTarget target)
    if !d.limits.canRename then throw .denied
    -- Where the same file stands already, it stays at both places.
    if (numberOf? entry).isSome && d.entryAt? goal == some entry then return
    set (d.move place goal entry)

end Disk

end BrowserAgent
