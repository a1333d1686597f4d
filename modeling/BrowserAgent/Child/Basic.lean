import BrowserAgent.Disk.Basic
import BrowserAgent.Duration

/-!
# Child programs

A host starts programs: given the words of a command, what the program reads, the variables it sees
and the time it has, it tells what the program wrote, how it ended and how long it took.
-/

namespace BrowserAgent

structure ChildInput where
  stdin : List UInt8
  /-- The values of the variables that the program sees. -/
  environment : List (String × String)
  /-- A program that takes so long is killed. -/
  limit : Duration
deriving DecidableEq, Repr

inductive ChildEnd where
  | exited (code : Nat)
  /-- Ended by a signal. -/
  | killed
deriving DecidableEq, Repr

namespace ChildEnd

def succeeded : ChildEnd → Bool
  | exited code => code == 0
  | killed => false

/-- The exit code, which a killed program has not. -/
def codeText : ChildEnd → String
  | exited code => "Some(" ++ toString code ++ ")"
  | killed => "None"

end ChildEnd

structure ChildRun where
  stdout : List UInt8
  stderr : List UInt8
  ended : ChildEnd
  elapsed : Duration
deriving DecidableEq, Repr

/-- Why a program does not start. -/
inductive SpawnError where
  /-- There is no such program, or it may not be run. -/
  | program (cause : DiskError)
  /-- A zero byte would end a word or a variable too early. -/
  | zeroByte
  /-- A word or a variable is longer than the system allows. -/
  | tooLong
  /-- The file holds no program. -/
  | notProgram
deriving DecidableEq, Repr

def SpawnError.message : SpawnError → String
  | .program cause => cause.message
  | .zeroByte => "nul byte found in provided data"
  | .tooLong => "Argument list too long (os error 7)"
  | .notProgram => "Exec format error (os error 8)"

structure ChildHost (η : Type) where
  /-- Runs the program of the first word with the other words as its arguments. -/
  run : String → List String → ChildInput → Run η SpawnError ChildRun

end BrowserAgent
