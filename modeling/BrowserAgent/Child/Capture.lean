/-!
# Bounded capture of a stream

A stream is read in chunks until an empty one comes. Bytes are kept up to a limit; those beyond it
are read as well, but only counted.
-/

namespace BrowserAgent

structure Capture where
  kept : List UInt8
  /-- How many bytes were read and not kept. -/
  dropped : Nat
deriving DecidableEq, Repr

namespace Capture

def add (limit : Nat) (c : Capture) (chunk : List UInt8) : Capture :=
  let room := limit - c.kept.length
  ⟨c.kept ++ chunk.take room, c.dropped + (chunk.length - room)⟩

/-- The capture after the reads that are left. -/
def readOn {ε : Type} (limit : Nat) : Capture → List (Except ε (List UInt8)) → Except ε Capture
  | c, [] => .ok c
  -- A read that fails leaves nothing.
  | _, .error e :: _ => .error e
  | c, .ok chunk :: more => if chunk.isEmpty then .ok c else readOn limit (c.add limit chunk) more

/-- What is captured from a stream, given what each read delivers. -/
def read {ε : Type} (limit : Nat) (reads : List (Except ε (List UInt8))) : Except ε Capture :=
  readOn limit ⟨[], 0⟩ reads

def chunkSize : Nat := 8192

/-- The reads of a stream that never waits and never fails, for at most so many bytes. -/
def readsOf {ε : Type} : Nat → List UInt8 → List (Except ε (List UInt8))
  | 0, _ => []
  | fuel + 1, bytes =>
    if bytes.isEmpty then []
    else .ok (bytes.take chunkSize) :: readsOf fuel (bytes.drop chunkSize)

/-- What is captured from a stream of the bytes. -/
def ofBytes (limit : Nat) (bytes : List UInt8) : Capture :=
  match read (ε := Empty) limit (readsOf bytes.length bytes) with
  | .ok c => c

end Capture

end BrowserAgent
