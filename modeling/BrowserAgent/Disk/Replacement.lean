import BrowserAgent.Disk.Basic

/-!
# Replacing a file as a whole

The new contents are written beside the file and then moved over it, so that the file holds its
old contents or all of the new ones at any time. The directories on the way are made first.
-/

namespace BrowserAgent

/-- The steps of a replacement, with the path that each works on. -/
inductive ReplaceStep where
  | createDirectory (parent : Path)
  | writeTemporary (temporary : Path)
  | replace (path : Path)
deriving DecidableEq, Repr

structure ReplaceError where
  step : ReplaceStep
  cause : DiskError
deriving DecidableEq, Repr

namespace Disk

/-- Makes the directory of the path, if the path has one. -/
def createParent (p : Path) : Run Disk ReplaceError Unit :=
  match p.parent? with
  | some parent => (createDirectories parent).mapError (⟨.createDirectory parent, ·⟩)
  | none => pure ()

/-- Puts a file with the bytes at the path, by way of the temporary path. -/
def replaceFile (p temporary : Path) (bytes : List UInt8) : Run Disk ReplaceError Unit := do
  createParent p
  (write temporary bytes).mapError (⟨.writeTemporary temporary, ·⟩)
  (rename temporary p).mapError (⟨.replace p, ·⟩)

end Disk

end BrowserAgent
