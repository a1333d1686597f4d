import BrowserAgent.Disk.Replacement
import BrowserAgent.Settings.Fields

/-!
# Settings on disk

Where there is no file the standard settings hold. Settings that are not valid are neither loaded
nor saved.
-/

namespace BrowserAgent

/-- Why settings were not loaded. -/
inductive SettingsLoadError where
  | unread (path : Path) (cause : DiskError)
  | malformed (path : Path)
  | invalid (fault : SettingsFault)
deriving DecidableEq, Repr

/-- Why settings were not saved. -/
inductive SettingsSaveError where
  | invalid (fault : SettingsFault)
  | disk (error : ReplaceError)
deriving DecidableEq, Repr

def SettingsLoadError.message : SettingsLoadError → String
  | .unread path _ => "read " ++ path.text
  | .malformed path => "parse " ++ path.text
  | .invalid fault => fault.message

/-- The message with what led to it. -/
def SettingsLoadError.chain : SettingsLoadError → String
  | .unread path cause => (SettingsLoadError.unread path cause).message ++ ": " ++ cause.message
  | e => e.message

def SettingsSaveError.message : SettingsSaveError → String
  | .invalid fault => fault.message
  | .disk ⟨.createDirectory parent, _⟩ => "create directory " ++ parent.text
  | .disk ⟨.writeTemporary temporary, _⟩ => "write temp config " ++ temporary.text
  | .disk ⟨.replace path, _⟩ => "replace config " ++ path.text

def SettingsSaveError.chain : SettingsSaveError → String
  | .disk e => (SettingsSaveError.disk e).message ++ ": " ++ e.cause.message
  | e => e.message

namespace Settings

/-- The settings, if they are valid. -/
def checked (s : Settings) : Except SettingsFault Settings := s.fault?.elim (.ok s) .error

def load (p : Path) (d : Disk) : Except SettingsLoadError Settings :=
  if d.contains p then
    match d.readText p with
    | .error cause => .error (.unread p cause)
    | .ok text =>
      match read? text with
      | none => .error (.malformed p)
      | some s => s.checked.mapError .invalid
  else standard.checked.mapError .invalid

def save (p : Path) (s : Settings) : Run Disk SettingsSaveError Unit :=
  match s.fault? with
  | some fault => throw (.invalid fault)
  | none =>
    (Disk.replaceFile p (p.withExtension "toml.tmp") (Text.toBytes s.render)).mapError .disk

end Settings

end BrowserAgent
