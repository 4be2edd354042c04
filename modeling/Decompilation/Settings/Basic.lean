import Decompilation.Disk.Files
import Decompilation.Text.Digits

/-!
# Settings

A setting comes from the environment or, failing that, from the file `.env` in the folder that one
stands in. A file of that name in the folder where the program is installed, or in one of the four folders
above it, would be read in its place; there is none on the machines considered here. The file is read once
and then remembered. Saving a setting changes the environment, the file and what is remembered, in this
order.
-/

namespace Decompilation.Settings

open Act

def serverName : String := "dotnetdc"

def version : String := "0.2.0"

/-- The settings with what they are for, in order. -/
def catalogue : List (String × String) :=
  [("ILSPY_CMD", "Path to the ilspycmd executable (auto-detected and saved when unset)"),
    ("DOTNETDC_TIMEOUT", "Timeout for a single ilspycmd run (seconds, default: 300)"),
    ("MAX_CONCURRENCY", "Maximum concurrent ilspycmd processes (default: 2)"),
    ("MAX_FILES", "Maximum decompiled files read per request (default: 5000)"),
    ("MAX_BYTES", "Maximum decompiled characters read per request (default: 50 MiB)"),
    ("DOTNETDC_LOG_LEVEL", "Logging level (DEBUG, INFO, WARNING, ERROR)")]

def file : Act Path := do return (← cwdPath) / ".env"

/-- The settings in a file; none if it cannot be read. -/
def entriesIn (p : Path) : Act (Table String String) :=
  orElse (do return EnvFile.parse (← Files.readLines p)) fun f =>
    if f.isRefusal then pure ∅ else throw f

/-- The file of settings is read, unless it has been read before and `again` does not hold. -/
def load (again : Bool) : Act Unit := do
  if (← get).settings.loaded && !again then return
  let p ← file
  let entries ← if ← Files.isThere p then entriesIn p else pure ∅
  modify fun m => { m with settings := ⟨entries, true⟩ }

def get? (key : String) : Act (Option String) := do
  match (← get).environment.get? key with
  | some v => return some v
  | none =>
    load false
    return (← get).settings.entries.get? key

def getInt? (key : String) : Act (Option Int) := do
  return (← get? key).bind fun v => Text.integer? v.toList

/-- The value of a setting that is a whole number, or `default` if it is unset or none. -/
def getInt (key : String) (default : Int) : Act Int := do return (← getInt? key).getD default

def permits : Act Int := do return max 1 (← getInt "MAX_CONCURRENCY" 2)

def maxFiles : Act Int := getInt "MAX_FILES" 5000

def maxCharacters : Act Int := getInt "MAX_BYTES" (50 * 1024 * 1024)

def seconds : Act Int := getInt "DOTNETDC_TIMEOUT" 300

/-- An environment variable is set; not every name and value can be. -/
def setVariable (key value : String) : Act Unit := do
  if key.toList.elem '\x00' || value.toList.elem '\x00' then throw (.refused .nullByte [])
  else if key.toList.elem '=' then throw .badVariable
  else if key.isEmpty then throw (.refused .invalid [])
  else modify fun m => { m with environment := m.environment.insert key value }

/-- The text of a file of settings, or nothing if there is no file. -/
def currentText (p : Path) : Act (List Char) := do
  if ← Files.isThere p then Files.readText p else return []

/-- A setting is saved in the environment, in a file (the usual one if none is given) and in what is
remembered; the result is the file. -/
def save (key value : String) (given : Option Path) : Act Path := do
  setVariable key value
  let p ← match given with
    | some p => pure p
    | none => file
  let text ← currentText p
  Files.writeText p (EnvFile.assign key value text)
  modify fun m =>
    { m with settings := { m.settings with entries := m.settings.entries.insert key value } }
  return p

inductive Origin where
  | environment
  | file
  deriving DecidableEq, Repr

def Origin.name : Origin → String
  | .environment => "environment"
  | .file => ".env file"

/-- Every setting in order, with its origin and its value if it has one. -/
def status : Act (List (String × Option (Origin × String))) := do
  load false
  let m ← get
  return catalogue.map fun (key, _) =>
    (key, match m.environment.get? key, m.settings.entries.get? key with
      | some v, _ => some (.environment, v)
      | none, some v => some (.file, v)
      | none, none => none)

end Decompilation.Settings
