import Decompilation.Clock
import Decompilation.Disk.Walk
import Decompilation.Fault
import Decompilation.Process.Reaction
import Decompilation.Settings.EnvFile

/-!
# The machine that a service works on

The state that operations read and change: the disk, the environment, the programs that can be
started and the attempts to start one so far, and what the service remembers. An operation is an `Act`:
it ends with a result or with a fault, and in both cases with a machine.
-/

namespace Decompilation

open Json (Value)

/-- The settings read from a file, and whether the file has been read. -/
structure SettingsCache where
  entries : Table String String
  loaded : Bool

/-- The programs found so far, by their paths. -/
structure ToolMemory where
  ilspycmd : Option String
  dotnet : Option String

/-- How ilspycmd is run: where it is installed when it is missing, how many runs there may be at
once, and the seconds that a run may take, both as they were given. -/
structure Runner where
  toolsFolder : Path
  permits : Value
  seconds : Value

/-- The home folders that the system has for accounts: for the one that the service runs under, and for
accounts by their names. -/
structure Homes where
  own : Option String
  named : String → Option String

/-- The state of a machine and of the service on it. -/
structure Machine where
  disk : Disk
  environment : Table String String
  homes : Homes
  /-- The place that paths without an anchor start from. -/
  cwd : Place
  /-- The folder in which temporary folders are made. -/
  scratch : Path
  /-- The name of the operating system. -/
  system : String
  clock : Clock
  toolbox : Toolbox
  /-- The attempts so far to start a program, in order. -/
  calls : List Call
  settings : SettingsCache
  memory : ToolMemory
  /-- The runner that all parts of the program share, once it is made. -/
  shared : Option Runner

/-- The attempts of which a running program came. -/
def Machine.processes (m : Machine) : List Call := m.calls.filter (·.started)

/-- An operation on a machine. -/
abbrev Act := EStateM Fault Machine

namespace Act

/-- The result of asking the disk, with the fault for a refusal. -/
def ofDisk {α : Type} (fault : Refusal → Fault) : Except Refusal α → Act α
  | .ok a => pure a
  | .error r => throw (fault r)

def modifyDisk (f : Disk → Disk) : Act Unit := modify fun m => { m with disk := f m.disk }

/-- An operation with a second one for its faults; what the first one did stays done. -/
def orElse {α : Type} (act : Act α) (handle : Fault → Act α) : Act α := fun m =>
  match act m with
  | .ok a m => .ok a m
  | .error f m => handle f m

/-- An operation whose refusals by the system are passed over. -/
def optional (act : Act Unit) : Act Unit :=
  orElse act fun f => if f.isRefusal then pure () else throw f

/-- Whether a count is above a limit, which must be a number. -/
def isAbove (count : Int) (limit : Value) : Act Bool :=
  match limit.isBelow? count with
  | some b => pure b
  | none => throw (.incomparable ">" (Value.int count).kindName limit.kindName)

/-- The path of the folder that one stands in; a folder that is gone has none. -/
def cwdPath : Act Path := do
  let p := (← get).cwd
  if p.isGone then throw (.refused .missing []) else return Disk.pathOf p

end Act

end Decompilation
