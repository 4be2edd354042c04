import Decompilation.Disk.Basic
import Decompilation.Json.Basic

/-!
# Programs that are started

What the programs ilspycmd and dotnet do when they are started is a parameter of everything else: a
`Toolbox` says how each start ends and which files it leaves behind.
-/

namespace Decompilation

open Json (Value)

inductive Deposit where
  | file (f : File)
  | folder
  | link (target : String)

/-- How a started program ends. -/
inductive Reaction where
  /-- It is still running when its time is over. -/
  | overrun
  /-- It does not come to run, with the system's message. -/
  | failure (message : String)
  /-- It ends by itself and leaves files below its output folder. -/
  | ended (files : List (String × Deposit)) (code : Int) (output errors : String)

def Reaction.idle : Reaction := .ended [] 0 "" ""

/-- Whether the program comes to run. -/
def Reaction.starts : Reaction → Bool
  | .failure _ => false
  | _ => true

/-- How the programs react: to a question for the version, by program name; to a request of dotnet's
tool command, by its action; and to runs of ilspycmd, one after the other, the last reaction going
on for ever. -/
structure Toolbox where
  version : String → Reaction
  manage : String → Reaction
  runs : List Reaction

namespace Toolbox

/-- A toolbox whose programs do nothing, except that dotnet installs nothing and says so. -/
def idle : Toolbox := ⟨fun _ => .idle, fun _ => .ended [] 1 "" "", []⟩

/-- The reaction to the next run, and the toolbox after it. -/
def nextRun (t : Toolbox) : Reaction × Toolbox :=
  match t.runs with
  | [] => (.idle, t)
  | [r] => (r, t)
  | r :: rs => (r, { t with runs := rs })

end Toolbox

/-- An attempt to start a program: the command, the seconds that it is given, and whether the program
came to run. -/
structure Call where
  command : List String
  seconds : Value
  started : Bool
  deriving BEq, Repr

structure Completed where
  code : Int
  output : String
  errors : String
  deriving DecidableEq, Repr

/-- Why a program did not end by itself. -/
inductive Interruption where
  | overrun (call : Call)
  | failure (message : String)
  deriving BEq, Repr

end Decompilation
