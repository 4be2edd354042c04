import Decompilation.Tools

/-!
# The server

The parts of the program share one runner, which is made when it is first needed. Starting the
server settles how much it logs and registers its tools.
-/

namespace Decompilation.Server

open Act

def sharedRunner : Act Runner := do
  match (← get).shared with
  | some r => return r
  | none =>
    let r ← Runner.make .none
    modify fun m => { m with shared := some r }
    return r

def levels : List (String × Nat) :=
  [("NOTSET", 0), ("DEBUG", 10), ("INFO", 20), ("WARN", 30), ("WARNING", 30), ("ERROR", 40),
    ("CRITICAL", 50), ("FATAL", 50)]

/-- The level that a setting names, in any case; anything else is the level of information. -/
def levelOf (setting : Option String) : Nat :=
  (levels.lookup (Text.uppercase (setting.getD ""))).getD 20

/-- A server that has been started: its name, its level of logging and its tools. -/
structure Started where
  name : String
  level : Nat
  tools : List String

def start : Act Started := do
  let level := levelOf (← Settings.get? "DOTNETDC_LOG_LEVEL")
  let _ ← sharedRunner
  return ⟨Settings.serverName, level, ToolCall.names⟩

end Decompilation.Server
