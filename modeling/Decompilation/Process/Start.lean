import Decompilation.Disk.Files

/-!
# Starting programs

`start` asks the machine's toolbox how the program reacts, records the attempt, and tells how it ended.
A program that cannot be started is recorded as one that never ran. One whose files cannot be written
did run, but its caller is told of a failure, as if it had not.
-/

namespace Decompilation.Process

open Act
open Json (Value)

/-- The name of the program at a path, up to its first dot. -/
def stem (program : String) : String :=
  String.ofList ((Path.ofString program).name.toList.takeWhile (· != '.'))

/-- The argument behind a flag. -/
def argumentOf? (flag : String) : List String → Option String
  | a :: b :: rest => if a = flag then some b else argumentOf? flag (b :: rest)
  | _ => none

/-- The reaction to a command, and the flag that names its output folder. -/
def react (command : List String) : Act (Reaction × String) := do
  let m ← get
  match command with
  | [program, "--version"] => return (m.toolbox.version (stem program), "--tool-path")
  | _ :: "tool" :: action :: _ => return (m.toolbox.manage action, "--tool-path")
  | _ =>
    let (r, t) := m.toolbox.nextRun
    set { m with toolbox := t }
    return (r, "-o")

def leave (folder : Path) : List (String × Deposit) → Act Unit
  | [] => pure ()
  | (name, d) :: rest => do
    Files.deposit (folder / name) d
    leave folder rest

/-- A program is to be started and, if it comes to run, runs to its end. -/
def start (command : List String) (seconds : Value) : Act (Except Interruption Completed) := do
  let (r, flag) ← react command
  let call : Call := ⟨command, seconds, r.starts⟩
  modify fun m => { m with calls := m.calls ++ [call] }
  match r with
  | .overrun => return .error (.overrun call)
  | .failure message => return .error (.failure message)
  | .ended files code output errors =>
    let folder := argumentOf? flag command.tail
    orElse
      (do
        match folder with
        | some p => leave (Path.ofString p) files
        | none => pure ()
        return .ok ⟨code, output, errors⟩)
      fun f => return .error (.failure f.message)

def interruptionText : Interruption → String
  | .overrun call =>
    "Command '" ++ Json.display (.ofStrings call.command) ++
      s!"' timed out after {Json.display call.seconds} seconds"
  | .failure message => message

end Decompilation.Process
