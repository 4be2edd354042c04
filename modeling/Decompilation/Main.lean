import Decompilation.Json.Parser
import Decompilation.Server

/-!
# The program

Serves the tools on standard input and output. Each line is a call, a data value with the fields
`tool` and `arguments`; each is answered by a line with the tool's text. The machine that the tools
work on starts with an empty disk and without programs.
-/

namespace Decompilation.Main

open Json (Value)

/-- The folder that the service stands in. -/
def home : Place := ["home"]

/-- A machine with nothing on it but the service's own folders. -/
def blank : Machine where
  disk := (Disk.empty.put home .folder).put ["tmp"] .folder
  environment := Table.ofList [("HOME", "/home"), ("PATH", "/bin")]
  homes := ⟨some "/home", fun _ => none⟩
  cwd := home
  scratch := Path.ofString "/tmp"
  system := "Linux"
  clock := ⟨1970, 1, 1, 0, 0, 0, 0⟩
  toolbox := .idle
  calls := []
  settings := ⟨∅, false⟩
  memory := ⟨none, none⟩
  shared := none

def unknownTool : String := "Error: Unknown tool"

def answerLine (line : String) : Act String := do
  let request := (Json.parse line).getD .null
  let name := (ToolCall.textField? request "tool").getD ""
  match ToolCall.ofRequest? name (ToolCall.fieldOrNull request "arguments") with
  | some call => call.answer (← Server.sharedRunner)
  | none => return unknownTool

/-- The answer to a line as a text, whatever happens, and the machine after it. -/
def reply (line : String) (m : Machine) : String × Machine :=
  match answerLine line m with
  | .ok s m => (s, m)
  | .error f m => (f.toolText, m)

/-- Lines are answered until there are no more. -/
partial def serve (input output : IO.FS.Stream) (m : Machine) : IO Unit := do
  let line ← input.getLine
  if line.isEmpty then return
  let (s, m) := reply line m
  output.putStrLn (String.ofList (Json.printString s))
  output.flush
  serve input output m

def started : Machine :=
  match Server.start blank with
  | .ok _ m => m
  | .error _ m => m

end Decompilation.Main

/-- Serves the tools on standard input and output. -/
def main : IO Unit := do
  Decompilation.Main.serve (← IO.getStdin) (← IO.getStdout) Decompilation.Main.started
