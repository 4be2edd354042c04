import Decompilation.Problem.Basic
import Decompilation.Text.Search

/-!
# Classifying what a tool said

The code of a tool's message is found by phrases in its lower form, the most specific first.
-/

namespace Decompilation

open Text (mentions)

/-- The code that the message of a tool stands for. -/
def Code.ofToolMessage (message : String) : Code :=
  let s := Text.lower message.toList
  if mentions s "could not find type" || (mentions s "type" && mentions s "not found") then
    .typeNotFound
  else if mentions s "badimageformat" || mentions s "not a .net" || mentions s "pe file" ||
      mentions s "metadata" then
    .assemblyInvalid
  else if mentions s "filenotfound" || mentions s "could not find file" then .assemblyNotFound
  else if mentions s "timed out" || mentions s "timeout" then .decompilationTimeout
  else .decompilationFailed

end Decompilation
