import Decompilation.Json.Printer
import Decompilation.Text.Blank

/-!
# Problems reported to users

A problem has a code for programs, a message, perhaps a reason, suggestions in order, and details by
name. It can be shown as lines of text or as a data value.
-/

namespace Decompilation

open Json (Value)

/-- What kind of thing went wrong. -/
inductive Code where
  | ilspyNotFound
  | dotnetSdkNotFound
  | ilspyInstallFailed
  | assemblyNotFound
  | assemblyInvalid
  | typeNotFound
  | decompilationFailed
  | decompilationTimeout
  | noOutput
  | outputTooLarge
  | parameterInvalid
  | parameterMissing
  deriving DecidableEq, Repr

namespace Code

def all : List Code :=
  [.ilspyNotFound, .dotnetSdkNotFound, .ilspyInstallFailed, .assemblyNotFound, .assemblyInvalid,
    .typeNotFound, .decompilationFailed, .decompilationTimeout, .noOutput, .outputTooLarge,
    .parameterInvalid, .parameterMissing]

def name : Code → String
  | .ilspyNotFound => "ILSPY_NOT_FOUND"
  | .dotnetSdkNotFound => "DOTNET_SDK_NOT_FOUND"
  | .ilspyInstallFailed => "ILSPY_INSTALL_FAILED"
  | .assemblyNotFound => "ASSEMBLY_NOT_FOUND"
  | .assemblyInvalid => "ASSEMBLY_INVALID"
  | .typeNotFound => "TYPE_NOT_FOUND"
  | .decompilationFailed => "DECOMPILATION_FAILED"
  | .decompilationTimeout => "DECOMPILATION_TIMEOUT"
  | .noOutput => "NO_OUTPUT"
  | .outputTooLarge => "OUTPUT_TOO_LARGE"
  | .parameterInvalid => "PARAMETER_INVALID"
  | .parameterMissing => "PARAMETER_MISSING"

def ofName? (s : String) : Option Code := all.find? (·.name == s)

end Code

structure Problem where
  code : Code
  message : String
  reason : Option String
  suggestions : List String
  details : List (String × Value)

namespace Problem

def toValue (p : Problem) : Value :=
  .obj [("error", .str p.code.name), ("message", .str p.message), ("reason", .ofString? p.reason),
    ("suggestions", .ofStrings p.suggestions), ("debug_info", .obj p.details)]

def toJson (p : Problem) (indent : Nat) : String := Json.print indent p.toValue

/-- Lines under a title, unless there are no lines. -/
def underTitle (title : String) (ls : List String) : List String :=
  if ls.isEmpty then [] else title :: ls

/-- Suggestions with their numbers, counted from `n`. -/
def numbered (n : Nat) : List String → List String
  | [] => []
  | s :: ss => s!"  {n}. {s}" :: numbered (n + 1) ss

def userText (p : Problem) : String :=
  let reason := match p.reason with
    | some r => if r.isEmpty then [] else [s!"Reason: {r}"]
    | none => []
  "\n".intercalate
    ([s!"Error [{p.code.name}]: {p.message}"] ++ reason ++
      underTitle "\nSuggested actions:" (numbered 1 p.suggestions) ++
      underTitle "\nDebug information:" (p.details.map fun (k, v) => s!"  {k}: {Json.display v}"))

end Problem

end Decompilation
