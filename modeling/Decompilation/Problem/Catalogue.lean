import Decompilation.Problem.Classify

/-!
# The catalogue of problems

One function for each problem that can be reported, from what is known about it. The reason of a
failed tool is the end of what the tool said, at most `excerptLength` characters of it.
-/

namespace Decompilation.Problem

open Json (Value)

def toolAdvice : List String :=
  ["Install ilspycmd globally: dotnet tool install -g ilspycmd",
    "Or set ILSPY_CMD in the environment or .env to the ilspycmd path",
    "Run diagnose-dotnet-setup to see which tools were found"]

def sdkAdvice : List String :=
  ["Install the .NET SDK (6.0 or later): https://dotnet.microsoft.com/download",
    "Make sure 'dotnet' is on PATH for the MCP server process",
    "Or set ILSPY_CMD to an existing ilspycmd executable"]

def failureAdvice : List String :=
  ["Verify the file is a managed .NET assembly (.dll or .exe)",
    "Check that ilspycmd runs: ilspycmd --version",
    "Do not call ilspycmd directly; re-run this MCP tool after fixing the setup"]

def timeoutAdvice : List String :=
  ["Large assemblies can take minutes; raise DOTNETDC_TIMEOUT",
    "Restrict the run to a single type with type_name"]

def sizeAdvice : List String :=
  ["Restrict the run to a single type with type_name",
    "Use decompile-selected-namespaces to narrow the output",
    "Raise MAX_FILES or MAX_BYTES if the machine can handle more"]

def typeAdvice : List String :=
  ["Use the fully qualified type name (Namespace.TypeName)",
    "Use list-dotnet-namespaces to see which namespaces exist"]

/-- The most characters of a tool's message that a reason shows. -/
def excerptLength : Nat := 500

/-- The end of what a tool said, or a general reason if it said nothing. -/
def excerpt (said : String) (otherwise : String) : String :=
  let s := Text.trim said.toList
  let s := s.drop (s.length - excerptLength)
  if s.isEmpty then otherwise else String.ofList s

/-- There is no ilspycmd at the places searched. -/
def toolNotFound (searched : List String) : Problem where
  code := .ilspyNotFound
  message := "Failed to resolve ilspycmd"
  reason := some "ilspycmd is not on PATH, not configured and could not be installed"
  suggestions := toolAdvice
  details := [("searched", .ofStrings searched)]

def sdkMissing : Problem where
  code := .dotnetSdkNotFound
  message := "dotnet SDK not found"
  reason := some "ilspycmd is not installed and the SDK needed to install it is missing"
  suggestions := sdkAdvice
  details := []

def assemblyNotFound (assembly : String) : Problem where
  code := .assemblyNotFound
  message := s!"Assembly not found: {assembly}"
  reason := some "The path does not exist or is not a regular file"
  suggestions :=
    ["Pass an absolute path to the .dll or .exe",
      "Check the path is readable by the MCP server process"]
  details := [("assembly_path", .str assembly)]

/-- A run of ilspycmd failed, with what it said and how it ended, if that is known. -/
def runFailed (assembly : String) (said : Option String) (exitCode : Option Value) : Problem :=
  let said := said.getD ""
  let code := Code.ofToolMessage said
  { code
    message := s!"ilspycmd failed to decompile {assembly}"
    reason := some (excerpt said "ilspycmd exited with an error")
    suggestions := if code = .typeNotFound then typeAdvice ++ failureAdvice else failureAdvice
    details := ("assembly_path", .str assembly) ::
      (match exitCode with
        | some n => [("exit_code", n)]
        | none => []) }

/-- Installing ilspycmd failed, with what the installer said. -/
def installFailed (folder : String) (said : Option String) : Problem where
  code := .ilspyInstallFailed
  message := s!"Could not install ilspycmd into {folder}"
  reason := some (excerpt (said.getD "") "dotnet tool install did not produce an executable")
  suggestions := toolAdvice
  details := [("tools_dir", .str folder)]

/-- A run of ilspycmd took longer than it may. -/
def timedOut (assembly : String) (seconds : Value) : Problem where
  code := .decompilationTimeout
  message := s!"ilspycmd timed out after {Json.display seconds}s"
  reason := some "Decompilation did not finish within the configured timeout"
  suggestions := timeoutAdvice
  details := [("assembly_path", .str assembly), ("timeout_seconds", seconds)]

def noOutput (assembly : String) : Problem where
  code := .noOutput
  message := "ilspycmd produced no source files"
  reason := some "The output directory is empty after decompilation"
  suggestions := failureAdvice
  details := [("assembly_path", .str assembly)]

/-- There is more output than may be read; `kind` names what was counted. -/
def outputTooLarge (kind : String) (actual limit : Value) : Problem where
  code := .outputTooLarge
  message := s!"Output too large: {Json.display actual} {kind} exceeds limit {Json.display limit}"
  reason := some s!"The decompiled output is over the MAX_{Text.uppercase kind} ceiling"
  suggestions := sizeAdvice
  details := [("kind", .str kind), ("actual", actual), ("limit", limit)]

/-- Whether a value stands for a parameter that was not given. -/
def countsAsMissing : Value → Bool
  | .null => true
  | .str s => s.isEmpty
  | .arr items => items.isEmpty
  | _ => false

/-- A parameter is missing or not as expected. -/
def badParameter (name : String) (given : Value) (expected : String) : Problem :=
  let missing := countsAsMissing given
  let verdict := if missing then "Missing" else "Invalid"
  { code := if missing then .parameterMissing else .parameterInvalid
    message := s!"{verdict} parameter: {name}"
    reason := some s!"Expected {expected}"
    suggestions := [s!"Provide a valid value for '{name}'"]
    details := [("parameter_name", .str name), ("provided_value", given)] }

end Decompilation.Problem
