import Decompilation.Runner.Locate

/-!
# Diagnosing the setup

What is installed and which limits are in force, found out without installing anything. A diagnosis
is a data value; `Report.diagnosis` writes it out for a reader.
-/

namespace Decompilation.Runner

open Act
open Json (Value)

/-- The seconds that a program may take to tell its version. -/
def versionSeconds : Value := .int 10

def isAvailable (r : Runner) : Act Bool := do return (← find? r).isSome

/-- The version that a program tells, unless it does not end by itself. -/
def versionOf? (program : String) : Act (Option Completed) := do
  match ← Process.start [program, "--version"] versionSeconds with
  | .ok c => return some c
  | .error _ => return none

/-- The version of ilspycmd, from its output or else from its errors. -/
def version? (r : Runner) : Act (Option String) := do
  match ← find? r with
  | none => return none
  | some tool =>
    return (← versionOf? tool).map fun c =>
      let out := Text.trimmed c.output
      if out.isEmpty then Text.trimmed c.errors else out

/-- What is found out about a setup. -/
structure Diagnosis where
  system : String
  ilspycmd : Option String
  ilspycmdVersion : Option String
  dotnet : Option String
  dotnetVersion : Option String
  runner : Runner
  maxFiles : Int
  maxCharacters : Int
  settings : List (String × Option (Settings.Origin × String))

def diagnose (r : Runner) : Act Diagnosis := do
  let system := (← get).system
  let maxFiles ← Settings.maxFiles
  let maxCharacters ← Settings.maxCharacters
  let settings ← Settings.status
  let ilspycmd ← find? r
  let ilspycmdVersion ← if ilspycmd.isSome then version? r else pure none
  let dotnet ← findDotnet?
  let dotnetVersion ← match dotnet with
    | some path => do pure ((← versionOf? path).map fun c => Text.trimmed c.output)
    | none => pure none
  return ⟨system, ilspycmd, ilspycmdVersion, dotnet, dotnetVersion, r, maxFiles, maxCharacters,
    settings⟩

def settingValue : Option (Settings.Origin × String) → Value
  | some (source, value) =>
    .obj [("set", .bool true), ("source", .str source.name), ("value", .str value)]
  | none => .obj [("set", .bool false), ("source", .null), ("value", .null)]

def Diagnosis.toValue (d : Diagnosis) : Value :=
  .obj [("platform", .str d.system),
    ("ilspycmd_found", .bool d.ilspycmd.isSome),
    ("ilspycmd_path", .ofString? d.ilspycmd),
    ("ilspycmd_version", .ofString? d.ilspycmdVersion),
    ("dotnet_found", .bool d.dotnet.isSome),
    ("dotnet_path", .ofString? d.dotnet),
    ("dotnet_version", .ofString? d.dotnetVersion),
    ("tools_dir", .str d.runner.toolsFolder.toString),
    ("max_concurrency", d.runner.permits),
    ("timeout", d.runner.seconds),
    ("max_files", .int d.maxFiles),
    ("max_bytes", .int d.maxCharacters),
    ("config", .obj (d.settings.map fun (k, s) => (k, settingValue s)))]

end Decompilation.Runner
