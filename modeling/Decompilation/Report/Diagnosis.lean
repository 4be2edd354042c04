import Decompilation.Fault
import Decompilation.Json.Printer

/-!
# Diagnoses for readers

A diagnosis, given as a data value, written out line by line. A value that lacks a field is refused
with the field that is missed first.
-/

namespace Decompilation.Report

open Json (Value)

/-- A field of a record, which must be there. -/
def need (record : Value) (key : String) : Except Fault Value :=
  match record.field? key with
  | some v => .ok v
  | none => .error (.missingField key)

def needText (record : Value) (key : String) : Except Fault String :=
  return Json.display (← need record key)

/-- The lines about a program that was found: its path and, if it is known, its version. -/
def found (d : Value) (title path version : String) : Except Fault String := do
  let place ← needText d path
  let v ← need d version
  let which := Json.display v
  return s!"✅ **{title}:** Found\n   - Path: `{place}`\n" ++
    (if v.isPresent then s!"   - Version: {which}\n" else "")

def ilspycmdLines (d : Value) : Except Fault String := do
  if (← need d "ilspycmd_found").isPresent then
    found d "ILSpyCmd" "ilspycmd_path" "ilspycmd_version"
  else
    let folder ← needText d "tools_dir"
    return "❌ **ILSpyCmd:** Not found\n   - Install with: `dotnet tool install -g ilspycmd`\n" ++
      s!"   - Or it will be installed into `{folder}` on first use\n"

def dotnetLines (d : Value) : Except Fault String := do
  if (← need d "dotnet_found").isPresent then found d ".NET SDK" "dotnet_path" "dotnet_version"
  else
    return "❌ **.NET SDK:** Not found\n" ++
      "   - Download from: https://dotnet.microsoft.com/download\n"

def limitLines (d : Value) : Except Fault String := do
  let permits ← needText d "max_concurrency"
  let seconds ← needText d "timeout"
  let files ← needText d "max_files"
  let characters ← needText d "max_bytes"
  return s!"\n**Limits:**\n- Max concurrency: {permits}\n- Timeout: {seconds}s\n" ++
    s!"- Max files: {files}\n- Max bytes: {characters}\n"

def settingLine (key : String) (state : Value) : Except Fault String := do
  if (← need state "set").isPresent then
    let value ← needText state "value"
    let source ← needText state "source"
    return s!"- {key}: `{value}` ({source})\n"
  else return s!"- {key}: not set\n"

def settingLines (d : Value) : Except Fault String := do
  match d.field? "config" with
  | some (.obj (f :: fs)) =>
    let ls ← (f :: fs).mapM fun (k, v) => settingLine k v
    return "\n**Configuration:**\n" ++ String.join ls
  | _ => return ""

def verdict (d : Value) : Except Fault String := do
  let ready ← if (← need d "ilspycmd_found").isPresent then pure true
    else pure (← need d "dotnet_found").isPresent
  return "\n---\n" ++
    (if ready then "✅ **.NET decompilation is ready!**\n"
      else "⚠️ **Setup required.** Install missing components above.\n")

def diagnosis (d : Value) : Except Fault String := do
  let ilspycmd ← ilspycmdLines d
  let dotnet ← dotnetLines d
  let limits ← limitLines d
  let settings ← settingLines d
  let platform ← needText d "platform"
  return "**.NET Decompiler Diagnostics**\n\n" ++ ilspycmd ++ "\n" ++ dotnet ++ limits ++
    settings ++ s!"\n**Platform:** {platform}\n" ++ (← verdict d)

end Decompilation.Report
