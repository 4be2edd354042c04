import Decompilation.Project.Tree
import Decompilation.Report.Diagnosis
import Decompilation.Report.Listing
import Decompilation.Runner.Diagnosis
import Decompilation.Service.Layout

/-!
# Tools for clients

Eight tools that answer with text. A tool refuses a call that lacks what it needs, and tells any
fault as text that starts with `Error:`.
-/

namespace Decompilation

open Act
open Json (Value)

/-- A call of a tool with its arguments. -/
inductive ToolCall where
  | decompileAssembly (s : Service.Subject) (language : Value)
  | listNamespaces (s : Service.Subject)
  | selectedNamespaces (s : Service.Subject) (namespaces : Value)
  | selectedNamespacesToFolder (s : Service.Subject) (output namespaces : Value)
  | projectStructure (s : Service.Subject) (output documentation : Value)
  | perNamespaceToFolder (s : Service.Subject) (output : Value)
  | assemblyToFolder (s : Service.Subject) (output : Value)
  | diagnose

namespace ToolCall

def names : List String :=
  ["decompile-dotnet-assembly", "decompile-dotnet-assembly-to-dir",
    "decompile-per-namespace-to-dir", "decompile-selected-namespaces",
    "decompile-selected-namespaces-to-dir", "decompile-to-project-structure",
    "diagnose-dotnet-setup", "list-dotnet-namespaces"]

def textField? (arguments : Value) (key : String) : Option String :=
  match arguments.field? key with
  | some (.str s) => some s
  | _ => none

def fieldOrNull (arguments : Value) (key : String) : Value := (arguments.field? key).getD .null

/-- What is said about documentation, which is wanted if nothing is said. -/
def documentationOf (arguments : Value) : Value :=
  (arguments.field? "include_docs").getD (.bool true)

/-- The subject that arguments name. -/
def subjectOf (arguments : Value) : Service.Subject :=
  ⟨fieldOrNull arguments "assembly_path", fieldOrNull arguments "type_name"⟩

def ofRequest? (name : String) (arguments : Value) : Option ToolCall :=
  let subject := subjectOf arguments
  let output := fieldOrNull arguments "output_dir"
  let namespaces := fieldOrNull arguments "namespaces"
  match name with
  | "decompile-dotnet-assembly" =>
    some (.decompileAssembly subject (fieldOrNull arguments "language"))
  | "list-dotnet-namespaces" => some (.listNamespaces subject)
  | "decompile-selected-namespaces" => some (.selectedNamespaces subject namespaces)
  | "decompile-selected-namespaces-to-dir" =>
    some (.selectedNamespacesToFolder subject output namespaces)
  | "decompile-to-project-structure" =>
    some (.projectStructure subject output (documentationOf arguments))
  | "decompile-per-namespace-to-dir" => some (.perNamespaceToFolder subject output)
  | "decompile-dotnet-assembly-to-dir" => some (.assemblyToFolder subject output)
  | "diagnose-dotnet-setup" => some .diagnose
  | _ => none

/-- The answer to a call that names no assembly. -/
def missingAssembly : String := "Error: Missing assembly_path parameter"

/-- The answer to a call that lacks an assembly or an output folder. -/
def missingAssemblyOrFolder : String := "Error: Missing assembly_path or output_dir parameter"

/-- The report of a project that was written. -/
def projectReport (output : Value) (files : List String) : Act String := do
  let folder := Json.display output
  let tree ← match Project.buildTree folder files with
    | .ok t => pure t
    | .error f => throw f
  let maxFiles ← Settings.maxFiles
  let maxCharacters ← Settings.maxCharacters
  let data : Value := .obj [("outputDir", output), ("files", .ofStrings files),
    ("tree", tree.toValue),
    ("stats", .obj [("fileCount", .int files.length), ("maxFiles", .int maxFiles),
      ("maxBytes", .int maxCharacters)])]
  return Report.writtenCount files.length folder ++ "\n\n" ++ Report.dataBlock data

/-- What a call lacks, if it lacks anything. -/
def lacks? : ToolCall → Option String
  | .decompileAssembly s _ | .listNamespaces s =>
    if s.assembly.isPresent then none else some missingAssembly
  | .selectedNamespaces s namespaces =>
    if s.assembly.isPresent && namespaces.isPresent then none
    else some "Error: Missing assembly_path or namespaces[]"
  | .selectedNamespacesToFolder s output namespaces =>
    if s.assembly.isPresent && output.isPresent && namespaces.isPresent then none
    else some "Error: Missing assembly_path, output_dir or namespaces[]"
  | .projectStructure s output _ | .perNamespaceToFolder s output | .assemblyToFolder s output =>
    if s.assembly.isPresent && output.isPresent then none else some missingAssemblyOrFolder
  | .diagnose => none

def perform (r : Runner) : ToolCall → Act String
  | .decompileAssembly s language => return String.ofList (← Service.decompile r s language)
  | .listNamespaces s => return Report.namespaceList (← Service.namespaces r s)
  | .selectedNamespaces s namespaces =>
    return String.ofList (← Service.selectedUnits r s namespaces)
  | .selectedNamespacesToFolder s output namespaces => do
    let files ← Service.selectedUnitsToFolder r s output namespaces
    return Report.writtenFiles files (Json.display output)
  | .projectStructure s output documentation => do
    projectReport output (← Service.layOut r s output documentation)
  | .perNamespaceToFolder s output =>
    return Report.writtenFiles (← Service.unitsToFolder r s output) (Json.display output)
  | .assemblyToFolder s output =>
    return Report.writtenFiles (← Service.decompileToFolder r s output) (Json.display output)
  | .diagnose => do
    match Report.diagnosis (← Runner.diagnose r).toValue with
    | .ok s => return s
    | .error f => throw f

def answer (r : Runner) (call : ToolCall) : Act String :=
  match call.lacks? with
  | some s => pure s
  | none => orElse (perform r call) fun f => pure f.toolText

end ToolCall

end Decompilation
