import Decompilation.Disk.Files
import Decompilation.Settings.Basic
import Decompilation.Text.Order

/-!
# The skeleton of a project

The two files that every project has, the project file and the manifest, and writing files only
where they change.
-/

namespace Decompilation.Project

open Act
open Json (Value)
open Decimal (Binary64)

def projectFileName : String := "Decompiled.csproj"

def manifestName : String := "Decompiled.manifest.json"

def projectFile : String :=
  "<?xml version=\"1.0\" encoding=\"utf-8\"?>\n" ++
  "<Project Sdk=\"Microsoft.NET.Sdk\">\n" ++
  "  <PropertyGroup>\n" ++
  "    <TargetFramework>net8.0</TargetFramework>\n" ++
  "    <ImplicitUsings>enable</ImplicitUsings>\n" ++
  "    <Nullable>enable</Nullable>\n" ++
  "  </PropertyGroup>\n" ++
  "  <ItemGroup>\n" ++
  "    <Compile Include=\"**/*.cs\" />\n" ++
  "  </ItemGroup>\n" ++
  "</Project>\n"

/-- Whether a path leads to a file that reads as a text. -/
def holdsText (p : Path) (text : List Char) : Act Bool := do
  if ← Files.isFile p then return (← Files.readLenient p) == text else return false

/-- A file gets a text unless it reads as that text already; whether it was written. -/
def writeIfChanged (p : Path) (text : List Char) : Act Bool := do
  if ← holdsText p text then return false
  Files.makeFolders p.parent
  Files.writeText p text
  return true

/-- A path from a folder to what lies below it, as a text. -/
def relative (root p : Path) : Act String :=
  match p.below? root with
  | some q => pure q.toString
  | none =>
    throw (.outside p.toString (if root = ⟨.here, []⟩ then "" else root.toString))

/-- A file gets a text as in `writeIfChanged`; the paths written so far are continued by its path,
from a root if there is one. -/
def writeAndList (p : Path) (text : List Char) (written : List String) (root : Option Path) :
    Act (List String) := do
  if ← writeIfChanged p text then
    match root with
    | some r => return written ++ [← relative r p]
    | none => return written ++ [p.toString]
  else return written

structure TypePlace where
  namespaceName : String
  typeName : String
  file : String
  deriving DecidableEq, Repr

def TypePlace.toValue (t : TypePlace) : Value :=
  .obj [("namespace", .str t.namespaceName), ("typeName", .str t.typeName), ("file", .str t.file)]

/-- A time in nanoseconds as whole milliseconds. The seconds and the fraction are added as rounded
numbers first. -/
def milliseconds (nanoseconds : Int) : Int :=
  let fraction := Binary64.mul (Binary64.ofDecimal false 1 (-9))
    (.ofInt (Int.fmod nanoseconds 1000000000))
  let seconds := Binary64.add (.ofInt (Int.fdiv nanoseconds 1000000000)) fraction
  (Binary64.mul seconds (.ofInt 1000)).truncate

/-- The manifest of a project: who made it, when, from which assembly, with which options, and what
is in it. -/
def manifest (assembly : Path) (options : Value) (files : List String) (types : Value)
    (namespaces : List String) : Act Value := do
  let f ← match (← get).disk.stat (← get).cwd assembly with
    | .ok (.file f) => pure f
    | .ok _ => pure (File.ofBytes [])
    | .error r => throw (Fault.ofRefusal r assembly)
  return .obj [
    ("tool", .obj [("name", .str Settings.serverName), ("version", .str Settings.version)]),
    ("generatedAt", .str (← get).clock.text),
    ("assembly", .obj [
      ("path", .str assembly.toString),
      ("mtimeMs", .int (milliseconds f.modified)),
      ("size", .int f.size)]),
    ("options", options),
    ("files", .ofStrings (Text.inOrder files)),
    ("typeMappings", types),
    ("namespaces", .ofStrings namespaces)]

end Decompilation.Project
