import Decompilation.Service.Units
import Decompilation.Source.TypeDeclaration

/-!
# An assembly as a project

A project file, a folder for each part of a namespace's name, a file for each type or for a unit in
which no type was recognized, the assembly's documentation, and a manifest that lists it all. Files
that would not change are left alone.
-/

namespace Decompilation.Service

open Act
open Json (Value)
open Source (Division)

/-- What has been written so far, and where the types went. -/
structure Progress where
  written : List String
  types : List Project.TypePlace

def writeBelow (root p : Path) (text : List Char) (done : Progress) : Act Progress := do
  return { done with written := ← Project.writeAndList p text done.written (some root) }

/-- The file of a unit in which no type was recognized. -/
def wholeUnitName (namespaceName : String) : String :=
  if namespaceName = Source.globalName then "Global.cs" else "Namespace.cs"

def writeTypes (d : Division) (root folder : Path) (namespaceName : String) :
    List (String × List Char) → Progress → Act Progress
  | [], done => return done
  | (typeName, code) :: rest, done => do
    let file := folder / (typeName ++ ".cs")
    let done ← writeBelow root file (d.renderUnit namespaceName code) done
    let place : Project.TypePlace := ⟨namespaceName, typeName, ← Project.relative root file⟩
    writeTypes d root folder namespaceName rest { done with types := done.types ++ [place] }

/-- A unit written: its types, or all of it if there are none. -/
def writeUnit (d : Division) (root : Path) (namespaceName : String) (body : List Char)
    (done : Progress) : Act Progress :=
  let folder := Project.unitFolder root namespaceName
  match (Source.splitTypes body).toList with
  | [] =>
    writeBelow root (folder / wholeUnitName namespaceName) (d.renderUnit namespaceName body) done
  | types => writeTypes d root folder namespaceName types done

def writeUnitList (d : Division) (root : Path) :
    List (String × List Char) → Progress → Act Progress
  | [], done => return done
  | (name, body) :: rest, done => do writeUnitList d root rest (← writeUnit d root name body done)

/-- Whether a fault only means that the documentation is left out. -/
def isTolerable : Fault → Bool
  | .undecodable _ => true
  | f => f.isRefusal

/-- The documentation beside an assembly written below the root, if there is any. -/
def writeDocumentation (assembly root : Path) (done : Progress) : Act Progress := do
  let documentation ← Runner.besides assembly ".xml"
  if ← Files.isFile documentation then
    orElse
      (do
        let text ← Files.readText documentation
        writeBelow root ((root / "Docs").child documentation.name) text done)
      fun f => if isTolerable f then return done else throw f
  else return done

/-- The options of a project as a data value, as they were given. -/
def optionsValue (typeName documentation : Value) : Value :=
  .obj [("typeName", typeName), ("includeDocs", documentation)]

/-- An assembly laid out as a project, with its documentation if that is wanted; the files that were
written, in order. -/
def layOut (r : Runner) (s : Subject) (output documentation : Value) : Act (List String) := do
  let assembly ← assemblyPath s.assembly maxAssemblySize
  let d ← decompileAndDivide r s
  let root ← outputFolder output
  Files.makeFolders root
  let done ← writeBelow root (root / Project.projectFileName) Project.projectFile.toList ⟨[], []⟩
  let done ← writeUnitList d root d.units.toList done
  let done ← if documentation.isPresent then writeDocumentation assembly root done else pure done
  let manifest ← Project.manifest assembly (optionsValue s.typeName documentation) done.written
    (.arr (done.types.map (·.toValue))) d.units.keys
  let text := Json.print 2 manifest ++ "\n"
  let done ← writeBelow root (root / Project.manifestName) text.toList done
  return Text.inOrder done.written

end Decompilation.Service
