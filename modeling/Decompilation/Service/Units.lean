import Decompilation.Project.Names
import Decompilation.Project.Skeleton
import Decompilation.Service.Decompile

/-!
# Units of an assembly

The units of an assembly, all of them or those asked for, as one text or as a file each.
-/

namespace Decompilation.Service

open Act
open Json (Value)
open Source (Division)

/-- The units that are asked for, in order. -/
def selected (d : Division) (wanted : List String) : List (String × List Char) :=
  d.units.toList.filter fun (name, _) => Project.isSelected name wanted

/-- Units written to a folder that is there, a file each; their file names. -/
def writeEach (d : Division) (folder : Path) : List (String × List Char) → Act (List String)
  | [] => return []
  | (name, body) :: rest => do
    let file := folder / Project.unitFileName name
    Files.writeText file (d.renderUnit name body)
    return file.name :: (← writeEach d folder rest)

/-- Units written to a folder, which is made if it is missing; their file names in order. -/
def writeUnits (d : Division) (folder : Path) (units : List (String × List Char)) :
    Act (List String) := do
  Files.makeFolders folder
  return Text.inOrder (← writeEach d folder units)

def unitsToFolder (r : Runner) (s : Subject) (output : Value) : Act (List String) := do
  let d ← decompileAndDivide r s
  let folder ← outputFolder output
  writeUnits d folder d.units.toList

def selectedUnits (r : Runner) (s : Subject) (wanted : Value) : Act (List Char) := do
  let names ← wantedNamespaces wanted
  let d ← decompileAndDivide r s
  return Text.joinWith ['\n'] ((selected d names).map fun (name, body) => d.renderUnit name body)

def selectedUnitsToFolder (r : Runner) (s : Subject) (output wanted : Value) :
    Act (List String) := do
  let names ← wantedNamespaces wanted
  let d ← decompileAndDivide r s
  let folder ← outputFolder output
  writeUnits d folder (selected d names)

end Decompilation.Service
