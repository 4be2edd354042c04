import Decompilation.Path
import Decompilation.Source.Partition

/-!
# Where units go

The file name and the folder of a namespace, and whether a namespace is asked for.
-/

namespace Decompilation.Project

/-- The file of a namespace's unit: dots become underscores. -/
def unitFileName (namespaceName : String) : String :=
  if namespaceName = Source.globalName then "global.cs"
  else String.ofList (namespaceName.toList.map fun c => if c = '.' then '_' else c) ++ ".cs"

/-- The folder of a namespace's types: a folder below the root for each part of the name. -/
def unitFolder (root : Path) (namespaceName : String) : Path :=
  if namespaceName = Source.globalName then root / "global"
  else (Text.pieces '.' namespaceName).foldl (fun p part => p / part) root

/-- Whether a namespace is one of those wanted or lies below one of them. -/
def isSelected (namespaceName : String) (wanted : List String) : Bool :=
  wanted.any fun w => namespaceName == w || (w.toList ++ ['.']).isPrefixOf namespaceName.toList

end Decompilation.Project
