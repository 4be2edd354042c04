import Decompilation.Fault
import Decompilation.Json.Basic

/-!
# Trees of files

A list of relative paths as a tree of files and folders in order of first appearance. A path's last
segment is a file if it has a suffix; nothing can lie below a file.
-/

namespace Decompilation.Project

open Json (Value)

/-- A file, or a folder with what is in it. -/
inductive Tree where
  | file (name : String)
  | folder (name : String) (children : List Tree)
  deriving Repr

namespace Tree

def name : Tree → String
  | .file n => n
  | .folder n _ => n

/-- The tree that segments alone make: a folder in a folder, and at the end a file or a folder. -/
def chain (s : String) : List String → Tree
  | [] => if (Path.suffixOf s).isEmpty then .folder s [] else .file s
  | t :: rest => .folder s [chain t rest]

mutual

/-- A tree with the path of some segments put below its top; none if the path leads through a
file. -/
def insert? : Tree → List String → Option Tree
  | t, [] => some t
  | .file _, _ :: _ => none
  | .folder n children, s :: rest => (insertIn? children s rest).map (.folder n)

/-- Trees with a path put into the one with the name of the path's first segment, or behind them if
there is none. -/
def insertIn? : List Tree → String → List String → Option (List Tree)
  | [], s, rest => some [chain s rest]
  | t :: ts, s, rest =>
    if t.name = s then (insert? t rest).map (· :: ts)
    else (insertIn? ts s rest).map (t :: ·)

end

mutual

def toValue : Tree → Value
  | .file n => .obj [("name", .str n), ("type", .str "file")]
  | .folder n children =>
    .obj [("name", .str n), ("type", .str "directory"), ("children", .arr (toValues children))]

def toValues : List Tree → List Value
  | [] => []
  | t :: ts => toValue t :: toValues ts

end

end Tree

/-- The segments of a relative path, which either slash may separate. -/
def treeSegments (path : String) : List String :=
  (Text.splitOn '/' (path.toList.map fun c => if c = '\\' then '/' else c)).filterMap fun s =>
    if s.isEmpty then none else some (String.ofList s)

/-- The tree of relative paths below a folder. -/
def buildTree (root : String) (files : List String) : Except Fault Tree :=
  let name := (Path.ofString root).name
  let top : Tree := .folder (if name.isEmpty then "." else name) []
  match (files.map treeSegments).foldlM Tree.insert? top with
  | some t => .ok t
  | none => .error (.missingField "children")

end Decompilation.Project
