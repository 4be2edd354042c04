import Decompilation.Runner.Locate

/-!
# Checking requests

The paths and the names in a request, checked before anything is done with them.
-/

namespace Decompilation.Service

open Act
open Json (Value)

def maxAssemblySize : Value := .int (500 * 1024 * 1024)

def refuse {α : Type} (name : String) (given : Value) (expected : String) : Act α :=
  throw (.reported .parameter (.badParameter name given expected))

/-- The text of a path in a request; blank and absent paths are refused. -/
def pathText (name expected : String) (given : Value) : Act String := do
  if !given.isPresent then refuse name given expected
  else match given with
    | .str s => if Text.allBlank s.toList then refuse name given expected else return s
    | v => throw (.notPath v.kindName)

/-- A path with all links spelled out; links must not lead back to themselves. -/
def spelledOut (p : Path) : Act Path := do
  let m ← get
  let q ← ofDisk (.refused · []) (m.disk.resolve m.cwd p)
  match m.disk.stat m.cwd q with
  | .error .tooManyLinks => throw (.linkLoop q.toString)
  | .error .nullByte => throw (.refused .nullByte [])
  | _ => return q

/-- The path that a text means: a home folder put in, all links spelled out. -/
def meant (s : String) : Act Path := do spelledOut (← Runner.expandHome (Path.ofString s))

/-- A fault on the way to an input path, as that of the path. -/
def asInputFault : Fault → Fault
  | .refused .nullByte p => .refused .nullByte p
  | f => .badInputPath f.message

/-- The assembly that a request names: a file that is not too large. -/
def assemblyPath (given maxSize : Value) : Act Path := do
  let s ← pathText "assembly_path" "a path to a .dll or .exe" given
  let p ← orElse (meant s) fun f => throw (asInputFault f)
  match ← Files.lookUp? p with
  | some (.file f) =>
    if ← isAbove f.size maxSize then throw (.oversized f.size maxSize) else return p
  | _ => throw (.reported .assembly (.assemblyNotFound s))

def outputFolder (given : Value) : Act Path := do
  let s ← pathText "output_dir" "a directory path" given
  let p ← meant s
  match ← Files.lookUp? p with
  | some (.file _) => throw (.notFolder s)
  | _ => return p

/-- The texts among values, if all are texts. -/
def strings? (vs : List Value) : Option (List String) :=
  vs.mapM fun
    | .str s => some s
    | _ => none

/-- The namespaces that a request asks for: the texts of a list, trimmed, without the blank ones; or
the problem with the request. -/
def namespaceList (given : Value) : Except Problem (List String) :=
  let bad (expected : String) : Except Problem (List String) :=
    .error (.badParameter "namespaces" given expected)
  match given with
  | .arr [] => bad "a non-empty array of namespace names"
  | .arr vs => match strings? vs with
    | none => bad "namespace entries to be strings"
    | some ss => match (ss.map Text.trimmed).filter (· != "") with
      | [] => bad "a non-empty array of namespace names"
      | names => .ok names
  | _ => bad "a non-empty array of namespace names"

def wantedNamespaces (given : Value) : Act (List String) :=
  match namespaceList given with
  | .ok names => pure names
  | .error p => throw (.reported .parameter p)

end Decompilation.Service
