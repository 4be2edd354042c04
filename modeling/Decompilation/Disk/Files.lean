import Decompilation.Machine

/-!
# Files and folders of a machine

Asking about paths, reading and writing files, making folders and links, and removing, as operations
on a machine. To ask whether something is there never fails except on a name that is too long;
writing goes through links and makes no folders, and what is made or removed is the link itself.
-/

namespace Decompilation.Files

open Act

/-- What a path leads to, if it leads anywhere. -/
def lookUp? (p : Path) : Act (Option Node) := do
  let m ← get
  match m.disk.stat m.cwd p with
  | .ok n => return some n
  | .error r => if r.meansAbsent then return none else throw (Fault.ofRefusal r p)

def isThere (p : Path) : Act Bool := do return (← lookUp? p).isSome

def isFile (p : Path) : Act Bool := do
  match ← lookUp? p with
  | some (.file _) => return true
  | _ => return false

def isFolder (p : Path) : Act Bool := do
  match ← lookUp? p with
  | some .folder => return true
  | _ => return false

def openFile (p : Path) : Act File := do
  let m ← get
  match ← ofDisk (Fault.ofRefusal · p) (m.disk.stat m.cwd p) with
  | .file f => return f
  | _ => throw (Fault.ofRefusal .isFolder p)

/-- The text of a file, with newlines for all line ends and U+FFFD for what is no text. -/
def readLenient (p : Path) : Act (List Char) := do
  return Text.unifyBreaks (Text.Utf8.decodeLenient (← openFile p).content)

/-- The text of a file, with newlines for all line ends. -/
def readText (p : Path) : Act (List Char) := do
  match Text.Utf8.decode (← openFile p).content with
  | .ok s => return Text.unifyBreaks s
  | .error f => throw (.undecodable f)

/-- The number of bytes that are read at a time where a file is read line by line. -/
def readAhead : Nat := 8192

/-- How many bytes before a boundary between pieces begin a character that ends behind it. -/
def carriedOver (bytes : List UInt8) (boundary : Nat) : Nat :=
  match Text.Utf8.decode (bytes.take boundary) with
  | .error ⟨.truncated, position, _⟩ => boundary - position
  | _ => 0

/-- A fault as it is met by a reader that takes a file piece by piece. Its position counts from the
start of the piece that shows it, to which the beginning of a character carried over from the piece
before belongs; a character cut off by the end of the file is a piece of its own. -/
def inPiece (bytes : List UInt8) (f : Text.Utf8.Fault) : Text.Utf8.Fault :=
  let shownAt := if f.flaw = .start then f.position else f.position + f.bytes.length
  let boundary := shownAt / readAhead * readAhead
  let start := if f.flaw = .truncated then f.position else boundary - carriedOver bytes boundary
  { f with position := f.position - start }

/-- The text of a file that is read line by line. -/
def readLines (p : Path) : Act (List Char) := do
  let bytes := (← openFile p).content
  match Text.Utf8.decode bytes with
  | .ok s => return Text.unifyBreaks s
  | .error f => throw (.undecodable (inPiece bytes f))

/-- The place that a path leads to and what stands there, with the fault for a refusal. -/
def reachOr (fault : Refusal → Fault) (aim : Disk.Aim) (p : Path) : Act (Place × Option Node) := do
  let m ← get
  let q ← ofDisk fault (m.disk.place m.cwd aim p)
  return (q, m.disk.look? q)

def reach (aim : Disk.Aim) (p : Path) : Act (Place × Option Node) :=
  reachOr (Fault.ofRefusal · p) aim p

/-- The file at a path gets other bytes; a new file cannot be run. -/
def writeBytes (p : Path) (bytes : List UInt8) : Act Unit := do
  match ← reach .write p with
  | (q, some (.file f)) => modifyDisk (·.put q (.file { f with bytes, padding := 0 }))
  | (_, some _) => throw (Fault.ofRefusal .isFolder p)
  | (q, none) => modifyDisk (·.put q (.file (File.ofBytes bytes)))

def writeText (p : Path) (s : List Char) : Act Unit := writeBytes p (Text.Utf8.encode s)

/-- Something new is put at a path, with the fault for a refusal; the result is its place. -/
def putNew (fault : Refusal → Fault) (p : Path) (n : Node) : Act Place := do
  match ← reachOr fault .make p with
  | (_, some _) => throw (fault .exists)
  | (q, none) =>
    modifyDisk (·.put q n)
    return q

def newFolder (p : Path) : Act Place := putNew (Fault.ofRefusal · p) p .folder

def makeFolder (p : Path) : Act Unit := do let _ ← newFolder p

def makeLink (p : Path) (target : String) : Act Unit := do
  let _ ← putNew (Fault.ofRefusalOn · [target, p.toString]) p (.link target)

/-- A fault of making a folder, passed over where the folder is there. -/
def keepFolder (p : Path) (f : Fault) : Act Unit := do
  if ← isFolder p then pure () else throw f

/-- A folder is made, and before it, from the outside in, the folders that it lacks; `depth` bounds
how many. A folder that is there already is left alone. -/
def makeFoldersTo (depth : Nat) (p : Path) : Act Unit :=
  orElse (makeFolder p) fun f => match f with
    | .refused .nullByte _ => throw f
    | .refused .missing _ => match depth with
      | 0 => throw f
      | depth + 1 => do
        makeFoldersTo depth p.parent
        orElse (makeFolder p) (keepFolder p)
    | f => keepFolder p f

/-- A folder is made with all folders that it lacks. -/
def makeFolders (p : Path) : Act Unit := makeFoldersTo p.segments.length p

def putFile (p : Path) (f : File) : Act Unit := do
  match ← reach .write p with
  | (_, some .folder) => throw (Fault.ofRefusal .isFolder p)
  | (q, _) => modifyDisk (·.put q (.file f))

/-- A file is copied to a path, or into the folder there; it can be run just as the one it is copied
from. -/
def copyFile (source target : Path) : Act Unit := do
  let f ← openFile source
  putFile (if ← isFolder target then target.child source.name else target) f

/-- What stands at a path is removed, a folder with all that is in it. -/
def remove (p : Path) : Act Unit := do
  match ← reach .make p with
  | (_, none) => throw (Fault.ofRefusal .missing p)
  | (q, some _) =>
    modify fun m => { m with disk := m.disk.removeTree q, cwd := m.cwd.afterRemoval q }

/-- Those of some lists of names that lead from a folder to files. -/
def leadingToFiles (root : Path) : List (List String) → Act (List (List String))
  | [] => return []
  | names :: rest => do
    let isFile ← isFile { root with segments := root.segments ++ names }
    let rest ← leadingToFiles root rest
    return if isFile then names :: rest else rest

/-- The files below a folder, by the names that lead to them from there. Links to files count, but
folders behind links are not entered. Below a path that leads to no folder there is nothing. -/
def filesBelow (root : Path) : Act (List (List String)) := do
  if ← isFolder root then
    let (q, _) ← reach .find root
    leadingToFiles root (((← get).disk.below q).map (·.1))
  else return []

/-- Something is put at a path by a program, with the folders on the way to it. -/
def deposit (p : Path) (d : Deposit) : Act Unit := do
  match d with
  | .folder => makeFolders p
  | .file f =>
    makeFolders p.parent
    putFile p f
  | .link target =>
    makeFolders p.parent
    makeLink p target

/-- The name of the temporary folder with a number. -/
def scratchName (n : Nat) : String := s!"dotnetdc-{n}"

/-- The first path for a temporary folder at which nothing stands. -/
def freshPath? (m : Machine) : Option Path :=
  ((List.range (m.disk.nodes.toList.length + 1)).map fun n => m.scratch.child (scratchName n)).find?
    fun p => match m.disk.place m.cwd .make p with
      | .ok q => (m.disk.look? q).isNone
      | .error _ => true

/-- An operation with a temporary folder, which is gone afterwards with all that is in it, however
the operation ends. -/
def withScratch {α : Type} (act : Path → Act α) : Act α := do
  match freshPath? (← get) with
  | none => throw (.refused .exists [])
  | some path =>
    let place ← newFolder path
    fun m => match act path m with
      | .ok a m => .ok a { m with disk := m.disk.removeTree place }
      | .error f m => .error f { m with disk := m.disk.removeTree place }

end Decompilation.Files
