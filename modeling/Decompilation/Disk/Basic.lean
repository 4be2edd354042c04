import Decompilation.Path
import Decompilation.Table

/-!
# A disk

A disk holds files, folders and symbolic links at places. A place is the list of names that leads to
it from the root through folders; the root is a folder and is not listed. A folder that is removed
while somebody stands in it stays a place, one without a last name: nothing is in it and nothing can
be put there, but the way up is still open.
-/

namespace Decompilation

/-- The names that lead from the root to something on a disk. -/
abbrev Place := List String

namespace Place

/-- Whether a place is that of a folder which is gone. -/
def isGone (p : Place) : Bool := p.getLast? == some ""

/-- Where somebody stands who stood at `p` when `removed` was removed: each folder that goes loses
its name. -/
def afterRemoval (p removed : Place) : Place :=
  if removed.isPrefixOf p then
    removed.dropLast ++ List.replicate (p.length - removed.length + 1) ""
  else p

end Place

/-- A file: its bytes, followed by `padding` zero bytes; whether it may be run; and its time of
change in nanoseconds. -/
structure File where
  bytes : List UInt8
  padding : Nat
  executable : Bool
  modified : Int
  deriving DecidableEq, Repr

namespace File

def size (f : File) : Nat := f.bytes.length + f.padding

def content (f : File) : List UInt8 :=
  if f.padding = 0 then f.bytes else f.bytes ++ List.replicate f.padding 0

/-- A file of some bytes that cannot be run. -/
def ofBytes (bytes : List UInt8) : File := ⟨bytes, 0, false, 0⟩

end File

/-- What can stand at a place. -/
inductive Node where
  | file (f : File)
  | link (target : String)
  | folder
  deriving DecidableEq, Repr

/-- A disk by places. -/
structure Disk where
  nodes : Table Place Node

namespace Disk

def empty : Disk := ⟨Table.empty⟩

def node? (d : Disk) (p : Place) : Option Node := if p.isEmpty then some .folder else d.nodes.get? p

/-- What somebody finds at a place, who may stand in a folder that is gone. -/
def look? (d : Disk) (p : Place) : Option Node := if p.isGone then some .folder else d.node? p

def put (d : Disk) (p : Place) (n : Node) : Disk := ⟨d.nodes.insert p n⟩

def removeTree (d : Disk) (p : Place) : Disk := ⟨d.nodes.filterKeys fun q => !p.isPrefixOf q⟩

/-- The places below a folder with the names that lead to them from there, through real folders
only. -/
def below (d : Disk) (root : Place) : List (List String × Node) :=
  d.nodes.toList.filterMap fun (p, n) =>
    if root.isPrefixOf p && p.length != root.length then some (p.drop root.length, n) else none

@[simp] theorem node?_nil (d : Disk) : d.node? [] = some .folder := rfl

theorem node?_put_self {d : Disk} {p : Place} {n : Node} (h : p ≠ []) :
    (d.put p n).node? p = some n := by
  simp [node?, put, h]

theorem node?_put_of_ne {d : Disk} {p q : Place} {n : Node} (h : q ≠ p) :
    (d.put p n).node? q = d.node? q := by
  simp [node?, put, Table.get?_insert_of_ne _ n h]

/-- Nothing is left of a tree that was removed. -/
theorem node?_removeTree_inside {d : Disk} {p q : Place} (hq : q ≠ []) (h : p <+: q) :
    (d.removeTree p).node? q = none := by
  simp [node?, removeTree, hq, Table.get?_filterKeys, List.isPrefixOf_iff_prefix.2 h]

/-- What lies outside a tree stays when the tree is removed. -/
theorem node?_removeTree_outside {d : Disk} {p q : Place} (h : ¬ p <+: q) :
    (d.removeTree p).node? q = d.node? q := by
  have : p.isPrefixOf q = false := by
    rw [Bool.eq_false_iff, Ne, List.isPrefixOf_iff_prefix]; exact h
  simp [node?, removeTree, Table.get?_filterKeys, this]

end Disk

end Decompilation
