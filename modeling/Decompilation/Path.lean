import Decompilation.Text.Lines
import Decompilation.Text.Search

/-!
# Paths

A path is an anchor and a list of segments. Reading a path drops empty segments and single dots;
double dots stay, for what they lead to is a matter of the disk. Joining an anchored path to another
replaces it.
-/

namespace Decompilation

/-- Where a path starts: where one stands, at the root, or at the root written with two slashes. -/
inductive Anchor where
  | here
  | root
  | doubleRoot
  deriving DecidableEq, Repr

/-- A path: its anchor and its segments. -/
structure Path where
  anchor : Anchor
  segments : List String
  deriving DecidableEq, Repr

namespace Path

/-- A path's segments as they stand in a text: no empty ones and no single dots. -/
def segmentsOf (s : String) : List String :=
  (Text.pieces '/' s).filter fun p => p != "" && p != "."

/-- The anchor of a text: exactly two leading slashes are an anchor of their own. -/
def anchorOf (s : List Char) : Anchor :=
  match (s.takeWhile (· == '/')).length with
  | 0 => .here
  | 2 => .doubleRoot
  | _ => .root

def ofString (s : String) : Path := ⟨anchorOf s.toList, segmentsOf s⟩

def segmentText (segments : List String) : String := "/".intercalate segments

/-- The text of a path; a path without anchor and segments is a dot. -/
def toString (p : Path) : String :=
  match p.anchor with
  | .here => if p.segments.isEmpty then "." else segmentText p.segments
  | .root => "/" ++ segmentText p.segments
  | .doubleRoot => "//" ++ segmentText p.segments

instance : ToString Path := ⟨toString⟩

def isAnchored (p : Path) : Bool := p.anchor != .here

def join (p q : Path) : Path :=
  if q.isAnchored then q else { p with segments := p.segments ++ q.segments }

def joinText (p : Path) (s : String) : Path := p.join (ofString s)

instance : HDiv Path String Path := ⟨joinText⟩

/-- A path with one more segment, taken as it is. -/
def child (p : Path) (name : String) : Path := { p with segments := p.segments ++ [name] }

def name (p : Path) : String := p.segments.getLast?.getD ""

def parent (p : Path) : Path := { p with segments := p.segments.dropLast }

/-- A name's part before its last dot, and the part from that dot on. The dot counts only between
other characters. -/
def splitSuffix (name : List Char) : List Char × List Char :=
  let back := name.reverse.takeWhile (· != '.')
  let stem := name.take (name.length - back.length - 1)
  if back.isEmpty || stem.isEmpty || back.length == name.length then (name, [])
  else (stem, name.drop stem.length)

/-- The part of a file's name from its last dot on. -/
def suffixOf (name : String) : String := String.ofList (splitSuffix name.toList).2

def suffix (p : Path) : String := suffixOf p.name

/-- A path with another suffix; there is none for a path without a name. -/
def withSuffix? (p : Path) (suffix : String) : Option Path :=
  if p.segments.isEmpty then none
  else some { p with segments := p.segments.dropLast ++
    [String.ofList (splitSuffix p.name.toList).1 ++ suffix] }

/-- The path from `root` to a path below it. -/
def below? (p root : Path) : Option Path :=
  if p.anchor = root.anchor ∧ root.segments.isPrefixOf p.segments then
    some ⟨.here, p.segments.drop root.segments.length⟩
  else none

/-- Whether one list of segments comes before another: segment by segment, by code points. -/
def segmentsLe : List String → List String → Bool
  | [], _ => true
  | _ :: _, [] => false
  | a :: as, b :: bs => if a < b then true else if a = b then segmentsLe as bs else false

end Path

end Decompilation
