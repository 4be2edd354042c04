import Decompilation.Disk.Basic

/-!
# Following paths on a disk

`walk` follows names from a place: it goes through folders and links, at most `linkLimit` links in
one walk, and ends at a place that may still be empty provided that a folder holds it. `resolve`
finds the same place by spelling out all links, but does not care whether the names on the way
exist, and leaves a path alone from the first link that leads back to itself.
-/

namespace Decompilation

/-- Why a disk refuses something. -/
inductive Refusal where
  | missing
  | exists
  | notFolder
  | isFolder
  | nameTooLong
  | tooManyLinks
  | invalid
  | nullByte
  deriving DecidableEq, Repr

namespace Refusal

def number : Refusal → Nat
  | .missing => 2
  | .exists => 17
  | .notFolder => 20
  | .isFolder => 21
  | .invalid => 22
  | .nameTooLong => 36
  | .tooManyLinks => 40
  | .nullByte => 0

def text : Refusal → String
  | .missing => "No such file or directory"
  | .exists => "File exists"
  | .notFolder => "Not a directory"
  | .isFolder => "Is a directory"
  | .invalid => "Invalid argument"
  | .nameTooLong => "File name too long"
  | .tooManyLinks => "Too many levels of symbolic links"
  | .nullByte => "embedded null byte"

/-- The refusals that only mean that nothing is there. -/
def meansAbsent : Refusal → Bool
  | .missing | .notFolder | .tooManyLinks | .nullByte => true
  | _ => false

end Refusal

namespace Disk

def linkLimit : Nat := 40

def nameLimit : Nat := 255

/-- The number of bytes that a path must stay below. -/
def pathLimit : Nat := 4096

/-- What is wanted of the place that a walk leads to. -/
inductive Aim where
  /-- What is there, with a link at the very end followed. -/
  | find
  /-- Room for something new, with a link at the very end not followed. -/
  | make
  /-- Room for a file, with a link at the very end followed. A slash behind the last name asks for a
  folder. -/
  | write
  deriving DecidableEq, Repr

/-- The place that names lead to from a place through folders, where `follow` goes on behind a link
that is followed. A folder that is gone has no names, but it can be left upwards. -/
def walkNames (d : Disk) (aim : Aim) (follow : Place → List String → Except Refusal Place)
    (here : Place) : List String → Except Refusal Place
  | [] => .ok here
  | name :: rest =>
    match d.look? here with
    | some .folder =>
      if name = "" ∨ name = "." then walkNames d aim follow here rest
      else if name = ".." then walkNames d aim follow here.dropLast rest
      else if aim = .write ∧ rest ≠ [] ∧ rest.all (· == "") then .error .isFolder
      else if here.isGone then .error .missing
      else if nameLimit < name.utf8ByteSize then .error .nameTooLong
      else
        match d.node? (here ++ [name]) with
        | none => if rest.isEmpty then .ok (here ++ [name]) else .error .missing
        | some (.link target) =>
          if rest.isEmpty && aim == .make then .ok (here ++ [name])
          else follow (if target.startsWith "/" then [] else here) (Text.pieces '/' target ++ rest)
        | some _ => walkNames d aim follow (here ++ [name]) rest
    | _ => .error .notFolder

/-- The place that names lead to from a place, through folders and at most `links` links. -/
def walk (d : Disk) (aim : Aim) (links : Nat) : Place → List String → Except Refusal Place :=
  walkNames d aim <| match links with
    | 0 => fun _ _ => .error .tooManyLinks
    | links + 1 => walk d aim links

/-- What is wrong with the text of a path before any disk is asked. -/
def screen (p : Path) : Except Refusal Unit :=
  if p.segments.any (·.toList.elem '\x00') then .error .nullByte
  else if pathLimit ≤ p.toString.utf8ByteSize then .error .nameTooLong
  else .ok ()

/-- The place that a path leads to for somebody who stands at `cwd`. -/
def place (d : Disk) (cwd : Place) (aim : Aim) (p : Path) : Except Refusal Place := do
  screen p
  walk d aim linkLimit (if p.isAnchored then [] else cwd) p.segments

def stat (d : Disk) (cwd : Place) (p : Path) : Except Refusal Node := do
  let q ← d.place cwd .find p
  match d.look? q with
  | some n => .ok n
  | none => .error .missing

/-! ## Spelling out links -/

/-- Names followed from a place without asking a disk. -/
def foldNames (here : Place) (names : List String) : Place :=
  names.foldl
    (fun here name =>
      if name = "" ∨ name = "." then here
      else if name = ".." then here.dropLast
      else here ++ [name])
    here

/-- The place that a path writes, links not considered, for somebody who stands at `cwd`. -/
def written (cwd : Place) (p : Path) : Place :=
  foldNames (if p.isAnchored then [] else cwd) p.segments

/-- The path one step up: without its last name, or with one more pair of dots. -/
def above (p : Path) : Path :=
  match p.segments.getLast? with
  | none => if p.isAnchored then p else p.child ".."
  | some s => if s = ".." then p.child ".." else p.parent

/-- Where names lead: a path, the links opened so far with the paths that they lead to once those
are known, and whether names are still looked up. -/
structure Spelled where
  path : Path
  opened : Table Path (Option Path)
  going : Bool

/-- A path followed by names that are not looked up any more. They are joined as a text, and a text
that starts with a slash starts again at the root. -/
def Spelled.giveUp (path : Path) (opened : Table Path (Option Path)) (names : List String) :
    Spelled :=
  ⟨path / Path.segmentText names, opened, false⟩

/-- The path that names lead to from the path `here`, with all links spelled out, where `follow`
tells where the names in a link lead. From a link that leads back to itself nothing more is looked
up. -/
def spellNames (d : Disk) (cwd : Place)
    (follow : Table Path (Option Path) → Path → List String → Except Refusal Spelled)
    (opened : Table Path (Option Path)) (here : Path) : List String → Except Refusal Spelled
  | [] => .ok ⟨here, opened, true⟩
  | s :: rest =>
    if s = "" ∨ s = "." then spellNames d cwd follow opened here rest
    else if s = ".." then spellNames d cwd follow opened (above here) rest
    else if s.toList.elem '\x00' then .error .nullByte
    else
      let next := here.child s
      match d.node? (written cwd next) with
      | some (.link target) =>
        match opened.get? next with
        | some (some there) => spellNames d cwd follow opened there rest
        | some none => .ok (.giveUp next opened rest)
        | none =>
          match follow (opened.insert next none)
              (if target.startsWith "/" then ⟨.root, []⟩ else here) (Text.pieces '/' target) with
          | .error r => .error r
          | .ok t =>
            if t.going then
              spellNames d cwd follow (t.opened.insert next (some t.path)) t.path rest
            else .ok (.giveUp t.path t.opened rest)
      | _ => spellNames d cwd follow opened next rest

/-- The path that names lead to from a path, with links in links to the depth `depth`. -/
def spellOut (d : Disk) (cwd : Place) (depth : Nat) :
    Table Path (Option Path) → Path → List String → Except Refusal Spelled :=
  spellNames d cwd <| match depth with
    | 0 => fun opened here names => .ok (.giveUp here opened names)
    | depth + 1 => spellOut d cwd depth

def linkCount (d : Disk) : Nat :=
  (d.nodes.toList.filter fun e => match e.2 with | .link _ => true | _ => false).length

def pathOf (p : Place) : Path := ⟨.root, p⟩

/-- The path that a path leads to, all links spelled out. A link may be opened by more than one
path, which the bound on the depth allows for. -/
def resolve (d : Disk) (cwd : Place) (p : Path) : Except Refusal Path := do
  let t ← spellOut d cwd (linkLimit * (d.linkCount + 1)) Table.empty
    ⟨if p.isAnchored then .root else .here, []⟩ p.segments
  if t.path.isAnchored then .ok ⟨t.path.anchor, foldNames [] t.path.segments⟩
  else if cwd.isGone then .error .missing
  else .ok (pathOf (foldNames cwd t.path.segments))

end Disk

end Decompilation
