import Decompilation.Disk.Walk
import Decompilation.Problem.Catalogue
import Decompilation.Text.Utf8

/-!
# Faults

Why an operation ends without a result. A fault carries its cause; `Fault.message` has the wording
of every one of them, and `Fault.toolText` is what the client of a tool is told.
-/

namespace Decompilation

open Json (Value)

/-- Which operation a reported problem comes from. -/
inductive Topic where
  | general
  | tool
  | decompilation
  | outputSize
  | assembly
  | parameter
  deriving DecidableEq, Repr

/-- Why an operation ends without a result. -/
inductive Fault where
  /-- A problem reported to the user. -/
  | reported (topic : Topic) (p : Problem)
  /-- The system refused something on paths: none, one, or a link's target and the link. -/
  | refused (r : Refusal) (paths : List String)
  /-- A file holds no text. -/
  | undecodable (f : Text.Utf8.Fault)
  /-- A file is larger than it may be. -/
  | oversized (size : Int) (limit : Value)
  /-- An input path leads nowhere. -/
  | badInputPath (why : String)
  /-- An output path leads to a file. -/
  | notFolder (path : String)
  /-- A path starts in a home folder that is not known. -/
  | noHome
  /-- A link on a path leads back to itself. -/
  | linkLoop (path : String)
  /-- A path lies outside a folder. -/
  | outside (path root : String)
  /-- A path has no last segment. -/
  | noName (path : String)
  /-- An environment variable cannot have this name. -/
  | badVariable
  /-- No processes may run at once. -/
  | negativePermits
  /-- A record lacks a field. -/
  | missingField (key : String)
  /-- A text names no element of a list of names. -/
  | unknownName (given kind : String)
  /-- Something other than a text is given for a path. -/
  | notPath (given : String)
  /-- Something other than a text is given for a name. -/
  | notText (given : String)
  /-- Something other than a number is compared with a number. -/
  | incomparable (sign left right : String)

namespace Fault

/-- The fault of a refusal on paths. A null byte is refused before the paths are looked at. -/
def ofRefusalOn (r : Refusal) (paths : List String) : Fault :=
  .refused r (if r = .nullByte then [] else paths)

def ofRefusal (r : Refusal) (p : Path) : Fault := ofRefusalOn r [p.toString]

def refusalText (r : Refusal) (paths : List String) : String :=
  let text := if r = .nullByte then r.text else s!"[Errno {r.number}] {r.text}"
  if paths.isEmpty then text else text ++ ": " ++ " -> ".intercalate (paths.map Text.quoted)

def undecodableText (f : Text.Utf8.Fault) : String :=
  let what := match f.bytes with
    | [b] => s!"byte 0x{String.ofList (Text.hex 2 b.toNat)} in position {f.position}"
    | bs => s!"bytes in position {f.position}-{f.position + bs.length - 1}"
  "'utf-8' codec can't decode " ++ what ++ ": " ++ f.flaw.text

def message : Fault → String
  | .reported _ p => p.userText
  | .refused r paths => refusalText r paths
  | .undecodable f => undecodableText f
  | .oversized size limit => s!"File too large: {size} bytes (max: {Json.display limit})"
  | .badInputPath why => s!"Invalid path: {why}"
  | .notFolder path => s!"Output path is not a directory: {path}"
  | .noHome => "Could not determine home directory."
  | .linkLoop path => "Symlink loop from " ++ Text.quoted path
  | .outside path root =>
    Text.quoted path ++ " is not in the subpath of " ++ Text.quoted root ++
      " OR one path is relative and the other is absolute."
  | .noName path => "PosixPath(" ++ Text.quoted path ++ ") has an empty name"
  | .badVariable => "illegal environment variable name"
  | .negativePermits => "semaphore initial value must be >= 0"
  | .missingField key => Text.quoted key
  | .unknownName given kind => s!"{given} is not a valid {kind}"
  | .notPath given => s!"expected str, bytes or os.PathLike object, not {given}"
  | .notText given => s!"'{given}' object has no attribute 'strip'"
  | .incomparable sign left right =>
    s!"'{sign}' not supported between instances of '{left}' and '{right}'"

/-- Whether a fault comes from the system: such faults are passed over where a step is optional. -/
def isRefusal : Fault → Bool
  | .refused r _ => r != .nullByte
  | _ => false

/-- What the client of a tool is told. -/
def toolText (f : Fault) : String := "Error: " ++ f.message

end Fault

end Decompilation
