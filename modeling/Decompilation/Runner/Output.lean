import Decompilation.Settings.Basic

/-!
# The files that a run leaves

`collect` lists the files below a folder that have one of some suffixes, in the order of their
paths; `readAll` reads files as long as neither their number nor the number of their characters
passes a limit.
-/

namespace Decompilation.Runner

open Act
open Json (Value)

def sourceSuffixes : List String := [".cs"]

/-- The suffixes of the files that are shown as they are. -/
def listingSuffixes : List String := [".cs", ".il"]

/-- Whether a file's suffix, in lower case, is one of some suffixes. -/
def hasSuffix (suffixes : List String) (names : List String) : Bool :=
  suffixes.contains (Text.lowercase (Path.suffixOf (names.getLast?.getD "")))

/-- The files below a folder with one of some suffixes, by what leads to them from there. -/
def collect (root : Path) (suffixes : List String) : Act (List (List String)) := do
  return ((← Files.filesBelow root).filter (hasSuffix suffixes)).mergeSort Path.segmentsLe

def under (root : Path) (names : List String) : Path :=
  { root with segments := root.segments ++ names }

/-- The texts of files, given how many characters have been read before and how many may be read in
all. -/
def readUpTo (limit : Value) (total : Int) : List Path → Act (List (List Char))
  | [] => return []
  | p :: ps => do
    let text ← Files.readLenient p
    let total := total + text.length
    if ← isAbove total limit then
      throw (.reported .outputSize (.outputTooLarge "bytes" (.int total) limit))
    return text :: (← readUpTo limit total ps)

/-- The texts of files, at most `maxFiles` of them with at most `maxCharacters` characters. -/
def readWithin (maxFiles maxCharacters : Value) (files : List Path) : Act (List (List Char)) := do
  if ← isAbove files.length maxFiles then
    throw (.reported .outputSize (.outputTooLarge "files" (.int files.length) maxFiles))
  readUpTo maxCharacters 0 files

/-- A limit that is given, or else the one that an operation finds. -/
def limitOr (limit : Value) (act : Act Int) : Act Value :=
  match limit with
  | .null => return .int (← act)
  | v => pure v

/-- The texts of files within limits; those that are not given come from the settings. -/
def readAll (files : List Path) (maxFiles maxCharacters : Value) : Act (List (List Char)) := do
  let maxFiles ← limitOr maxFiles Settings.maxFiles
  let maxCharacters ← limitOr maxCharacters Settings.maxCharacters
  readWithin maxFiles maxCharacters files

end Decompilation.Runner
