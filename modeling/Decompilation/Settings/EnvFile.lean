import Decompilation.Table
import Decompilation.Text.Blank
import Decompilation.Text.Lines

/-!
# Files of settings

One setting a line, as `key=value`; a value may stand in quotes, and a line may be blank or a
comment. `parse` reads the settings of a text, the last one of a key counting; `assign` changes a
text so that a key has a value, in place of the key's lines or on a new line at the end.
-/

namespace Decompilation.EnvFile

open Text

/-- The text between a pair of equal quotes, or the text itself. -/
def unquote (s : List Char) : List Char :=
  match s with
  | q :: c :: r =>
    if (q = '\'' ∨ q = '"') ∧ (c :: r).getLast? = some q then (c :: r).dropLast else s
  | _ => s

/-- The setting on a line. -/
def pair? (line : List Char) : Option (String × String) :=
  let s := trim line
  if s.isEmpty || s.head? == some '#' || !s.elem '=' then none
  else
    let key := trim (s.takeWhile (· != '='))
    let value := unquote (trim ((s.dropWhile (· != '=')).drop 1))
    if key.isEmpty then none else some (String.ofList key, String.ofList value)

/-- The settings of a text whose lines end with newlines, in order of first appearance. -/
def parse (text : List Char) : Table String String :=
  Table.ofList ((splitOn '\n' text).filterMap pair?)

def lineOf (key value : String) : List Char := key.toList ++ '=' :: value.toList

/-- Whether a line is replaced when a key is assigned: blanks aside, it starts with the key and an
equals sign. -/
def concerns (key : String) (line : List Char) : Bool :=
  (key.toList ++ ['=']).isPrefixOf (trim line)

def assignLines (key value : String) (ls : List (List Char)) : List (List Char) :=
  if ls.any (concerns key) then
    ls.map fun l => if concerns key l then lineOf key value else l
  else ls ++ [lineOf key value]

def assign (key value : String) (text : List Char) : List Char :=
  joinWith ['\n'] (assignLines key value (lines text)) ++ ['\n']

end Decompilation.EnvFile
