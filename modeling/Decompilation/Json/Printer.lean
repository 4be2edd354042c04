import Decompilation.Json.Basic
import Decompilation.Decimal.Shortest
import Decompilation.Text.Quoted

/-!
# Printing data values

`print` lays a value out over several lines, one item a line, each level indented by the same
number of spaces, in ASCII alone: every other character is escaped by its UTF-16 units. `display`
is the text of a value inside a sentence, where a list or an object stands on one line with its
strings quoted. No printed line but the first starts with anything but a space, a digit, a bracket
or a quote.
-/

namespace Decompilation.Json

open Decimal (Binary64)

def escapeUnit (n : Nat) : List Char := '\\' :: 'u' :: Text.hex 4 n

def escapeChar (c : Char) : List Char :=
  if c = '"' ∨ c = '\\' then ['\\', c]
  else if c = '\n' then ['\\', 'n']
  else if c = '\r' then ['\\', 'r']
  else if c = '\t' then ['\\', 't']
  else if c = '\x08' then ['\\', 'b']
  else if c = '\x0c' then ['\\', 'f']
  else if ' ' ≤ c ∧ c ≤ '~' then [c]
  else
    let n := c.toNat
    if n < 0x10000 then escapeUnit n
    else escapeUnit (0xD800 + (n - 0x10000) / 0x400) ++ escapeUnit (0xDC00 + (n - 0x10000) % 0x400)

def printString (s : String) : List Char := '"' :: s.toList.flatMap escapeChar ++ ['"']

def newline (indent level : Nat) : List Char := '\n' :: List.replicate (indent * level) ' '

/-- The printed form of a value that stands at a level of indentation. -/
def printAt (indent level : Nat) : Value → List Char
  | .null => "null".toList
  | .bool b => (if b then "true" else "false").toList
  | .int n => (toString n).toList
  | .float x => (x.write Decimal.formal).toList
  | .str s => printString s
  | .arr [] => "[]".toList
  | .arr (v :: vs) =>
    '[' :: newline indent (level + 1) ++ printAt indent (level + 1) v ++
      printItems indent level vs ++ newline indent level ++ [']']
  | .obj [] => "{}".toList
  | .obj ((k, v) :: fs) =>
    '{' :: newline indent (level + 1) ++ printString k ++ ':' :: ' ' ::
      printAt indent (level + 1) v ++ printFields indent level fs ++ newline indent level ++ ['}']
where
  /-- The items of a list behind the first. -/
  printItems (indent level : Nat) : List Value → List Char
    | [] => []
    | v :: vs =>
      ',' :: newline indent (level + 1) ++ printAt indent (level + 1) v ++
        printItems indent level vs
  /-- The fields of an object behind the first. -/
  printFields (indent level : Nat) : List (String × Value) → List Char
    | [] => []
    | (k, v) :: fs =>
      ',' :: newline indent (level + 1) ++ printString k ++ ':' :: ' ' ::
        printAt indent (level + 1) v ++ printFields indent level fs

def print (indent : Nat) (v : Value) : String := String.ofList (printAt indent 0 v)

/-- The text of a value inside a list or an object. -/
def displayQuoted : Value → String
  | .null => "None"
  | .bool b => if b then "True" else "False"
  | .int n => toString n
  | .float x => x.write Decimal.plain
  | .str s => Text.quoted s
  | .arr [] => "[]"
  | .arr (v :: vs) => "[" ++ displayQuoted v ++ displayItems vs ++ "]"
  | .obj [] => "\x7b\x7d"
  | .obj ((k, v) :: fs) =>
    "\x7b" ++ Text.quoted k ++ ": " ++ displayQuoted v ++ displayFields fs ++ "\x7d"
where
  /-- The items of a list behind the first. -/
  displayItems : List Value → String
    | [] => ""
    | v :: vs => ", " ++ displayQuoted v ++ displayItems vs
  /-- The fields of an object behind the first. -/
  displayFields : List (String × Value) → String
    | [] => ""
    | (k, v) :: fs => ", " ++ Text.quoted k ++ ": " ++ displayQuoted v ++ displayFields fs

/-- The text of a value inside a sentence: a string stands as it is. -/
def display : Value → String
  | .str s => s
  | v => displayQuoted v

end Decompilation.Json
