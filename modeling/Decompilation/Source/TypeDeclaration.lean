import Decompilation.Source.Delimiter
import Decompilation.Source.Word
import Decompilation.Table
import Decompilation.Text.Search

/-!
# Type declarations

The head of a type declaration is a run of modifiers, the kind of type, a name and perhaps a list of
type parameters. `splitTypes` looks for heads at line starts, takes each declaration up to its
closing brace or its semicolon, and goes on behind it, so a declaration inside another one stays
there. Several declarations of one name are put together.
-/

namespace Decompilation.Source

open Text

def modifierWords : List String :=
  ["public", "internal", "protected", "private", "sealed", "abstract", "static", "partial",
    "readonly", "ref", "unsafe", "new"]

def kindWords : List String := ["class", "struct", "interface", "enum", "record"]

/-- The kind of type behind any number of modifiers, and the text behind it. -/
def typeKind? (s : List Char) : Option (String × List Char) :=
  let word := String.ofList (s.takeWhile isWord)
  let rest := s.dropWhile isWord
  if kindWords.contains word then some (word, rest)
  else if modifierWords.contains word then
    match _h : behindBlanks? rest with
    | some next => typeKind? next
    | none => none
  else none
  termination_by s.length
  decreasing_by
    have h1 := (List.dropWhile_suffix (l := s) isWord).length_le
    simp only [behindBlanks?] at _h
    split at _h
    · rename_i hb
      simp only [Option.some.injEq] at _h
      have hr : rest = s.dropWhile isWord := rfl
      rw [← hr] at h1
      cases hc : rest with
      | nil => simp [hc] at hb
      | cons c r =>
        rw [hc] at _h hb h1
        simp only [List.head?_cons, Option.any_some] at hb
        rw [trimStart_cons_blank hb] at _h
        have := length_trimStart_le r
        rw [_h] at this
        simp only [List.length_cons] at h1
        omega
    · simp at _h

/-- The text behind `class` or `struct` and blanks, which may follow `record`; else the text. -/
def behindRecordKind (s : List Char) : List Char :=
  let word := String.ofList (s.takeWhile isWord)
  if word = "class" ∨ word = "struct" then (behindBlanks? (s.dropWhile isWord)).getD s else s

/-- The text behind a list of type parameters, which blanks may precede: up to the first `>` behind
a `<`, if anything stands between them; else the text. -/
def behindParameters (s : List Char) : List Char :=
  match trimStart s with
  | '<' :: r => match find? '>' r with
    | some (n + 1) => r.drop (n + 2)
    | _ => s
  | _ => s

/-- The name that the head of a type declaration gives, and the text behind the head. Blanks may
precede the head. -/
def typeHead? (s : List Char) : Option (String × List Char) := do
  let (kind, s) ← typeKind? (trimStart s)
  let s ← behindBlanks? s
  let s := if kind = "record" then behindRecordKind s else s
  if s.head?.any isNameStart then
    some (String.ofList (s.takeWhile isWord), behindParameters (s.dropWhile isWord))
  else none

/-- How much of the text behind a head belongs to the declaration: to the partner of the first brace
if no semicolon comes before it, else to the first semicolon, and without either all of it. -/
def bodyLength (s : List Char) : Nat :=
  let braced (b : Nat) : Nat := match closingBrace? (s.drop (b + 1)) with
    | some n => b + 1 + n
    | none => s.length
  match find? '{' s, find? ';' s with
  | some b, some e => if b < e then braced b else e + 1
  | some b, none => braced b
  | none, some e => e + 1
  | none, none => s.length

/-- The name and the text of each declaration of a text; a head is looked for at the start if
`lineStart` holds, and behind every newline. -/
def typeChunks (lineStart : Bool) (s : List Char) : List (String × List Char) :=
  match s with
  | [] => []
  | c :: r =>
    match if lineStart then typeHead? (c :: r) else none with
    | some (name, rest) =>
      let n := r.length - rest.length + bodyLength rest
      (name, trim ((c :: r).take (n + 1))) :: typeChunks false (r.drop n)
    | none => typeChunks (c == '\n') r
  termination_by s.length
  decreasing_by
    · simp only [List.length_drop, List.length_cons]; omega
    · simp

/-- A declaration put behind the earlier ones of its name, with an empty line between. -/
def addType (types : Table String (List Char)) (chunk : String × List Char) :
    Table String (List Char) :=
  types.insert chunk.1 <| match types.get? chunk.1 with
    | some code => code ++ ['\n', '\n'] ++ chunk.2
    | none => chunk.2

/-- The types declared in the text of a namespace, in order of first appearance. -/
def splitTypes (body : List Char) : Table String (List Char) :=
  (typeChunks true body).foldl addType Table.empty

end Decompilation.Source
