import Decompilation.Source.Word

/-!
# Namespace declarations

A declaration is the whole word `namespace`, blanks, a name, and then a semicolon or an opening
brace. `tokenize` finds the declarations of a text from left to right, whatever they are nested in;
after one it goes on behind the semicolon or brace, after a word that declares nothing behind the
word.
-/

namespace Decompilation.Source

open Text

/-- The form of a namespace declaration: with a block, or for the rest of the file. -/
inductive Form where
  | block
  | fileScoped
  deriving DecidableEq, Repr

namespace Form

def name : Form → String
  | .block => "block"
  | .fileScoped => "file_scoped"

def ofName? : String → Option Form
  | "block" => some .block
  | "file_scoped" => some .fileScoped
  | _ => none

/-- The character that ends a declaration's head. -/
def delimiter : Form → Char
  | .block => '{'
  | .fileScoped => ';'

/-- The form that a character ends the head of. -/
def ofDelimiter? (c : Char) : Option Form :=
  if c = ';' then some .fileScoped else if c = '{' then some .block else none

end Form

/-- A namespace declaration at an offset of a text. Offsets of any size can be asked for; those that
`tokenize` finds lie within the text. -/
structure Token where
  offset : Int
  name : String
  form : Form
  deriving DecidableEq, Repr

def namespaceWord : List Char := ['n', 'a', 'm', 'e', 's', 'p', 'a', 'c', 'e']

/-- The characters of a namespace's name. -/
def isQualified (c : Char) : Bool := isWord c || c == '.'

/-- A declaration read behind the word `namespace`: its name, its form and the text behind it. -/
def declaration? (s : List Char) : Option (List Char × Form × List Char) := do
  let s ← behindBlanks? s
  if s.head?.any isNameStart then
    match trimStart (s.dropWhile isQualified) with
    | [] => none
    | c :: rest => (Form.ofDelimiter? c).map fun form => (s.takeWhile isQualified, form, rest)
  else none

theorem length_of_declaration? {s name rest : List Char} {form : Form}
    (h : declaration? s = some (name, form, rest)) : rest.length < s.length := by
  simp only [declaration?, behindBlanks?, Option.bind_eq_bind, Option.bind_eq_some_iff] at h
  obtain ⟨t, ht, h⟩ := h
  split at ht
  · simp only [Option.some.injEq] at ht
    split at h
    · split at h
      · simp at h
      · rename_i c r hr
        simp only [Option.map_eq_some_iff, Prod.mk.injEq] at h
        obtain ⟨f, -, -, -, rfl⟩ := h
        have h1 := length_trimStart_le (t.dropWhile isQualified)
        have h2 := (List.dropWhile_suffix (l := t) isQualified).length_le
        have h3 := length_trimStart_le s
        rw [hr, List.length_cons] at h1
        rw [ht] at h3
        omega
    · simp at h
  · simp at ht

/-- The declarations of a text that starts at `offset` behind the character `before`. -/
def tokensFrom (offset : Nat) (before : Option Char) (s : List Char) : List Token :=
  match _hcut : cutAtWord? namespaceWord before s with
  | none => []
  | some (gap, tail) =>
    match _hdecl : declaration? tail with
    | none => tokensFrom (offset + (s.length - tail.length)) namespaceWord.getLast? tail
    | some (name, form, rest) =>
      ⟨(offset + gap.length : Nat), String.ofList name, form⟩ ::
        tokensFrom (offset + (s.length - rest.length)) (some form.delimiter) rest
  termination_by s.length
  decreasing_by
    all_goals
      have h1 := congrArg List.length (eq_append_of_cutAtWord? _hcut)
      simp only [List.length_append, namespaceWord, List.length_cons, List.length_nil] at h1
    · omega
    · have h2 := length_of_declaration? _hdecl
      omega

def tokenize (text : List Char) : List Token := tokensFrom 0 none text

def declaredNames (text : List Char) : List String := (tokenize text).map (·.name)

end Decompilation.Source
