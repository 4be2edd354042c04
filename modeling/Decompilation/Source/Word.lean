import Decompilation.Text.Blank

/-!
# Words in C# source

A word is a run of ASCII letters, digits and underscores. `behindWord?` reads a given word at the
head of a text, provided that it is whole: no word character stands right before it or right behind
it. `cutAtWord?` cuts a text at the first such place; what it cuts off, the word and the rest
together are the text.
-/

namespace Decompilation.Source

open Text

/-- ASCII letters and the underscore. -/
def isNameStart (c : Char) : Bool :=
  c == '_' || ('a' ≤ c && c ≤ 'z') || ('A' ≤ c && c ≤ 'Z')

/-- ASCII letters, digits and the underscore. -/
def isWord (c : Char) : Bool := isNameStart c || ('0' ≤ c && c ≤ '9')

/-- The text behind its leading blanks, if it has any. -/
def behindBlanks? (s : List Char) : Option (List Char) :=
  if s.head?.any isBlank then some (trimStart s) else none

/-- The text behind `word`, if the word stands whole at the head of a text that follows the
character `before`. -/
def behindWord? (word : List Char) (before : Option Char) (s : List Char) : Option (List Char) :=
  if !before.any isWord && word.isPrefixOf s && !(s.drop word.length).head?.any isWord then
    some (s.drop word.length)
  else none

/-- The text before the first whole `word` and the text behind it. -/
def cutAtWord? (word : List Char) (before : Option Char) :
    List Char → Option (List Char × List Char)
  | [] => none
  | c :: s =>
    match behindWord? word before (c :: s) with
    | some rest => some ([], rest)
    | none => (cutAtWord? word (some c) s).map fun cut => (c :: cut.1, cut.2)

theorem eq_append_of_behindWord? {word s rest : List Char} {before : Option Char}
    (h : behindWord? word before s = some rest) : s = word ++ rest := by
  unfold behindWord? at h
  split at h
  · rename_i hc
    simp only [Bool.and_eq_true, List.isPrefixOf_iff_prefix] at hc
    obtain ⟨t, rfl⟩ := hc.1.2
    simp_all
  · simp at h

/-- The part cut off, the word and the rest are the text. -/
theorem eq_append_of_cutAtWord? {word s gap rest : List Char} {before : Option Char}
    (h : cutAtWord? word before s = some (gap, rest)) : s = gap ++ word ++ rest := by
  induction s generalizing before gap with
  | nil => simp [cutAtWord?] at h
  | cons c s ih =>
    rw [cutAtWord?] at h
    split at h
    · rename_i r hr
      simp only [Option.some.injEq, Prod.mk.injEq] at h
      obtain ⟨rfl, rfl⟩ := h
      simpa using eq_append_of_behindWord? hr
    · simp only [Option.map_eq_some_iff, Prod.mk.injEq, Prod.exists] at h
      obtain ⟨g, r, hg, rfl, rfl⟩ := h
      simp [ih hg]

theorem length_trimStart_le (s : List Char) : (trimStart s).length ≤ s.length :=
  (List.dropWhile_suffix isBlank).length_le

end Decompilation.Source
