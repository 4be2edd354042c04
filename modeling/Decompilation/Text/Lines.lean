/-!
# Lines

Three ways to see lines in a text. `lines` cuts at every line separator and forgets which one it
was; `unifyBreaks` turns the pair CR LF and a lone CR into LF; `splitOn` cuts at one given character
and keeps every piece, so that joining the pieces with it gives the text back.
-/

namespace Decompilation.Text

/-- Line separators: LF, VT, FF, CR, the file, group and record separators, NEL, LS and PS. -/
def isBreak (c : Char) : Bool :=
  let n := c.toNat
  (0xA ≤ n && n ≤ 0xD) || (0x1C ≤ n && n ≤ 0x1E) || n == 0x85 || n == 0x2028 || n == 0x2029

/-- The lines of a text without their separators; CR LF is one separator, and no line follows a
final separator. -/
def lines : List Char → List (List Char)
  | [] => []
  | '\r' :: '\n' :: s => [] :: lines s
  | c :: s =>
    if isBreak c then [] :: lines s
    else match lines s with
      | [] => [[c]]
      | l :: ls => (c :: l) :: ls

/-- The text with LF for each CR LF and each lone CR. -/
def unifyBreaks : List Char → List Char
  | [] => []
  | '\r' :: '\n' :: s => '\n' :: unifyBreaks s
  | c :: s => (if c = '\r' then '\n' else c) :: unifyBreaks s

/-- The pieces of a text between the occurrences of `sep`: one more than there are occurrences. -/
def splitOn (sep : Char) : List Char → List (List Char)
  | [] => [[]]
  | c :: s =>
    if c = sep then [] :: splitOn sep s
    else match splitOn sep s with
      | [] => [[c]]
      | p :: ps => (c :: p) :: ps

def joinWith (sep : List Char) : List (List Char) → List Char
  | [] => []
  | [p] => p
  | p :: ps => p ++ sep ++ joinWith sep ps

def pieces (sep : Char) (s : String) : List String := (splitOn sep s.toList).map String.ofList

theorem splitOn_ne_nil (sep : Char) (s : List Char) : splitOn sep s ≠ [] := by
  cases s with
  | nil => simp [splitOn]
  | cons c s =>
    rw [splitOn]
    split
    · simp
    · split <;> simp

theorem joinWith_splitOn (sep : Char) (s : List Char) : joinWith [sep] (splitOn sep s) = s := by
  induction s with
  | nil => rfl
  | cons c s ih =>
    rw [splitOn]
    obtain ⟨p, ps, h⟩ := List.exists_cons_of_ne_nil (splitOn_ne_nil sep s)
    rw [h] at ih ⊢
    by_cases hc : c = sep
    · simp [hc, joinWith, ih]
    · cases ps with
      | nil => simp_all [joinWith]
      | cons q qs => simp only [if_neg hc, joinWith, List.cons_append] at ih ⊢; rw [ih]

end Decompilation.Text
