/-!
# Blank characters and trimming

`isBlank` is white space in the widest sense: tabs and line ends, the four information separators,
the space, and the spaces and line separators of other scripts. `trim` removes a maximal blank run
at either end; a trimmed text is a fixed point of `trim`.
-/

namespace Decompilation.Text

/-- White space: control white space, information separators, and every space of any script. -/
def isBlank (c : Char) : Bool :=
  let n := c.toNat
  (9 ≤ n && n ≤ 13) || (0x1C ≤ n && n ≤ 0x20) || n == 0x85 || n == 0xA0 || n == 0x1680 ||
    (0x2000 ≤ n && n ≤ 0x200A) || n == 0x2028 || n == 0x2029 || n == 0x202F || n == 0x205F ||
    n == 0x3000

def trimStart (s : List Char) : List Char := s.dropWhile isBlank

def trimEnd (s : List Char) : List Char := (s.reverse.dropWhile isBlank).reverse

def trim (s : List Char) : List Char := trimEnd (trimStart s)

def allBlank (s : List Char) : Bool := s.all isBlank

def trimmed (s : String) : String := String.ofList (trim s.toList)

@[simp] theorem trim_nil : trim [] = [] := rfl

@[simp] theorem trimStart_cons_blank {c : Char} {s : List Char} (h : isBlank c = true) :
    trimStart (c :: s) = trimStart s := by simp [trimStart, h]

@[simp] theorem trimStart_cons_of_not {c : Char} {s : List Char} (h : isBlank c = false) :
    trimStart (c :: s) = c :: s := by simp [trimStart, h]

end Decompilation.Text
