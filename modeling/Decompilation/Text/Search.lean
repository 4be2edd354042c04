/-!
# Finding and cutting by offset

Offsets count characters. A negative offset counts from the end of the text, and an offset beyond
either end stands for that end; for offsets within the text `slice` is `take` after `drop` and
`findFrom?` is the first occurrence at or after the offset.
-/

namespace Decompilation.Text

/-- The place in a text of `length` characters that an offset of any sign and size stands for. -/
def clampOffset (length : Nat) (offset : Int) : Nat :=
  if offset < 0 then (offset + length).toNat else min offset.toNat length

def slice (s : List Char) (start stop : Int) : List Char :=
  let i := clampOffset s.length start
  (s.drop i).take (clampOffset s.length stop - i)

def sliceFrom (s : List Char) (start : Int) : List Char := s.drop (clampOffset s.length start)

/-- The offset of the first `c` in a text. -/
def find? (c : Char) (s : List Char) : Option Nat := s.findIdx? (· == c)

/-- The offset of the first `c` at or after `start`. -/
def findFrom? (c : Char) (s : List Char) (start : Int) : Option Nat :=
  let i := clampOffset s.length start
  (find? c (s.drop i)).map (i + ·)

def occurs (sub : List Char) : List Char → Bool
  | [] => sub.isEmpty
  | c :: s => sub.isPrefixOf (c :: s) || occurs sub s

def mentions (s : List Char) (sub : String) : Bool := occurs sub.toList s

@[simp] theorem clampOffset_ofNat (length n : Nat) :
    clampOffset length (n : Int) = min n length := by
  unfold clampOffset
  split <;> omega

end Decompilation.Text
