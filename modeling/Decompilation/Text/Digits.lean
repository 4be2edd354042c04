import Decompilation.Text.Blank
import Decompilation.Text.DigitTable

/-!
# Whole numbers as people write them

`integer?` reads a whole number: blanks other than information separators around it, one sign,
decimal digits of any script with single underscores between them, and at most `digitLimit` digits.
-/

namespace Decompilation.Text

/-- The value of a decimal digit of any script. -/
def digitValue? (c : Char) : Option Nat :=
  (digitZeros.find? fun z => z ≤ c.toNat && c.toNat < z + 10).map (c.toNat - ·)

/-- The most digits that a whole number may be written with. -/
def digitLimit : Nat := 4300

/-- The values of digits with single underscores between them. -/
def digits? : List Char → Option (List Nat)
  | [] => none
  | [c] => (digitValue? c).map ([·])
  | c :: '_' :: s => do return (← digitValue? c) :: (← digits? s)
  | c :: s => do return (← digitValue? c) :: (← digits? s)

def ofDigits (ds : List Nat) : Nat := ds.foldl (fun n d => 10 * n + d) 0

/-- Digits as a number, unless they are too many. -/
def natural? (s : List Char) : Option Nat := do
  let ds ← digits? s
  if ds.length ≤ digitLimit then some (ofDigits ds) else none

/-- The blanks that may stand around a number: all but the information separators. -/
def isMargin (c : Char) : Bool := isBlank c && !(0x1C ≤ c.toNat && c.toNat ≤ 0x1F)

/-- A whole number with an optional sign, and blanks around both. -/
def integer? (s : List Char) : Option Int :=
  let body := ((s.dropWhile isMargin).reverse.dropWhile isMargin).reverse
  match body with
  | '-' :: r => (natural? r).map fun n => -Int.ofNat n
  | '+' :: r => (natural? r).map Int.ofNat
  | r => (natural? r).map Int.ofNat

end Decompilation.Text
