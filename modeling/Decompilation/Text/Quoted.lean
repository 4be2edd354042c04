import Decompilation.Text.Case
import Decompilation.Text.PrintableTable

/-!
# Quoted text

The form in which a text is shown inside a list or a message: in single quotes, or in double quotes
when it holds a single quote and no double one. The quote in use, the backslash and every
character without a glyph are escaped.
-/

namespace Decompilation.Text

/-- Whether a character has a glyph of its own, the space included. -/
def isPrintable (c : Char) : Bool :=
  if c.toNat < 0x7F then 0x20 ≤ c.toNat else !inRanges unprintableRanges c.toNat

/-- The last `width` hexadecimal digits of a number, in lower case. -/
def hex (width n : Nat) : List Char :=
  (List.range width).reverse.map fun i => Nat.digitChar ((n >>> (4 * i)) % 16)

/-- The escape of a character by its code point, in the shortest of three widths. -/
def escapeCode (c : Char) : List Char :=
  let n := c.toNat
  if n < 0x100 then '\\' :: 'x' :: hex 2 n
  else if n < 0x10000 then '\\' :: 'u' :: hex 4 n
  else '\\' :: 'U' :: hex 8 n

/-- A character as it stands between quotes of the given kind. -/
def quoteChar (quote c : Char) : List Char :=
  if c = quote ∨ c = '\\' then ['\\', c]
  else if c = '\n' then ['\\', 'n']
  else if c = '\r' then ['\\', 'r']
  else if c = '\t' then ['\\', 't']
  else if isPrintable c then [c]
  else escapeCode c

/-- The quote that a text is put in: the double one only to save escaping single ones. -/
def quoteFor (s : List Char) : Char := if s.elem '\'' && !s.elem '"' then '"' else '\''

def quote (s : List Char) : List Char :=
  let q := quoteFor s
  q :: s.flatMap (quoteChar q) ++ [q]

def quoted (s : String) : String := String.ofList (quote s.toList)

end Decompilation.Text
