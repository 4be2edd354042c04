import Decompilation.Source.Token
import Decompilation.Text.Lines

/-!
# The header of a source text

The using directives on lines of their own before the first word `namespace`, in order and without
trailing blanks.
-/

namespace Decompilation.Source

open Text

/-- The word that starts a directive. -/
def usingWord : List Char := ['u', 's', 'i', 'n', 'g']

/-- Whether a line is a directive: the word `using`, a blank, something that is not blank, and the
line's only semicolon, with nothing but blanks around it all. -/
def isUsingDirective (line : List Char) : Bool :=
  let s := trim line
  let rest := s.drop usingWord.length
  usingWord.isPrefixOf s && rest.head?.any isBlank && rest.getLast? == some ';' &&
    rest.count ';' == 1 && !allBlank rest.dropLast

/-- The text before the first word `namespace`; empty without that word. -/
def preamble (text : List Char) : List Char :=
  match cutAtWord? namespaceWord none text with
  | some (before, _) => before
  | none => []

/-- The directives of a text, one a line. -/
def header (text : List Char) : List Char :=
  joinWith ['\n'] (((lines (preamble text)).filter isUsingDirective).map trimEnd)

end Decompilation.Source
