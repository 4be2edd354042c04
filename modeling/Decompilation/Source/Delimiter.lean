/-!
# Matching delimiters

A delimiter opened somewhere is closed where as many partners as openers have been met. Only the
opener and its partner count; strings and comments are read like any other text.
-/

namespace Decompilation.Source

/-- The partner of an opening delimiter; a brace closes whatever is no delimiter. -/
def closerOf : Char → Char
  | '(' => ')'
  | '[' => ']'
  | '<' => '>'
  | _ => '}'

/-- The length of a text behind an opener up to and with the closer that brings back the depth;
`outer` counts the openers still open around it. -/
def closing? (opener closer : Char) (outer : Nat) : List Char → Option Nat
  | [] => none
  | c :: s =>
    if c = opener then (closing? opener closer (outer + 1) s).map (· + 1)
    else if c = closer then
      if outer = 0 then some 1 else (closing? opener closer (outer - 1) s).map (· + 1)
    else (closing? opener closer outer s).map (· + 1)

/-- The length of a text behind a brace up to and with the matching brace. -/
def closingBrace? (s : List Char) : Option Nat := closing? '{' '}' 0 s

/-- The offset just past the partner of the delimiter at an offset, or the length of the text when
there is no delimiter at that offset or it is never closed. -/
def matchingClose (text : List Char) (offset : Int) : Nat :=
  if offset < 0 then text.length
  else match text.drop offset.toNat with
    | [] => text.length
    | c :: s => match closing? c (closerOf c) 0 s with
      | some n => offset.toNat + 1 + n
      | none => text.length

end Decompilation.Source
