import Decompilation.Source.Header
import Decompilation.Source.Partition

/-!
# A source text divided into units

`divide` reads a text's header, units and declared names; `render` writes one unit as a source text
of its own, with the header in front.
-/

namespace Decompilation.Source

open Text

/-- A source text by namespaces. -/
structure Division where
  header : List Char
  units : Table String (List Char)
  forms : Table String Form
  declared : List String
  deriving DecidableEq

/-- The header, the units and the declared names of a text. -/
def divide (text : List Char) : Division :=
  let tokens := tokenize text
  let p := partitionBy text tokens
  ⟨header text, p.units, p.forms, tokens.map (·.name)⟩

/-- The declaration of a namespace around its members, in the given form. The unit of all text
outside namespaces has no declaration. -/
def wrap (name : String) (form : Form) (body : List Char) : List Char :=
  match form with
  | .block => "namespace ".toList ++ name.toList ++ "\n\x7b\n".toList ++ body ++ "\n\x7d".toList
  | .fileScoped => "namespace ".toList ++ name.toList ++ ";\n\n".toList ++ body

def render (header : List Char) (name : String) (body : List Char) (form : Form) : List Char :=
  let body := trim body
  let head := if header.isEmpty then [] else [header]
  let rest :=
    if name = globalName then (if body.isEmpty then [] else [body]) else [wrap name form body]
  joinWith ['\n', '\n'] (head ++ rest) ++ ['\n']

namespace Division

def formOf (d : Division) (name : String) : Form := (d.forms.get? name).getD .fileScoped

/-- A text of a unit as a source text of its own. -/
def renderUnit (d : Division) (name : String) (body : List Char) : List Char :=
  render d.header name body (d.formOf name)

end Division

end Decompilation.Source
