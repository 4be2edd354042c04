import Decompilation.Source.Delimiter
import Decompilation.Source.Token
import Decompilation.Table
import Decompilation.Text.Search

/-!
# Dividing a text among its namespaces

Each declaration claims a region: a block the text between its braces, a file-scoped one the text
up to the next declaration. Regions of one name are put together in order, each trimmed and ended
by a newline. The text before the first declaration and behind the last region belongs to no
namespace and goes to a unit of its own. A declaration inside a region already claimed claims
nothing.
-/

namespace Decompilation.Source

open Text

/-- The name of the unit of all text outside namespaces. No namespace can have it. -/
def globalName : String := "(global)"

/-- The units of a text in order of first appearance, and the form of each namespace's first
declaration. -/
structure Partition where
  units : Table String (List Char)
  forms : Table String Form

namespace Partition

def empty : Partition := ⟨Table.empty, Table.empty⟩

def add (p : Partition) (name : String) (region : List Char) : Partition :=
  { p with units := p.units.insert name ((p.units.get? name).getD [] ++ trim region ++ ['\n']) }

/-- A region outside namespaces added, unless it is empty. -/
def addGlobal (p : Partition) (region : List Char) : Partition :=
  if region.isEmpty then p else p.add globalName region

/-- The form of a namespace noted, unless one is noted already. -/
def note (p : Partition) (t : Token) : Partition :=
  { p with forms := p.forms.insertNew t.name t.form }

end Partition

/-- The region of a file-scoped declaration and its end, given the offset of the next
declaration. -/
def fileRegion (text : List Char) (t : Token) (next : Option Token) : List Char × Int :=
  let start : Int := match findFrom? ';' text t.offset with
    | some i => i + 1
    | none => 0
  let stop : Int := match next with
    | some n => n.offset
    | none => text.length
  (slice text start stop, stop)

/-- The region of a block declaration and its end; a block that is never closed reaches to the end
of the text. There is none without a brace. -/
def blockRegion? (text : List Char) (t : Token) : Option (List Char × Int) :=
  (findFrom? '{' text t.offset).map fun brace =>
    let inner := text.drop (brace + 1)
    match closingBrace? inner with
    | some n => (inner.take (n - 1), (brace + 1 + n : Nat))
    | none => (inner, text.length)

/-- The regions of the declarations that start at or behind `cursor`, added in order; with the end
of the last region. -/
def consume (text : List Char) : Int → Partition → List Token → Int × Partition
  | cursor, p, [] => (cursor, p)
  | cursor, p, t :: ts =>
    if t.offset < cursor then consume text cursor p ts
    else match t.form with
      | .fileScoped =>
        let (region, stop) := fileRegion text t ts.head?
        consume text stop ((p.note t).add t.name region) ts
      | .block => match blockRegion? text t with
        | none => consume text cursor (p.note t) ts
        | some (region, stop) => consume text stop ((p.note t).add t.name region) ts

def partitionBy (text : List Char) : List Token → Partition
  | [] => ⟨Table.empty.insert globalName (trim text), Table.empty⟩
  | t :: ts =>
    let first := Partition.empty.addGlobal (if 0 < t.offset then slice text 0 t.offset else [])
    let (cursor, p) := consume text 0 first (t :: ts)
    if cursor < text.length then p.addGlobal (sliceFrom text cursor) else p

def partition (text : List Char) : Partition := partitionBy text (tokenize text)

end Decompilation.Source
