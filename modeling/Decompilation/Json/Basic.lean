import Decompilation.Decimal.Binary64

/-!
# Data values

The values of the data format in which requests and reports are written: an object keeps its fields
in the order written. Whole numbers have any size; numbers with a fraction or an exponent are
rounded to 64 bits.
-/

namespace Decompilation.Json

open Decimal (Binary64)

inductive Value where
  | null
  | bool (b : Bool)
  | int (n : Int)
  | float (x : Binary64)
  | str (s : String)
  | arr (items : List Value)
  | obj (fields : List (String × Value))
  deriving Repr, BEq

namespace Value

instance : Inhabited Value := ⟨.null⟩

def field? (key : String) : Value → Option Value
  | .obj fields => fields.lookup key
  | _ => none

/-- Whether a value counts as present: not null, false, zero or empty. -/
def isPresent : Value → Bool
  | .null => false
  | .bool b => b
  | .int n => n != 0
  | .float x => !x.isZero
  | .str s => !s.isEmpty
  | .arr items => !items.isEmpty
  | .obj fields => !fields.isEmpty

def kindName : Value → String
  | .null => "NoneType"
  | .bool _ => "bool"
  | .int _ => "int"
  | .float _ => "float"
  | .str _ => "str"
  | .arr _ => "list"
  | .obj _ => "dict"

/-- Whether a value is below a whole number, if it is a number. True and false count as one and
zero. -/
def isBelow? : Value → Int → Option Bool
  | .int m, n => some (m < n)
  | .bool b, n => some ((if b then 1 else 0) < n)
  | .float x, n => some (x.isBelow n)
  | _, _ => none

def ofStrings (ss : List String) : Value := .arr (ss.map .str)

/-- A string, or null for none. -/
def ofString? : Option String → Value
  | some s => .str s
  | none => .null

end Value

end Decompilation.Json
