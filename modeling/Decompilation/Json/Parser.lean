import Decompilation.Json.Basic

/-!
# Reading data values

A text is first cut into lexemes and the lexemes are then folded into one value, with a stack of
the lists and objects that are still open. Both passes run over their input once. Of several fields
with one key, the last gives the value and the first the place.
-/

namespace Decompilation.Json

open Decimal (Binary64)

/-- The smallest parts of a written value. -/
inductive Lexeme where
  | openArr
  | closeArr
  | openObj
  | closeObj
  | comma
  | colon
  | atom (v : Value)

def hexValue? (c : Char) : Option Nat :=
  if '0' ≤ c ∧ c ≤ '9' then some (c.toNat - '0'.toNat)
  else if 'a' ≤ c ∧ c ≤ 'f' then some (c.toNat - 'a'.toNat + 10)
  else if 'A' ≤ c ∧ c ≤ 'F' then some (c.toNat - 'A'.toNat + 10)
  else none

def unit? (a b c d : Char) : Option Nat := do
  return (((← hexValue? a) * 16 + (← hexValue? b)) * 16 + (← hexValue? c)) * 16 + (← hexValue? d)

/-- The character of an escape of one letter. -/
def simpleEscape? : Char → Option Char
  | '"' => some '"'
  | '\\' => some '\\'
  | '/' => some '/'
  | 'b' => some '\x08'
  | 'f' => some '\x0c'
  | 'n' => some '\n'
  | 'r' => some '\r'
  | 't' => some '\t'
  | _ => none

/-- What the reader is in the middle of. `text` and `word` hold the characters so far, the last one
first; `escaped` stands behind a backslash; `unit` holds the digits of a UTF-16 escape, the last one
first; `high` is the first half of a surrogate pair. -/
inductive Phase where
  | between
  | word (chars : List Char)
  | text (chars : List Char) (high : Option Nat)
  | escaped (chars : List Char) (high : Option Nat)
  | unit (chars : List Char) (high : Option Nat) (digits : List Char)

def digitsValue (ds : List Char) : Nat := ds.foldl (fun n c => 10 * n + (c.toNat - '0'.toNat)) 0

/-- An exponent: an optional sign and digits. -/
def exponent? : List Char → Option Int
  | [] => some 0
  | e :: rest =>
    if e = 'e' ∨ e = 'E' then
      match rest with
      | '-' :: ds => some (-(digitsValue ds : Int))
      | '+' :: ds => some (digitsValue ds)
      | ds => some (digitsValue ds)
    else none

/-- A number without its sign. -/
def number (negative : Bool) (s : List Char) : Option Value :=
  let whole := s.takeWhile Char.isDigit
  let rest := s.dropWhile Char.isDigit
  if whole.isEmpty then none
  else match rest with
    | [] =>
      let n : Int := digitsValue whole
      some (.int (if negative then -n else n))
    | '.' :: r =>
      let fraction := r.takeWhile Char.isDigit
      (exponent? (r.dropWhile Char.isDigit)).map fun e =>
        .float (Binary64.ofDecimal negative (digitsValue (whole ++ fraction)) (e - fraction.length))
    | r => (exponent? r).map fun e => .float (Binary64.ofDecimal negative (digitsValue whole) e)

def word? (s : List Char) : Option Value :=
  if s = "null".toList then some .null
  else if s = "true".toList then some (.bool true)
  else if s = "false".toList then some (.bool false)
  else if s = "NaN".toList then some (.float .nan)
  else if s = "Infinity".toList then some (.float (.infinity false))
  else if s = "-Infinity".toList then some (.float (.infinity true))
  else match s with
    | '-' :: r => number true r
    | r => number false r

def punctuation? : Char → Option Lexeme
  | '[' => some .openArr
  | ']' => some .closeArr
  | '{' => some .openObj
  | '}' => some .closeObj
  | ',' => some .comma
  | ':' => some .colon
  | _ => none

/-- One character read between lexemes. -/
def between (acc : List Lexeme) (c : Char) : Option (Phase × List Lexeme) :=
  if c = ' ' ∨ c = '\n' ∨ c = '\r' ∨ c = '\t' then some (.between, acc)
  else if c = '"' then some (.text [] none, acc)
  else match punctuation? c with
    | some l => some (.between, l :: acc)
    | none => some (.word [c], acc)

/-- A character put behind the characters of a string, after a lone half of a pair if one waits. -/
def push (chars : List Char) (high : Option Nat) (c : Char) : List Char :=
  match high with
  | none => c :: chars
  | some _ => c :: '\uFFFD' :: chars

/-- A UTF-16 unit put behind the characters of a string. -/
def pushUnit (chars : List Char) (high : Option Nat) (n : Nat) : List Char × Option Nat :=
  match high with
  | some h =>
    if 0xDC00 ≤ n ∧ n < 0xE000 then
      (Char.ofNat (0x10000 + (h - 0xD800) * 0x400 + (n - 0xDC00)) :: chars, none)
    else if 0xD800 ≤ n ∧ n < 0xDC00 then ('\uFFFD' :: chars, some n)
    else (Char.ofNat n :: '\uFFFD' :: chars, none)
  | none =>
    if 0xD800 ≤ n ∧ n < 0xDC00 then (chars, some n)
    else if 0xDC00 ≤ n ∧ n < 0xE000 then ('\uFFFD' :: chars, none)
    else (Char.ofNat n :: chars, none)

/-- One character read in a phase, with the lexemes so far, the last one first. -/
def advance (phase : Phase) (acc : List Lexeme) (c : Char) : Option (Phase × List Lexeme) :=
  match phase with
  | .between => between acc c
  | .word cs =>
    if c.isAlphanum ∨ c = '.' ∨ c = '+' ∨ c = '-' then some (.word (c :: cs), acc)
    else do between (.atom (← word? cs.reverse) :: acc) c
  | .text cs high =>
    if c = '"' then
      let cs := match high with | none => cs | some _ => '\uFFFD' :: cs
      some (.between, .atom (.str (String.ofList cs.reverse)) :: acc)
    else if c = '\\' then some (.escaped cs high, acc)
    else some (.text (push cs high c) none, acc)
  | .escaped cs high =>
    if c = 'u' then some (.unit cs high [], acc)
    else do return (.text (push cs high (← simpleEscape? c)) none, acc)
  | .unit cs high [z, y, x] => do
    let (cs, high) := pushUnit cs high (← unit? x y z c)
    return (.text cs high, acc)
  | .unit cs high ds => some (.unit cs high (c :: ds), acc)

/-- The lexemes of a text, the last one first. -/
def lexemes? : Phase → List Lexeme → List Char → Option (List Lexeme)
  | .between, acc, [] => some acc
  | .word cs, acc, [] => do return .atom (← word? cs.reverse) :: acc
  | _, _, [] => none
  | phase, acc, c :: s =>
    match advance phase acc c with
    | some (phase, acc) => lexemes? phase acc s
    | none => none

/-- A list or an object that is still open, with its parts so far, the last one first, and the key
that waits for its value. -/
inductive Frame where
  | arr (items : List Value)
  | obj (fields : List (String × Value)) (key : Option String)

/-- The fields of an object in order, each key once with its last value. -/
def settle (fields : List (String × Value)) : List (String × Value) :=
  let rec go (seen : List (String × Value)) : List (String × Value) → List (String × Value)
    | [] => seen.reverse
    | (k, v) :: fs =>
      if seen.any (·.1 == k) then
        go (seen.map fun e => if e.1 == k then (k, v) else e) fs
      else go ((k, v) :: seen) fs
  go [] fields

/-- The state of the fold: the open frames, the innermost first, and the value if it is complete. -/
structure Stack where
  frames : List Frame
  result : Option Value

/-- A complete value put into the innermost open frame. -/
def Stack.supply (st : Stack) (v : Value) : Option Stack :=
  match st.frames with
  | [] => if st.result.isNone then some ⟨[], some v⟩ else none
  | .arr vs :: fs => some { st with frames := .arr (v :: vs) :: fs }
  | .obj kvs (some k) :: fs => some { st with frames := .obj ((k, v) :: kvs) none :: fs }
  | .obj kvs none :: fs =>
    match v with
    | .str k => some { st with frames := .obj kvs (some k) :: fs }
    | _ => none

/-- One lexeme folded in. Commas and colons carry no meaning of their own. -/
def Stack.step (st : Stack) : Lexeme → Option Stack
  | .openArr => some { st with frames := .arr [] :: st.frames }
  | .openObj => some { st with frames := .obj [] none :: st.frames }
  | .closeArr =>
    match st.frames with
    | .arr vs :: fs => Stack.supply { st with frames := fs } (.arr vs.reverse)
    | _ => none
  | .closeObj =>
    match st.frames with
    | .obj kvs none :: fs => Stack.supply { st with frames := fs } (.obj (settle kvs.reverse))
    | _ => none
  | .comma => some st
  | .colon => some st
  | .atom v => st.supply v

/-- The value that a text writes. -/
def parse (s : String) : Option Value := do
  let ls ← lexemes? .between [] s.toList
  let st ← ls.reverse.foldlM Stack.step ⟨[], none⟩
  if st.frames.isEmpty then st.result else none

end Decompilation.Json
