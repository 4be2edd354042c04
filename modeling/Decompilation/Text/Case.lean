import Decompilation.Text.CaseTable

/-!
# Lower and upper case

The full case mappings: a character may become several, and a capital sigma that ends a word has a
lower form of its own.
-/

namespace Decompilation.Text

def inRanges (ranges : List (Nat × Nat)) (n : Nat) : Bool :=
  ranges.any fun r => r.1 ≤ n && n ≤ r.2

/-- Where a run moves a code point, if the run holds it. -/
def CaseRun.moved? (r : CaseRun) (n : Nat) : Option Nat :=
  if r.first ≤ n ∧ n ≤ r.last ∧ (n - r.first) % r.step = 0 then some (n + r.shift).toNat else none

/-- A character mapped by runs and by a list of special cases; any other character stays. -/
def mapCase (runs : List CaseRun) (special : List (Nat × List Nat)) (c : Char) : List Char :=
  match special.lookup c.toNat with
  | some ns => ns.map Char.ofNat
  | none => match runs.findSome? (·.moved? c.toNat) with
    | some n => [Char.ofNat n]
    | none => [c]

def lowerChar (c : Char) : List Char :=
  if c.toNat < 0x80 then [c.toLower] else mapCase lowerRuns lowerSpecial c

def upperChar (c : Char) : List Char :=
  if c.toNat < 0x80 then [c.toUpper] else mapCase upperRuns upperSpecial c

/-- Whether the first character that is not case-ignorable is cased. -/
def meetsCased (s : List Char) : Bool :=
  match s.dropWhile (fun c => inRanges caseIgnorableRanges c.toNat) with
  | [] => false
  | c :: _ => inRanges casedRanges c.toNat

/-- The lower form of a text; `before` holds the characters already passed, the last one first. -/
def lowerAfter (before : List Char) : List Char → List Char
  | [] => []
  | c :: s =>
    (if c = 'Σ' then [if meetsCased before && !meetsCased s then 'ς' else 'σ'] else lowerChar c) ++
      lowerAfter (c :: before) s

def lower (s : List Char) : List Char := lowerAfter [] s

def upper (s : List Char) : List Char := s.flatMap upperChar

def lowercase (s : String) : String := String.ofList (lower s.toList)

def uppercase (s : String) : String := String.ofList (upper s.toList)

end Decompilation.Text
