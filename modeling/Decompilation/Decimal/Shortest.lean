import Decompilation.Decimal.Binary64

/-!
# The shortest decimal of a number

Of the decimals that round to a number, `shortest` has the fewest digits and of those is the
nearest. If any decimal with `n` digits lies in the rounding interval, one of the two neighbours of
the number on the grid of `n` digits does, so only these are tried.
-/

namespace Decompilation.Decimal

open Binary64 (roundDiv tenTo twoTo)

/-- The decimal `digits * 10 ^ power`. -/
structure Scaled where
  digits : Nat
  power : Int
  deriving DecidableEq, Repr

/-- The numbers that round to `mantissa * 2 ^ exponent`, in quarters of the distance to the next
greater number: from `low` to `high`, the ends included exactly for an even mantissa. -/
structure Interval where
  low : Nat
  high : Nat
  closed : Bool

/-- The rounding interval; below a power of two the distance is half of that above it. -/
def intervalOf (mantissa : Nat) (exponent : Int) : Interval where
  low := 4 * mantissa - (if mantissa = twoTo 52 ∧ Binary64.minExponent < exponent then 1 else 2)
  high := 4 * mantissa + 2
  closed := mantissa % 2 = 0

def Interval.holds (i : Interval) (n d : Nat) : Bool :=
  if i.closed then i.low * d ≤ n && n ≤ i.high * d else i.low * d < n && n < i.high * d

/-- `k * 10 ^ power` in quarters of `2 ^ exponent`, as a quotient. -/
def quarters (k : Nat) (power exponent : Int) : Nat × Nat :=
  let (n, d) := if 0 ≤ power then (4 * k * tenTo power.toNat, 1) else (4 * k, tenTo (-power).toNat)
  Binary64.scale n d exponent

/-- The power of ten at which `mantissa * 2 ^ exponent` has its first digit, from an estimate that
is at most one too small. -/
def leadingPower (mantissa : Nat) (exponent : Int) : Int :=
  let bits : Int := mantissa.log2 + exponent
  let guess := Int.fdiv (bits * 30103) 100000 - 1
  let reached (p : Int) : Bool :=
    let (n, d) := quarters 1 p exponent
    n ≤ 4 * mantissa * d
  if reached (guess + 2) then guess + 2 else if reached (guess + 1) then guess + 1 else guess

/-- The neighbour with at most `count` digits that rounds to the number, if there is one. -/
def candidate? (mantissa : Nat) (exponent : Int) (lead : Int) (count : Nat) : Option Scaled :=
  let power := lead - count + 1
  let (n, d) := quarters 1 power exponent
  let below := 4 * mantissa * d / n
  let i := intervalOf mantissa exponent
  let fits (k : Nat) : Bool := i.holds (k * n) d
  let nearest := roundDiv (4 * mantissa * d) n
  if fits nearest && nearest != 0 then some ⟨nearest, power⟩
  else if fits below && below != 0 then some ⟨below, power⟩
  else if fits (below + 1) then some ⟨below + 1, power⟩
  else none

/-- The shortest decimal of a positive finite number; seventeen digits always suffice. -/
def shortest (mantissa : Nat) (exponent : Int) : Scaled :=
  let lead := leadingPower mantissa exponent
  ((List.range 17).findSome? fun i => candidate? mantissa exponent lead (i + 1)).getD
    ⟨mantissa, 0⟩

/-- The digits of a decimal without trailing zeros, and the place of the point: the number of
digits before it, which may be negative. -/
def Scaled.pointed (x : Scaled) : List Char × Int :=
  let ds := Nat.toDigits 10 x.digits
  let kept := (ds.reverse.dropWhile (· == '0')).reverse
  (kept, ds.length + x.power)

/-- How numbers are written out: positional between two bounds of the point's place, with an
exponent beyond; the names of what is no number. -/
structure NumberStyle where
  leastPoint : Int
  greatestPoint : Int
  nan : String
  infinity : String

/-- A number between 10^-4 and 10^16 stands in positional form. -/
def plain : NumberStyle := ⟨-3, 16, "nan", "inf"⟩

/-- The same form, with the names of a data format. -/
def formal : NumberStyle := ⟨-3, 16, "NaN", "Infinity"⟩

/-- Digits with a point at a place within, before or after them. -/
def positional (ds : List Char) (point : Int) : List Char :=
  if point ≤ 0 then '0' :: '.' :: List.replicate (-point).toNat '0' ++ ds
  else
    let n := point.toNat
    if ds.length ≤ n then ds ++ List.replicate (n - ds.length) '0' ++ ['.', '0']
    else ds.take n ++ '.' :: ds.drop n

/-- Digits with the point behind the first one and an exponent of at least two digits. -/
def scientific (ds : List Char) (point : Int) : List Char :=
  let e := point - 1
  let es := Nat.toDigits 10 e.natAbs
  let es := if es.length < 2 then '0' :: es else es
  (match ds with
    | [] => []
    | [d] => [d]
    | d :: rest => d :: '.' :: rest) ++ 'e' :: (if e < 0 then '-' else '+') :: es

def writeDecimal (style : NumberStyle) (x : Scaled) : List Char :=
  let (ds, point) := x.pointed
  if style.leastPoint ≤ point ∧ point ≤ style.greatestPoint then positional ds point
  else scientific ds point

def Binary64.write (style : NumberStyle) : Binary64 → String
  | .nan => style.nan
  | .infinity negative => (if negative then "-" else "") ++ style.infinity
  | .finite negative m e =>
    (if negative then "-" else "") ++
      (if m = 0 then "0.0" else String.ofList (writeDecimal style (shortest m e)))

end Decompilation.Decimal
