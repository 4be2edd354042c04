/-!
# Binary floating point numbers of 64 bits

A number is a sign, a mantissa below 2^53 and an exponent of two not below -1074. `roundRatio` takes
a quotient to the nearest such number, a tie to the even mantissa, in exact arithmetic on natural
numbers; reading decimals, sums and products are rounded by it.
-/

namespace Decompilation.Decimal

/-- A number of 64 bits. In `finite`, the value is `mantissa * 2 ^ exponent`. -/
inductive Binary64 where
  | nan
  | infinity (negative : Bool)
  | finite (negative : Bool) (mantissa : Nat) (exponent : Int)
  deriving DecidableEq, Repr

namespace Binary64

def twoTo (n : Nat) : Nat := Nat.pow 2 n

def tenTo (n : Nat) : Nat := Nat.pow 10 n

/-- The least exponent, which numbers near zero share. -/
def minExponent : Int := -1074

def maxExponent : Int := 971

/-- `num / den` rounded to a natural number, a half to the even neighbour. -/
def roundDiv (num den : Nat) : Nat :=
  let q := num / den
  let r := 2 * (num % den)
  if r < den then q else if den < r then q + 1 else if q % 2 = 0 then q else q + 1

/-- `num / den` in units of `2 ^ exponent`, as a quotient. -/
def scale (num den : Nat) (exponent : Int) : Nat × Nat :=
  if 0 ≤ exponent then (num, den * twoTo exponent.toNat) else (num * twoTo (-exponent).toNat, den)

/-- The exponent at which `num / den` has 53 binary digits, kept from `minExponent` up. -/
def exponentFor (num den : Nat) : Int :=
  let e : Int := num.log2 - den.log2 - 52
  let (n, d) := scale num den e
  let e := if n < twoTo 52 * d then e - 1 else e
  if e < minExponent then minExponent else e

def roundRatio (negative : Bool) (num den : Nat) : Binary64 :=
  if num = 0 then .finite negative 0 minExponent
  else
    let e := exponentFor num den
    let (n, d) := scale num den e
    let m := roundDiv n d
    let (m, e) := if m = twoTo 53 then (twoTo 52, e + 1) else (m, e)
    if maxExponent < e then .infinity negative else .finite negative m e

/-- The number nearest to `digits * 10 ^ power`. Beyond 10^400 and below 10^-400 the answer does not
depend on the digits. -/
def ofDecimal (negative : Bool) (digits : Nat) (power : Int) : Binary64 :=
  if digits = 0 then .finite negative 0 minExponent
  else
    let size : Int := (Nat.toDigits 10 digits).length + power
    if 400 < size then .infinity negative
    else if size < -400 then .finite negative 0 minExponent
    else if 0 ≤ power then roundRatio negative (digits * tenTo power.toNat) 1
    else roundRatio negative digits (tenTo (-power).toNat)

def ratio? : Binary64 → Option (Int × Nat)
  | .finite negative m e =>
    let n : Int := if 0 ≤ e then m * twoTo e.toNat else m
    some (if negative then -n else n, if 0 ≤ e then 1 else twoTo (-e).toNat)
  | _ => none

def ofRatio (num : Int) (den : Nat) : Binary64 := roundRatio (num < 0) num.natAbs den

def ofInt (n : Int) : Binary64 := ofRatio n 1

/-- The rounded sum of two finite numbers; anything else gives no number. -/
def add (x y : Binary64) : Binary64 :=
  match x.ratio?, y.ratio? with
  | some (a, b), some (c, d) => ofRatio (a * d + c * b) (b * d)
  | _, _ => .nan

/-- The rounded product of two finite numbers; anything else gives no number. -/
def mul (x y : Binary64) : Binary64 :=
  match x.ratio?, y.ratio? with
  | some (a, b), some (c, d) => ofRatio (a * c) (b * d)
  | _, _ => .nan

/-- The integer part of a finite number, toward zero. -/
def truncate : Binary64 → Int := fun x =>
  match x.ratio? with
  | some (a, b) => Int.tdiv a b
  | none => 0

def isBelow (x : Binary64) (n : Int) : Bool :=
  match x.ratio? with
  | some (a, b) => a < n * b
  | none => x = .infinity true

def isZero : Binary64 → Bool
  | .finite _ m _ => m == 0
  | _ => false

end Binary64

end Decompilation.Decimal
