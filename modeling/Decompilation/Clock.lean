/-!
# Points in time

A point in time by the calendar, and the text in which reports give it.
-/

namespace Decompilation

/-- A point in universal time, to the microsecond. -/
structure Clock where
  year : Nat
  month : Nat
  day : Nat
  hour : Nat
  minute : Nat
  second : Nat
  microsecond : Nat
  deriving DecidableEq, Repr

def padded (width n : Nat) : String :=
  let ds := Nat.toDigits 10 n
  String.ofList (List.replicate (width - ds.length) '0' ++ ds)

/-- The text of a point in time; the fraction is left out when it is zero. -/
def Clock.text (c : Clock) : String :=
  padded 4 c.year ++ "-" ++ padded 2 c.month ++ "-" ++ padded 2 c.day ++ "T" ++ padded 2 c.hour ++
    ":" ++ padded 2 c.minute ++ ":" ++ padded 2 c.second ++
    (if c.microsecond = 0 then "" else "." ++ padded 6 c.microsecond) ++ "+00:00"

end Decompilation
