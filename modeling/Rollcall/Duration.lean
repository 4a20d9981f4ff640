/-!
# Spans of time

A span is a count of nanoseconds. Its text is in the largest unit of which it holds at least one,
as an exact decimal without trailing zeros.
-/

namespace Rollcall

structure Duration where
  nanos : Nat
deriving DecidableEq, Repr

namespace Duration

def ofMillis (n : Nat) : Duration := ⟨n * 1000000⟩

def isZero (d : Duration) : Bool := d.nanos = 0

/-- `rest / 10 ^ places` as decimal places, without trailing zeros. -/
def fraction (rest places : Nat) : String :=
  let digits := (toString rest).toList
  let padded := List.replicate (places - digits.length) '0' ++ digits
  let kept := (padded.reverse.dropWhile (· = '0')).reverse
  if kept.isEmpty then "" else "." ++ String.ofList kept

/-- A count of the smallest unit, shown in a unit of `10 ^ places` of them. -/
def inUnit (n places : Nat) (unit : String) : String :=
  toString (n / Nat.pow 10 places) ++ fraction (n % Nat.pow 10 places) places ++ unit

def text (d : Duration) : String :=
  if 1000000000 ≤ d.nanos then inUnit d.nanos 9 "s"
  else if 1000000 ≤ d.nanos then inUnit d.nanos 6 "ms"
  else if 1000 ≤ d.nanos then inUnit d.nanos 3 "µs"
  else inUnit d.nanos 0 "ns"

end Duration
end Rollcall
