/-!
# Unsigned decimal numbers below a bound

A number is at most one `+` and then at least one ASCII digit; any number of zeros may lead. The
fault of a text that is no such number is its leftmost one: a digit that brings the value to the
bound is a fault of its own, and so is a character that is no digit.
-/

namespace Rollcall.Decimal

inductive Fault where
  | empty
  | invalidDigit
  | overflow
deriving DecidableEq, Repr

def Fault.message : Fault → String
  | .empty => "cannot parse integer from empty string"
  | .invalidDigit => "invalid digit found in string"
  | .overflow => "number too large to fit in target type"

def digit? (c : Char) : Option Nat :=
  if '0' ≤ c ∧ c ≤ '9' then some (c.toNat - 48) else none

def readFrom (bound : Nat) : Nat → List Char → Except Fault Nat
  | acc, [] => .ok acc
  | acc, c :: cs =>
    match digit? c with
    | none => .error .invalidDigit
    | some d => if 10 * acc + d < bound then readFrom bound (10 * acc + d) cs else .error .overflow

def readChars (bound : Nat) : List Char → Except Fault Nat
  | [] => .error .empty
  | '+' :: [] => .error .invalidDigit
  | '+' :: cs => readFrom bound 0 cs
  | cs => readFrom bound 0 cs

def read (bound : Nat) (s : String) : Except Fault Nat := readChars bound s.toList

def readWord (s : String) : Except Fault UInt64 := (read 0x10000000000000000 s).map UInt64.ofNat

end Rollcall.Decimal
