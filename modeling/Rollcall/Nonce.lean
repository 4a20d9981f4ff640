import Rollcall.Text.Outline

/-!
# Nonces

A source hands out candidates one after the other, for ever. A nonce is the first candidate that is
not taken, out of at most `attempts` of them.
-/

namespace Rollcall

/-- The candidates of a source, and how many of them have been handed out. -/
structure NonceSource where
  draw : Nat → String
  used : Nat := 0

namespace NonceSource

def next (s : NonceSource) : String × NonceSource := (s.draw s.used, { s with used := s.used + 1 })

def scripted (nonces : List String) : NonceSource :=
  { draw := fun i => nonces[i]?.getD ("auto" ++ toString (i - nonces.length)) }

/-! ## Random candidates -/

def alphabet : List Char :=
  "ABCDEFGHIJKLMNOPQRSTUVWXYZabcdefghijklmnopqrstuvwxyz0123456789".toList

/-- Scrambles a word so that neighbouring words have unlike images. -/
def scramble (x : UInt64) : UInt64 :=
  let x := (x ^^^ (x >>> 30)) * 0xbf58476d1ce4e5b9
  let x := (x ^^^ (x >>> 27)) * 0x94d049bb133111eb
  x ^^^ (x >>> 31)

def randomChar (seed : UInt64) (i j : Nat) : Char :=
  let word := scramble (scramble (seed + UInt64.ofNat i) + UInt64.ofNat j)
  alphabet.getD (word.toNat % alphabet.length) 'A'

/-- Candidates of `length` letters and digits that follow from a seed. -/
def random (seed : UInt64) (length : Nat) : NonceSource :=
  { draw := fun i => String.ofList ((List.range length).map (randomChar seed i)) }

def randomOutline (length : Nat) : Text.Outline :=
  .record "ThreadNonce" [("len", .atom (toString length))] true

/-! ## Choosing -/

/-- How many candidates are looked at for one nonce. -/
def attempts : Nat := 16

/-- The first of the next `n` candidates that is not taken. All candidates up to it are used up. -/
def firstFree (taken : String → Bool) : Nat → NonceSource → Option String × NonceSource
  | 0, s => (none, s)
  | n + 1, s =>
    if taken s.next.1 then firstFree taken n s.next.2 else (some s.next.1, s.next.2)

end NonceSource
end Rollcall
