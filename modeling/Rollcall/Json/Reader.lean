import Rollcall.Json

/-!
# Reading JSON text

A reader takes the characters that are left and returns a value with the rest, or nothing if the
text is no JSON. The nesting and repetition of values is bounded by a budget, for which the number
of characters is enough, since every step takes one.
-/

namespace Rollcall.Json

def isBlank (c : Char) : Bool := c = ' ' || c = '\n' || c = '\t' || c = '\r'

def skipBlanks (cs : List Char) : List Char := cs.dropWhile isBlank

def digitValue (c : Char) : Nat := c.toNat - 48

/-! ## Numbers -/

/-- The leading digits of a literal as far as they fit 64 bits, with the power of ten that stands
for the rest. -/
structure Literal where
  significand : Nat
  exponent : Int

/-- Takes the digits before the point. From the first digit that does not fit, all only raise the
exponent. -/
def Literal.whole (l : Literal) : List Char → Literal
  | [] => l
  | d :: ds =>
    let n := 10 * l.significand + digitValue d
    if n < 0x10000000000000000 then Literal.whole ⟨n, l.exponent⟩ ds
    else ⟨l.significand, l.exponent + (ds.length + 1)⟩

/-- Takes the digits after the point, up to the first that does not fit. -/
def Literal.places (l : Literal) : List Char → Literal
  | [] => l
  | d :: ds =>
    let n := 10 * l.significand + digitValue d
    if n < 0x10000000000000000 then Literal.places ⟨n, l.exponent - 1⟩ ds else l

def decimalValue (ds : List Char) : Nat := ds.foldl (fun n d => 10 * n + digitValue d) 0

/-- The number written with the given sign, digits before the point, digits after it if there is a
point, and exponent if there is one. -/
def numberOf? (negative : Bool) (whole : List Char) (places : Option (List Char))
    (exponent : Option Int) : Option Number :=
  let n := decimalValue whole
  if places.isNone && exponent.isNone && !negative && n < 0x10000000000000000 then
    some (.unsigned (UInt64.ofNat n))
  else if places.isNone && exponent.isNone && negative && 0 < n && n ≤ 0x8000000000000000 then
    some (.negative (UInt64.ofNat n))
  else
    let l := (Literal.whole ⟨0, 0⟩ whole).places (places.getD [])
    (Binary64.ofDecimal? negative l.significand (l.exponent + exponent.getD 0)).map .float

/-- An optional exponent; `none` if an `e` is followed by no digit. -/
def readExponent (cs : List Char) : Option (Option Int × List Char) :=
  match cs with
  | c :: rest =>
    if c = 'e' || c = 'E' then
      let (negative, rest) := match rest with
        | '-' :: r => (true, r)
        | '+' :: r => (false, r)
        | r => (false, r)
      let ds := rest.takeWhile Char.isDigit
      if ds.isEmpty then none
      else
        let n : Int := decimalValue ds
        some (some (if negative then -n else n), rest.dropWhile Char.isDigit)
    else some (none, cs)
  | [] => some (none, cs)

/-- Optional digits after a point; `none` if the point is followed by no digit. -/
def readPlaces (cs : List Char) : Option (Option (List Char) × List Char) :=
  match cs with
  | '.' :: rest =>
    let ds := rest.takeWhile Char.isDigit
    if ds.isEmpty then none else some (some ds, rest.dropWhile Char.isDigit)
  | _ => some (none, cs)

def readNumber (cs : List Char) : Option (Number × List Char) := do
  let (negative, cs) := match cs with
    | '-' :: r => (true, r)
    | r => (false, r)
  let whole := cs.takeWhile Char.isDigit
  match whole with
  | [] => none
  | '0' :: _ :: _ => none
  | _ =>
    let (places, rest) ← readPlaces (cs.dropWhile Char.isDigit)
    let (exponent, rest) ← readExponent rest
    let n ← numberOf? negative whole places exponent
    return (n, rest)

/-! ## Strings -/

def hexValue? (c : Char) : Option Nat :=
  if '0' ≤ c ∧ c ≤ '9' then some (c.toNat - 48)
  else if 'a' ≤ c ∧ c ≤ 'f' then some (c.toNat - 87)
  else if 'A' ≤ c ∧ c ≤ 'F' then some (c.toNat - 55)
  else none

def readUnit : List Char → Option (Nat × List Char)
  | a :: b :: c :: d :: rest => do
    let n := ((← hexValue? a) * 16 + (← hexValue? b)) * 256 + (← hexValue? c) * 16 + (← hexValue? d)
    return (n, rest)
  | _ => none

/-- A character from one code unit, or from two that make a surrogate pair. -/
def readUnits (cs : List Char) : Option (Char × List Char) := do
  let (high, rest) ← readUnit cs
  if 0xD800 ≤ high ∧ high < 0xDC00 then
    match rest with
    | '\\' :: 'u' :: rest =>
      let (low, rest) ← readUnit rest
      if 0xDC00 ≤ low ∧ low < 0xE000 then
        return (Char.ofNat (0x10000 + (high - 0xD800) * 0x400 + (low - 0xDC00)), rest)
      else none
    | _ => none
  else if 0xDC00 ≤ high ∧ high < 0xE000 then none
  else return (Char.ofNat high, rest)

def escaped? : Char → Option Char
  | '"' => some '"'
  | '\\' => some '\\'
  | '/' => some '/'
  | 'b' => some '\x08'
  | 'f' => some '\x0c'
  | 'n' => some '\n'
  | 'r' => some '\r'
  | 't' => some '\t'
  | _ => none

def readString : Nat → List Char → List Char → Option (String × List Char)
  | 0, _, _ => none
  | _ + 1, _, [] => none
  | _ + 1, acc, '"' :: rest => some (String.ofList acc.reverse, rest)
  | fuel + 1, acc, '\\' :: 'u' :: rest =>
    match readUnits rest with
    | some (c, rest) => readString fuel (c :: acc) rest
    | none => none
  | fuel + 1, acc, '\\' :: c :: rest =>
    match escaped? c with
    | some c => readString fuel (c :: acc) rest
    | none => none
  | fuel + 1, acc, c :: rest =>
    if c.toNat < 0x20 || c = '\\' then none else readString fuel (c :: acc) rest

/-! ## Values -/

mutual

def readValue : Nat → List Char → Option (Json × List Char)
  | 0, _ => none
  | fuel + 1, cs =>
    match skipBlanks cs with
    | 'n' :: 'u' :: 'l' :: 'l' :: rest => some (.null, rest)
    | 't' :: 'r' :: 'u' :: 'e' :: rest => some (.bool true, rest)
    | 'f' :: 'a' :: 'l' :: 's' :: 'e' :: rest => some (.bool false, rest)
    | '"' :: rest => (readString fuel [] rest).map fun (s, rest) => (.string s, rest)
    | '[' :: rest =>
      match skipBlanks rest with
      | ']' :: rest => some (.array [], rest)
      | rest => readItems fuel [] rest
    | '\x7b' :: rest =>
      match skipBlanks rest with
      | '\x7d' :: rest => some (.object [], rest)
      | rest => readFields fuel [] rest
    | rest => (readNumber rest).map fun (n, rest) => (.number n, rest)

def readItems : Nat → List Json → List Char → Option (Json × List Char)
  | 0, _, _ => none
  | fuel + 1, acc, cs =>
    match readValue fuel cs with
    | none => none
    | some (v, rest) =>
      match skipBlanks rest with
      | ',' :: rest => readItems fuel (v :: acc) rest
      | ']' :: rest => some (.array (v :: acc).reverse, rest)
      | _ => none

def readFields : Nat → List (String × Json) → List Char → Option (Json × List Char)
  | 0, _, _ => none
  | fuel + 1, acc, cs =>
    match skipBlanks cs with
    | '"' :: rest =>
      match readString fuel [] rest with
      | none => none
      | some (key, rest) =>
        match skipBlanks rest with
        | ':' :: rest =>
          match readValue fuel rest with
          | none => none
          | some (v, rest) =>
            match skipBlanks rest with
            | ',' :: rest => readFields fuel (insertField key v acc) rest
            | '\x7d' :: rest => some (.object (insertField key v acc), rest)
            | _ => none
        | _ => none
    | _ => none

end

/-- The value written in a text, if the text is one JSON value between blanks. -/
def read? (s : String) : Option Json :=
  let cs := s.toList
  match readValue (2 * cs.length + 2) cs with
  | some (v, rest) => if (skipBlanks rest).isEmpty then some v else none
  | none => none

end Rollcall.Json
