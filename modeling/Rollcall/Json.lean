import Rollcall.Binary64

/-!
# JSON values

A number keeps how it was written: a whole number that fits 64 bits without sign, a negative whole
number that fits 64 bits with sign, or anything else, which is a double. An object holds each key
once, in ascending order of the keys.
-/

namespace Rollcall

inductive Number where
  | unsigned (n : UInt64)
  | negative (n : UInt64)
  | float (x : Binary64)
deriving DecidableEq, Repr

inductive Json where
  | null
  | bool (b : Bool)
  | number (n : Number)
  | string (s : String)
  | array (items : List Json)
  | object (fields : List (String × Json))

namespace Json

def ofNat (n : Nat) : Json := .number (.unsigned (UInt64.ofNat n))

/-- Puts an entry in its place; an earlier entry of the same key is replaced. -/
def insertField (key : String) (value : Json) : List (String × Json) → List (String × Json)
  | [] => [(key, value)]
  | (k, v) :: rest =>
    if key < k then (key, value) :: (k, v) :: rest
    else if key = k then (key, value) :: rest
    else (k, v) :: insertField key value rest

/-- The object with the given entries, the last one of each key. -/
def objectOf (entries : List (String × Json)) : Json :=
  .object (entries.foldl (fun fields e => insertField e.1 e.2 fields) [])

def field? (key : String) : List (String × Json) → Option Json
  | [] => none
  | (k, v) :: rest => if k = key then some v else field? key rest

def get? (key : String) : Json → Option Json
  | .object fields => field? key fields
  | _ => none

theorem field?_insertField (key other : String) (value : Json) (fields : List (String × Json)) :
    field? other (insertField key value fields) =
      if key = other then some value else field? other fields := by
  induction fields with
  | nil => simp [insertField, field?]
  | cons e rest ih =>
    obtain ⟨k, v⟩ := e
    simp only [insertField]
    split
    · rfl
    · split <;> simp_all only [field?]
      · split <;> simp_all
      · split <;> simp_all

end Json
end Rollcall
