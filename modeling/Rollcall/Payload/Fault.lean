import Rollcall.Decimal
import Rollcall.Json
import Rollcall.Snowflake
import Rollcall.Text.Quoted

/-!
# Faults of a payload

What can be wrong with a JSON value that should hold a record. The text of a fault names neither
place nor field of an enclosing record.
-/

namespace Rollcall.Payload

inductive Found where
  | null
  | boolean (b : Bool)
  | number (n : Number)
  | string (s : String)
  | sequence
  | map
deriving DecidableEq, Repr

inductive Expected where
  | id
  | word32
  | word64
  | boolean
  | string
  | sequence
  | record (name : String)
deriving DecidableEq, Repr

inductive Fault where
  | missingField (name : String)
  | wrongType (found : Found) (expected : Expected)
  -- a whole number that the expected type does not hold
  | outOfRange (n : Number) (expected : Expected)
  | negativeId (kind : IdKind) (n : UInt64)
  | unreadableId (kind : IdKind) (text : String) (cause : Decimal.Fault)
  -- an array that ends where a field without a default is due
  | tooShort (length : Nat) (record : String) (fields : Nat)
  | tooLong (length : Nat)
deriving DecidableEq, Repr

def foundIn : Json → Found
  | .null => .null
  | .bool b => .boolean b
  | .number n => .number n
  | .string s => .string s
  | .array _ => .sequence
  | .object _ => .map

private def ticked (s : String) : String := "`" ++ s ++ "`"

def numberText : Number → String
  | .unsigned n => "integer " ++ ticked (toString n.toNat)
  | .negative n => "integer " ++ ticked ("-" ++ toString n.toNat)
  | .float x => "floating point " ++ ticked x.text

def Found.text : Found → String
  | null => "null"
  | boolean b => "boolean " ++ ticked (if b then "true" else "false")
  | number n => numberText n
  | string s => "string " ++ Text.quoted s
  | sequence => "sequence"
  | map => "map"

def Expected.text : Expected → String
  | id => "a snowflake as a decimal string or integer"
  | word32 => "u32"
  | word64 => "u64"
  | boolean => "a boolean"
  | string => "a string"
  | sequence => "a sequence"
  | record name => "struct " ++ name

def Fault.message : Fault → String
  | missingField name => "missing field " ++ ticked name
  | wrongType found expected => "invalid type: " ++ found.text ++ ", expected " ++ expected.text
  | outOfRange n expected => "invalid value: " ++ numberText n ++ ", expected " ++ expected.text
  | negativeId kind n => "negative " ++ kind.name ++ ": -" ++ toString n.toNat
  | unreadableId kind text cause =>
    "invalid " ++ kind.name ++ " " ++ Text.quoted text ++ ": " ++ cause.message
  | tooShort length record fields =>
    "invalid length " ++ toString length ++ ", expected struct " ++ record ++ " with " ++
      toString fields ++ " elements"
  | tooLong length => "invalid length " ++ toString length ++ ", expected fewer elements in array"

end Rollcall.Payload
