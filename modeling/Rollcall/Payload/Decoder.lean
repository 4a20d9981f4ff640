import Rollcall.Payload.Fault

/-!
# Decoding the parts of a record

A record is written as an object or as an array of its fields. The keys of an object are visited in
ascending order, whatever is unknown is passed over, and only then a field is found missing. An
array may end before fields that have a default.
-/

namespace Rollcall.Payload

abbrev Decoder (α : Type) := Json → Except Fault α

def wrong (v : Json) (expected : Expected) : Except Fault α :=
  .error (.wrongType (foundIn v) expected)

def decodeBool : Decoder Bool
  | .bool b => .ok b
  | v => wrong v .boolean

def decodeString : Decoder String
  | .string s => .ok s
  | v => wrong v .string

def decodeWord32 : Decoder UInt32
  | .number (.unsigned n) =>
    if n.toNat < 0x100000000 then .ok n.toUInt32 else .error (.outOfRange (.unsigned n) .word32)
  | .number (.negative n) => .error (.outOfRange (.negative n) .word32)
  | v => wrong v .word32

def decodeWord64 : Decoder UInt64
  | .number (.unsigned n) => .ok n
  | .number (.negative n) => .error (.outOfRange (.negative n) .word64)
  | v => wrong v .word64

def decodeId (kind : IdKind) : Decoder (Snowflake kind)
  | .number (.unsigned n) => .ok ⟨n⟩
  | .number (.negative n) => .error (.negativeId kind n)
  | .string s =>
    match Snowflake.read s with
    | .ok id => .ok id
    | .error cause => .error (.unreadableId kind s cause)
  | v => wrong v .id

def decodeItems (decode : Decoder α) : List Json → Except Fault (List α)
  | [] => .ok []
  | v :: vs =>
    match decode v with
    | .error f => .error f
    | .ok a =>
      match decodeItems decode vs with
      | .error f => .error f
      | .ok as => .ok (a :: as)

def decodeList (decode : Decoder α) : Decoder (List α)
  | .array items => decodeItems decode items
  | v => wrong v .sequence

/-- `null` stands for no value. -/
def decodeOption (decode : Decoder α) : Decoder (Option α)
  | .null => .ok none
  | v => (decode v).map some

/-! ## Fields -/

def decodeIfPresent (decode : Decoder α) : Option Json → Except Fault (Option α)
  | none => .ok none
  | some v => (decode v).map some

def ofKey (fields : List (String × Json)) (key : String) (decode : Decoder α) :
    Except Fault (Option α) :=
  decodeIfPresent decode (Json.field? key fields)

def ofPlace (items : List Json) (i : Nat) (decode : Decoder α) : Except Fault (Option α) :=
  decodeIfPresent decode items[i]?

def orElse (fault : Fault) : Option α → Except Fault α
  | some a => .ok a
  | none => .error fault

def atMost (n : Nat) (items : List Json) : Except Fault Unit :=
  if n < items.length then .error (.tooLong items.length) else .ok ()

/-! ## Writing -/

def ofId (id : Snowflake kind) : Json := .string id.digits

def ofWord32 (n : UInt32) : Json := .number (.unsigned n.toUInt64)

def ofWord64 (n : UInt64) : Json := .number (.unsigned n)

/-- The entry of an optional field: none when there is no value. -/
def entryOf (key : String) (encode : α → Json) : Option α → List (String × Json)
  | none => []
  | some a => [(key, encode a)]

end Rollcall.Payload
