import Rollcall.Decimal
import Rollcall.Text.Outline

/-!
# Snowflakes

The ids of guilds and users are 64-bit words: 42 bits of milliseconds since the gateway's epoch,
then 10 bits for the machine that made the id and 12 bits of a sequence number.
-/

namespace Rollcall

inductive IdKind where
  | guild
  | user
deriving DecidableEq, Repr

def IdKind.name : IdKind → String
  | .guild => "GuildId"
  | .user => "UserId"

@[ext]
structure Snowflake (kind : IdKind) where
  bits : UInt64
deriving DecidableEq, Repr

abbrev GuildId := Snowflake .guild
abbrev UserId := Snowflake .user

namespace Snowflake

variable {kind : IdKind}

instance : Inhabited (Snowflake kind) := ⟨⟨0⟩⟩

instance : Ord (Snowflake kind) := ⟨fun a b => compare a.bits b.bits⟩

theorem compare_def (a b : Snowflake kind) : compare a b = compare a.bits b.bits := rfl

instance : Std.TransOrd (Snowflake kind) where
  eq_swap {a b} := by simpa only [compare_def] using Std.OrientedCmp.eq_swap
  isLE_trans {a b c} := by simpa only [compare_def] using Std.TransCmp.isLE_trans

instance : Std.LawfulEqOrd (Snowflake kind) where
  eq_of_compare {a b} h := by
    rw [compare_def] at h
    exact Snowflake.ext (Std.LawfulEqCmp.eq_of_compare h)

/-- The gateway's epoch, in milliseconds since the first of January 1970. -/
def epochMillis : Nat := 1420070400000

/-- The id with the given parts. Bits of a part that have no place in the id are dropped. -/
def ofParts (timestamp machine sequence : UInt64) : Snowflake kind :=
  ⟨(timestamp <<< 22) ||| ((machine &&& 0x3ff) <<< 12) ||| (sequence &&& 0xfff)⟩

def timestamp (id : Snowflake kind) : UInt64 := id.bits >>> 22

def machine (id : Snowflake kind) : UInt64 := (id.bits >>> 12) &&& 0x3ff

def sequence (id : Snowflake kind) : UInt64 := id.bits &&& 0xfff

/-- When the id was made, in milliseconds since the first of January 1970. -/
def createdAtMillis (id : Snowflake kind) : Nat := epochMillis + id.timestamp.toNat

/-- Which of `count` shards has the id; the first one if there are none. -/
def shardIndex (id : Snowflake kind) (count : UInt64) : UInt64 :=
  if count = 0 then 0 else id.timestamp % count

def digits (id : Snowflake kind) : String := toString id.bits.toNat

def label (id : Snowflake kind) : String := kind.name ++ "(" ++ id.digits ++ ")"

/-- The digits set right, set left and filled up with zeros, each in 24 places. -/
def padded (id : Snowflake kind) : String :=
  let ds := id.digits.toList
  let fill (c : Char) := List.replicate (24 - ds.length) c
  String.ofList (['['] ++ fill ' ' ++ ds ++ [']', '['] ++ ds ++ fill ' ' ++ [']', '['] ++
    fill '0' ++ ds ++ [']'])

def sort (ids : List (Snowflake kind)) : List (Snowflake kind) :=
  ids.mergeSort fun a b => (compare a b).isLE

def listOutline (ids : List (Snowflake kind)) : Text.Outline :=
  .sequence (ids.map fun i => .atom i.label)

def read (s : String) : Except Decimal.Fault (Snowflake kind) := (Decimal.readWord s).map (⟨·⟩)

end Snowflake
end Rollcall
