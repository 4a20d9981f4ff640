import Rollcall.Failure

/-!
# Limits

What bounds the requests of one hub: how many unread members a channel holds, how long a nonce is,
how long a plain call may take, and how many users one request may name.
-/

namespace Rollcall

structure Limits where
  capacity : UInt64 := 256
  nonceLength : UInt64 := 32
  timeout : Option Duration := none
  idsPerRequest : UInt64 := 100
deriving DecidableEq, Repr

namespace Limits

def leastNonceLength : Nat := 8
def greatestNonceLength : Nat := 32

def greatestCapacity : Nat := 0x1fffffffffffffff

/-- The first reason for which the limits are refused, the capacity coming first. -/
def refusal? (l : Limits) : Option String :=
  if l.capacity = 0 then some "sink_capacity must be greater than 0"
  else if l.nonceLength.toNat < leastNonceLength ∨ greatestNonceLength < l.nonceLength.toNat then
    some ("nonce_len must be within " ++ toString leastNonceLength ++ "..=" ++
      toString greatestNonceLength ++ ", got " ++ toString l.nonceLength.toNat)
  else none

def check (l : Limits) : Except Failure Unit :=
  match l.refusal? with
  | some reason => .error (.invalidRequest reason)
  | none => .ok ()

open Text in
def outline (l : Limits) : Outline :=
  .record "ChunkingConfig"
    [("sink_capacity", .atom (toString l.capacity.toNat)),
      ("nonce_len", .atom (toString l.nonceLength.toNat)),
      ("request_timeout", .ofOption (fun d => .atom d.text) l.timeout),
      ("max_user_ids", .atom (toString l.idsPerRequest.toNat))] true

end Limits
end Rollcall
