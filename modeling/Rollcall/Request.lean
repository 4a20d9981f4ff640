import Rollcall.Channel

/-!
# Requests

A request has been asked for under a nonce and waits for its chunks. Chunks are handed to it one at
a time: whoever hands one over first waits in line. The last declared chunk completes it.
-/

namespace Rollcall

/-- Tasks are numbered as they are started. -/
abbrev TaskId := Nat

structure Request where
  nonce : String
  guild : GuildId
  filter : Option (Member → Bool) := none
  channel : Channel
  cancelled : Bool := false
  complete : Bool := false
  -- whether members can still be placed in the channel
  senderOpen : Bool := true
  chunks : UInt32 := 0
  -- who hands a chunk over, and then who waits to do so, in order of arrival
  line : List TaskId := []

inductive Reading where
  | member (m : Member)
  | ended
  | pending
deriving DecidableEq, Repr

def nextWord (n : UInt32) : UInt32 := if n = 0xffffffff then n else n + 1

def passes (filter : Option (Member → Bool)) (m : Member) : Bool :=
  match filter with
  | none => true
  | some keep => keep m

namespace Request

def accepts (r : Request) (m : Member) : Bool := passes r.filter m

/-- Cancels the request. While a chunk is being handed over the sender is left to whoever does so.
-/
def close (r : Request) : Request :=
  { r with cancelled := true, senderOpen := r.senderOpen && !r.line.isEmpty }

/-- What a reader finds now. A cancelled request gives out nothing, even if members are left. -/
def reading (r : Request) : Reading :=
  if r.cancelled then .ended
  else match r.channel.unread with
    | m :: _ => .member m
    | [] => if r.senderOpen && r.channel.isListening then .pending else .ended

def afterReading (r : Request) : Request :=
  if r.cancelled then r else { r with channel := r.channel.take }

def place (r : Request) (m : Member) : Request := { r with channel := r.channel.place m }

def join (r : Request) (t : TaskId) : Request := { r with line := r.line ++ [t] }

def leave (r : Request) (t : TaskId) : Request := { r with line := r.line.erase t }

/-- Whether one more chunk, which declares `declared` of them, is the last. -/
def completesAt (r : Request) (declared : UInt32) : Bool := declared ≤ nextWord r.chunks

/-- The request after a chunk has been consumed to its end. -/
def countChunk (r : Request) (declared : UInt32) : Request :=
  if r.completesAt declared then
    { r with complete := true, senderOpen := false, chunks := nextWord r.chunks }
  else { r with chunks := nextWord r.chunks }

def closeSender (r : Request) : Request := { r with senderOpen := false }

def dropReceiver (r : Request) : Request := { r with channel := r.channel.drop }

def closeReceiver (r : Request) : Request := { r with channel := r.channel.close }

open Text in
def outline (r : Request) : Outline :=
  .record "PendingRequest"
    [("nonce", stringOutline r.nonce), ("guild_id", .atom r.guild.label),
      ("filtered", .atom (boolText r.filter.isSome)),
      ("cancelled", .atom (boolText r.cancelled))] false

end Request
end Rollcall
