import Rollcall.Payload.Event
import Rollcall.Peer.Roster

/-!
# Replies

A reply holds the members that a command selects, cut into chunks. The number of chunks is told
beforehand, since every chunk declares it; the members are then taken batch by batch.
-/

namespace Rollcall

/-- How many chunks of `size` it takes for so many members: one at least. -/
def chunkCount (size length : Nat) : Nat := max 1 ((length + size - 1) / size)

/-- Takes `size` from a list for `count` times, or less where the list ends. -/
def batches {α : Type} (size : Nat) : (count : Nat) → List α → List (List α)
  | 0, _ => []
  | count + 1, xs => xs.take size :: batches size count (xs.drop size)

namespace MemberCommand

/-- One of `count` chunks of the reply to a command; the last one tells what was not found. -/
def chunk (c : MemberCommand) (notFound : List UserId) (count : Nat) (members : List Member)
    (index : Nat) : Chunk :=
  { guild := c.guild, members, index := UInt32.ofNat index, count := UInt32.ofNat count
    notFound := if index + 1 = count then notFound else [], nonce := some c.nonce }

/-- The reply to a command, in chunks of at most `size` members, or in one if the size is 0. A reply
of more chunks than a chunk can declare is not given at all. -/
def reply (size : Nat) (c : MemberCommand) (s : Selection) : List Chunk :=
  let size := if size = 0 then s.found.length else size
  let count := chunkCount size s.found.length
  if count < 0x100000000 then
    (batches size count s.found).mapIdx fun i ms => c.chunk s.notFound count ms i
  else []

end MemberCommand
end Rollcall
