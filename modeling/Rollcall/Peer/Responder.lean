import Rollcall.Duration
import Rollcall.Peer.Reply

/-!
# Responders

A peer answers the frames of one shard in turn. The chunks of a reply are a delay apart, but never
more than thirty years; the next reply follows at once. `Peer.schedule` tells when each chunk goes
out if nothing holds it up, and a `Responder` gives the chunks out one by one.
-/

namespace Rollcall

/-- How frames are answered: from which rosters, in how large chunks, and how far apart these are.
-/
structure Peer where
  rosters : List Roster
  chunkSize : Nat
  delay : Duration

namespace Peer

variable (p : Peer)

/-- The longest time that a responder waits between two chunks: thirty years of 365 days. -/
def longestPause : Duration := .ofMillis 946080000000

def pause : Duration := ⟨min p.delay.nanos longestPause.nanos⟩

def roster? (guild : GuildId) : Option Roster := p.rosters.find? fun r => r.guild = guild

/-- The reply to a frame: nothing if it holds no command that can be decoded, or if there is no such
guild. -/
def answer (frame : Json) : List Chunk :=
  match MemberCommand.ofFrame frame with
  | .ok (some c) => (p.roster? c.guild).elim [] fun r => c.reply p.chunkSize (r.select c)
  | _ => []

/-- When the chunks go out that answer the frames, from a time on. -/
def schedule (start : Duration) : List Json → List (Duration × Chunk)
  | [] => []
  | frame :: frames =>
    let reply := p.answer frame
    let after (n : Nat) : Duration := ⟨start.nanos + n * p.pause.nanos⟩
    reply.mapIdx (fun i c => (after i, c)) ++ schedule (after (reply.length - 1)) frames

def lastTime (s : List (Duration × Chunk)) : Duration := s.getLast?.elim ⟨0⟩ (·.1)

/-- The first reply that has a chunk, and the frames after it. -/
def nextReply : List Json → List Chunk × List Json
  | [] => ([], [])
  | frame :: frames =>
    let reply := p.answer frame
    if reply.isEmpty then nextReply frames else (reply, frames)

end Peer

structure Responder where
  -- the frames that have not been looked at, the earliest first
  frames : List Json := []
  -- what is left of the reply at hand
  reply : List Chunk := []
  -- when the next chunk of the reply may go out
  due : Duration := ⟨0⟩

namespace Responder

def take (r : Responder) (frame : Json) : Responder := { r with frames := r.frames ++ [frame] }

def ready (p : Peer) (r : Responder) : Responder :=
  if r.reply.isEmpty then
    let (reply, frames) := p.nextReply r.frames
    { r with reply, frames }
  else r

def nextDue (r : Responder) : Option Duration := if r.reply.isEmpty then none else some r.due

def emit (p : Peer) (now : Duration) (r : Responder) : Option Chunk × Responder :=
  let r := r.ready p
  match r.reply with
  | [] => (none, r)
  | c :: rest =>
    if now.nanos < r.due.nanos then (none, r)
    else
      let due := if rest.isEmpty then r.due else ⟨now.nanos + p.pause.nanos⟩
      (some c, { r with reply := rest, due })

end Responder
end Rollcall
