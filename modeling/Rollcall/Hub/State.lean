import Rollcall.Delivery
import Rollcall.GuildSelection
import Rollcall.Inquiry
import Rollcall.Payload.Event
import Rollcall.Shard

/-!
# The hub and its tasks

The hub makes requests, hands their commands to shards, takes events in and gives members out. It
holds the book of requests and all tasks that are under way. A task is kept as the place where it
waits.
-/

namespace Rollcall

/-- A token that callers share to cancel their calls, known by its name. -/
abbrev Token := String

/-! ## Tasks -/

/-- What a call gives back: the stream of its request, or all members it yields. A call for members
may watch a token. -/
inductive Call.Goal where
  | stream
  | members (token : Option Token)
deriving DecidableEq, Repr

inductive Call.Stage where
  | starting
  -- the command is with the shard, which may have let it go by now
  | sending (stream : RequestId) (result : Option SendResult)
  -- members are gathered, the latest first
  | reading (stream : RequestId) (got : List Member)
deriving Repr

/-- A span after which a call ends, and the time at which it is over. -/
structure Deadline where
  after : Duration
  due : Duration
deriving DecidableEq, Repr

structure Call where
  inquiry : Inquiry
  goal : Call.Goal
  -- the span that the call may take, from its first segment on
  timeout : Option Duration := none
  deadline : Option Deadline := none
  stage : Call.Stage := .starting

/-- A call that begins now. -/
def Call.timed (c : Call) (now : Duration) : Call :=
  { c with deadline := c.timeout.map fun after => ⟨after, ⟨now.nanos + after.nanos⟩⟩ }

@[simp] theorem Call.timed_inquiry (c : Call) (now : Duration) :
    (c.timed now).inquiry = c.inquiry := rfl

@[simp] theorem Call.timed_goal (c : Call) (now : Duration) : (c.timed now).goal = c.goal := rfl

@[simp] theorem Call.timed_stage (c : Call) (now : Duration) : (c.timed now).stage = c.stage := rfl

inductive ReadGoal where
  | all
  | upTo (n : Nat)
  | one
deriving DecidableEq, Repr

inductive Task where
  | call (c : Call)
  | reader (stream : RequestId) (goal : ReadGoal) (got : List Member)
  | handler (e : Event)
  | delivering (d : Delivery)
  | loop (index : Nat) (current : Option Delivery)

inductive Outcome where
  | members (ms : List Member)
  | failed (f : Failure)
  -- a stream and the nonce of its request
  | stream (id : RequestId) (nonce : String)
  -- the channel would have more places than a channel can have
  | oversized
  | gathered (ms : List Member)
  | received (m : Option Member) (cancelled : Bool)
  | handled
  | stopped
deriving DecidableEq, Repr

/-! ## The hub -/

/-- What became of the chunks: those taken in, those that nobody waited for, members placed and
rejected, users not found, requests completed. -/
structure Stats where
  chunks : UInt64 := 0
  unmatched : UInt64 := 0
  forwarded : UInt64 := 0
  filtered : UInt64 := 0
  notFound : UInt64 := 0
  completed : UInt64 := 0
deriving DecidableEq, Repr

structure EventLoop where
  queue : List Event := []
  feeding : Bool := true
  stopping : Bool := false
  running : Bool := true
deriving Repr

structure Hub where
  limits : Limits
  selection : GuildSelection := .nothing
  shards : Array Shard
  caching : Bool := true
  book : Book
  stats : Stats := {}
  loops : Array EventLoop := #[]
  cancelledTokens : List Token := []
  now : Duration := ⟨0⟩
  -- the tasks by number; nothing where a task has ended
  tasks : Array (Option Task) := #[]
  -- the tasks that ended by themselves, in order
  finished : Array (TaskId × Outcome) := #[]
  sent : Array (UInt32 × MemberCommand) := #[]
  streams : List RequestId := []

namespace Hub

def create (limits : Limits) (selection : GuildSelection) (shards : List Shard) (caching : Bool)
    (nonces : NonceSource) : Except Failure Hub :=
  (limits.check).map fun _ =>
    { limits, selection, shards := shards.toArray, caching, book := { nonces } }

def pending (h : Hub) : Nat := h.book.registry.size

def isPending (h : Hub) (nonce : String) : Bool := h.book.registry.contains nonce

def task? (h : Hub) (t : TaskId) : Option Task := (h.tasks[t]?).join

def unfinished (h : Hub) : List TaskId :=
  (List.range h.tasks.size).filter fun t => (h.task? t).isSome

def spawn (h : Hub) (task : Task) : TaskId × Hub :=
  (h.tasks.size, { h with tasks := h.tasks.push (some task) })

def setTask (h : Hub) (t : TaskId) (task : Option Task) : Hub :=
  { h with tasks := h.tasks.setIfInBounds t task }

/-! ## Outlines -/

open Text

def statsOutline (s : Stats) : Outline :=
  let count (n : UInt64) : Outline := .atom (toString n.toNat)
  .record "DispatchStats"
    [("chunks", count s.chunks), ("unmatched", count s.unmatched),
      ("forwarded", count s.forwarded), ("filtered", count s.filtered),
      ("not_found", count s.notFound), ("completed", count s.completed)] true

def outline (h : Hub) : Outline :=
  .record "MemberChunkingManager"
    [("registry", h.book.registry.outline), ("config", h.limits.outline),
      ("chunking_filter", h.selection.outline)] false

def intakeOutline (h : Hub) : Outline :=
  .record "ChunkDispatcher"
    [("registry", h.book.registry.outline), ("stats", statsOutline h.stats)] false

end Hub
end Rollcall
