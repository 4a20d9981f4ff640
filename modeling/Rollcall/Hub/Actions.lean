import Rollcall.Hub.Advance

/-!
# What callers do to a hub

Each action takes effect at once; the tasks run afterwards. Streams are handed to the caller by the
calls that end with one, and are the caller's until they are dropped or given to a reader.
-/

namespace Rollcall.Hub

/-! ## Starting tasks -/

def callStream (h : Hub) (i : Inquiry) : TaskId × Hub :=
  h.spawn (.call { inquiry := i, goal := .stream })

/-- Starts a call for members that watches a token and has no deadline. -/
def collect (h : Hub) (i : Inquiry) (token : Token) : TaskId × Hub :=
  h.spawn (.call { inquiry := i, goal := .members (some token) })

/-- Starts a plain call for members, which may take the time that the limits give it. -/
def callMembers (h : Hub) (i : Inquiry) : TaskId × Hub :=
  h.spawn (.call { inquiry := i, goal := .members none, timeout := h.limits.timeout })

def dispatch (h : Hub) (e : Event) : TaskId × Hub := h.spawn (.handler e)

/-- Starts a loop with a queue of its own; gives the task and the number of the loop. -/
def run (h : Hub) : (TaskId × Nat) × Hub :=
  let index := h.loops.size
  let (t, h) := { h with loops := h.loops.push {} }.spawn (.loop index none)
  ((t, index), h)

def read (h : Hub) (id : RequestId) (goal : ReadGoal) : TaskId × Hub :=
  { h with streams := h.streams.erase id }.spawn (.reader id goal [])

/-! ## Loops -/

def canPush (h : Hub) (index : Nat) : Bool :=
  (h.loops[index]?).any fun l => l.feeding && l.running

def push (h : Hub) (index : Nat) (events : List Event) : Hub :=
  if h.canPush index then
    { h with loops := h.loops.modify index fun l => { l with queue := l.queue ++ events } }
  else h

def endLoop (h : Hub) (index : Nat) : Hub :=
  { h with loops := h.loops.modify index fun l => { l with feeding := false } }

def tellToStop (h : Hub) (index : Nat) : Hub :=
  { h with loops := h.loops.modify index fun l => { l with stopping := true } }

/-! ## Streams -/

def recv (h : Hub) (id : RequestId) : Reading × Hub :=
  let (r, book) := h.book.recv id
  (r, { h with book })

def recvAll (h : Hub) (id : RequestId) : List Member × Reading × Hub :=
  let (ms, r, book) := h.book.recvAll id
  (ms, r, { h with book })

def cancel (h : Hub) (id : RequestId) : Bool × Hub :=
  let (b, book) := h.book.cancel id
  (b, { h with book })

def isCancelled (h : Hub) (id : RequestId) : Bool := h.book.isCancelled id

def discard (h : Hub) (id : RequestId) : Hub :=
  { h with streams := h.streams.erase id }.dropStream id

/-! ## The rest -/

def cancelToken (h : Hub) (token : Token) : Hub :=
  if h.cancelledTokens.contains token then h
  else { h with cancelledTokens := token :: h.cancelledTokens }

def advanceClock (h : Hub) (d : Duration) : Hub := { h with now := ⟨h.now.nanos + d.nanos⟩ }

def shutdown (h : Hub) : Nat × Hub :=
  let (n, book) := h.book.shutdown
  (n, { h with book })

def setMode (h : Hub) (shard : Nat) (mode : SendMode) : Hub :=
  { h with shards := h.shards.modify shard fun s => { s with mode } }

/-- Lets go whoever is held by a shard in a place, of which 0 is that of the one held longest; says
whether that was still waited for. -/
def release (h : Hub) (shard place : Nat) (result : SendResult) : Bool × Hub :=
  match h.shards[shard]? with
  | none => (false, h)
  | some s =>
    match s.held[place]? with
    | none => (false, h)
    | some t =>
      let held := s.held.eraseIdx place
      let h := { h with shards := h.shards.modify shard fun s => { s with held } }
      match h.task? t with
      | some (.call c) =>
        match c.stage with
        | .sending id none =>
          (true, h.setTask t (some (.call { c with stage := .sending id (some result) })))
        | _ => (false, h)
      | _ => (false, h)

def abandon (h : Hub) (t : TaskId) : Task → Hub
  | .call c =>
    match c.stage with
    | .starting => h
    | .sending id _ => h.dropStream id
    | .reading id _ => h.dropStream id
  | .reader id _ _ => h.dropStream id
  | .handler _ => h
  | .delivering d => h.interrupt d t
  | .loop index current => (current.elim h fun d => h.interrupt d t).stopLoop index

/-- Drops an unfinished task where it stands; says whether there was one. -/
def dropTask (h : Hub) (t : TaskId) : Bool × Hub :=
  match h.task? t with
  | none => (false, h)
  | some task => (true, (h.abandon t task).setTask t none)

end Rollcall.Hub
