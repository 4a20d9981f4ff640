import Rollcall.Hub.Actions

/-!
# Histories

A history lists what was done to a hub, the latest first: callers act, and tasks run for one
segment at a time, in any order and with any actions in between. The journal of a history tells
what came of it: which call made a request, which chunks reached the line of a request and what
became of them, and which members were given out.
-/

namespace Rollcall

inductive Action where
  | callStream (i : Inquiry)
  | collect (i : Inquiry) (token : Token)
  | callMembers (i : Inquiry)
  | dispatch (e : Event)
  | run
  | read (id : RequestId) (goal : ReadGoal)
  | push (index : Nat) (events : List Event)
  | endLoop (index : Nat)
  | tellToStop (index : Nat)
  | recv (id : RequestId)
  | cancel (id : RequestId)
  | discard (id : RequestId)
  | cancelToken (token : Token)
  | advanceClock (d : Duration)
  | shutdown
  | setMode (shard : Nat) (mode : SendMode)
  | release (shard place : Nat) (result : SendResult)
  | dropTask (t : TaskId)
  -- a task runs for one segment, unless it has to wait
  | segment (t : TaskId)

/-! ## What tasks hold -/

namespace Task

def delivery? : Task → Option Delivery
  | delivering d => some d
  | loop _ current => current
  | _ => none

def stream? : Task → Option RequestId
  | call c => match c.stage with
    | .starting => none
    | .sending id _ => some id
    | .reading id _ => some id
  | reader id _ _ => some id
  | _ => none

def Attends : Task → Prop
  | handler _ => True
  | delivering _ => True
  | loop _ _ => True
  | _ => False

end Task

namespace Hub

def delivery? (h : Hub) (t : TaskId) : Option Delivery := (h.task? t).bind Task.delivery?

/-! ## Histories -/

/-- The hub after an action. A stream is read, given to a reader or dropped only by its owner, and
what cannot be done changes nothing. -/
def perform (h : Hub) : Action → Hub
  | .callStream i => (h.callStream i).2
  | .collect i token => (h.collect i token).2
  | .callMembers i => (h.callMembers i).2
  | .dispatch e => (h.dispatch e).2
  | .run => h.run.2
  | .read id goal => if id ∈ h.streams then (h.read id goal).2 else h
  | .push index events => h.push index events
  | .endLoop index => h.endLoop index
  | .tellToStop index => h.tellToStop index
  | .recv id => if id ∈ h.streams then (h.recv id).2 else h
  | .cancel id => (h.cancel id).2
  | .discard id => if id ∈ h.streams then h.discard id else h
  | .cancelToken token => h.cancelToken token
  | .advanceClock d => h.advanceClock d
  | .shutdown => h.shutdown.2
  | .setMode shard mode => h.setMode shard mode
  | .release shard place result => (h.release shard place result).2
  | .dropTask t => (h.dropTask t).2
  | .segment t => (h.advance t).getD h

def after (h : Hub) : List Action → Hub
  | [] => h
  | a :: past => (h.after past).perform a

def Quiet (h : Hub) : Prop := ∀ t, h.advance t = none

def IsNew (h : Hub) : Prop :=
  ∃ limits selection shards caching nonces,
    create limits selection shards caching nonces = .ok h

end Hub

/-! ## A small hub -/

/-- One shard, one nonce, and room for one member in a channel. -/
def Hub.sample (mode : SendMode) : Hub :=
  { limits := { capacity := 1 }, shards := #[{ number := 0, intents := .guildMembers, mode }],
    book := { nonces := .scripted ["x"] } }

theorem Hub.sample_isNew (mode : SendMode) : (sample mode).IsNew :=
  ⟨{ capacity := 1 }, .nothing, [_], true, _, rfl⟩

def Member.sample (name : String) : Member :=
  { guild := ⟨1⟩, user := { id := ⟨7⟩, username := name } }

def Chunk.sample (ms : List Member) : Chunk :=
  { guild := ⟨1⟩, members := ms, index := 0, count := 1, nonce := some "x" }

/-! ## The journal -/

inductive Occurrence where
  | called (t : TaskId) (goal : Call.Goal)
  -- a call has made and registered its request
  | made (t : TaskId) (id : RequestId)
  -- a chunk has been matched and has reached the line of its request
  | arrived (t : TaskId) (id : RequestId) (c : Chunk)
  -- a chunk has been dealt with to its end
  | settled (t : TaskId) (id : RequestId) (result : Delivered)
  -- whoever handed a chunk over has been dropped or stopped
  | interrupted (t : TaskId) (id : RequestId)
  -- a member has been given out, to the caller or to a task
  | yielded (id : RequestId) (m : Member)

namespace Hub

def yields (h : Hub) (id : RequestId) : List Occurrence :=
  match (h.book.recv id).1 with
  | .member m => [.yielded id m]
  | _ => []

def deliveries (h : Hub) (t : TaskId) (d : Delivery) : List Occurrence :=
  match d.advance t h.book with
  | .done _ r => [.settled t d.request r]
  | _ => []

def arrival (h : Hub) (id : RequestId) (c : Chunk) : Delivery :=
  { request := id, declared := c.count, caching := h.caching, stage := .arriving c.stamped }

def receipts (h : Hub) (t : TaskId) : Event → List Occurrence
  | .other _ => []
  | .chunk c =>
    match h.match? c with
    | none => []
    | some id =>
      match (h.arrival id c).advance t h.book with
      | .blocked => []
      | .moved _ _ => [.arrived t id c]
      | .done _ r => [.arrived t id c, .settled t id r]

def callOccurrences (h : Hub) (t : TaskId) (c : Call) : List Occurrence :=
  match c.stage with
  | .starting =>
    if h.tokenCancelled (watched c.goal) then []
    else match (h.start t c.inquiry).1 with
      | .sent id _ => [.made t id]
      | _ => []
  | .sending _ _ => []
  | .reading id _ => if h.tokenCancelled (watched c.goal) then [] else h.yields id

def loopOccurrences (h : Hub) (t : TaskId) (index : Nat) (current : Option Delivery) :
    List Occurrence :=
  match h.loops[index]? with
  | none => []
  | some l =>
    match current with
    | some d => if l.stopping then [.interrupted t d.request] else h.deliveries t d
    | none =>
      if l.stopping then []
      else match l.queue with
        | [] => []
        | e :: _ => h.receipts t e

def segmentOccurrences (h : Hub) (t : TaskId) : Task → List Occurrence
  | .call c => h.callOccurrences t c
  | .reader id goal got => if goal = .upTo got.length then [] else h.yields id
  | .handler e => h.receipts t e
  | .delivering d => h.deliveries t d
  | .loop index current => h.loopOccurrences t index current

def occurrences (h : Hub) : Action → List Occurrence
  | .callStream _ => [.called h.tasks.size .stream]
  | .collect _ token => [.called h.tasks.size (.members (some token))]
  | .callMembers _ => [.called h.tasks.size (.members none)]
  | .recv id => if id ∈ h.streams then h.yields id else []
  | .dropTask t => (h.delivery? t).elim [] fun d => [.interrupted t d.request]
  | .segment t => (h.task? t).elim [] (h.segmentOccurrences t)
  | _ => []

def journal (h : Hub) : List Action → List Occurrence
  | [] => []
  | a :: past => h.journal past ++ (h.after past).occurrences a

end Hub
end Rollcall
