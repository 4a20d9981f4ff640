import Rollcall.Hub.Actions
import Rollcall.MemberPredicate
import Rollcall.Names

/-!
# Sessions with a hub

A session takes steps against one hub. Streams, cancellers, loops and tasks go by names; after each
step all tasks run until each has ended or has to wait, and the session tells what came of it.
Streams that calls end with are the session's from then on; one that takes the name of an older
stream has that one dropped.
-/

namespace Rollcall

/-! ## Steps -/

inductive Shape where
  | users
  | query
  | all
  | filter
deriving DecidableEq, Repr

/-- How a call is made: plainly, under a token, for its stream, or from an inquiry. -/
inductive Form where
  | plain
  | underToken
  | stream
  | inquiryStream
  | inquiryMembers
deriving DecidableEq, Repr

structure Ask where
  shape : Shape
  guild : GuildId
  ids : List UserId := []
  query : String := ""
  limit : UInt32 := 0
  filter : Option MemberPredicate := none

inductive View where
  | hub
  | hubPretty
  | stats
  | intake
deriving DecidableEq, Repr

inductive Step where
  | request (id : String) (form : Form) (ask : Ask) (token : Token)
  | event (id : String) (d : Dispatch)
  | recv (id : String)
  | drain (id : String)
  | gather (id : String)
  | await (id : String)
  | nonce (id : String)
  | cancel (id : String)
  | cancelled (id : String)
  | canceller (id : String) (name : String)
  | cancelVia (name : String)
  | cancelledVia (name : String)
  | dropStream (id : String)
  | dropTask (id : String)
  | cancelToken (token : Token)
  | run (id : String)
  | push (id : String) (ds : List Dispatch)
  | endRun (id : String)
  | stopRun (id : String)
  | setMode (shard : Nat) (mode : SendMode)
  | release (shard : Nat) (mode : SendMode)
  | shutdown
  | isPending (nonce : String)
  | advanceClock (d : Duration)
  | selects (guild : GuildId)
  | limits
  | cached (guild : GuildId)
  | describe (ask : Ask)
  | show (view : View)

namespace Ask

/-- The inquiry of a shape, without a filter of its own. -/
def plain (a : Ask) : Inquiry :=
  match a.shape with
  | .users => .users a.guild a.ids
  | .query => .query a.guild a.query a.limit
  | .all => .all a.guild
  | .filter => .filtered a.guild (a.filter.getD (.constant true)).holds

/-- The inquiry with the filter that is given, whatever the shape. -/
def inquiry (a : Ask) : Inquiry :=
  match a.filter with
  | none => a.plain
  | some p => { a.plain with filter := some p.holds }

end Ask

/-! ## Answers -/

inductive Missing where
  | stream
  | canceller
  | run
  | request
  | receiver
  | shard
deriving DecidableEq, Repr

def Missing.name : Missing → String
  | .stream => "stream"
  | .canceller => "canceller"
  | .run => "run"
  | .request => "request"
  | .receiver => "receiver"
  | .shard => "shard"

inductive StepResult where
  | nothing
  | failed (f : Failure)
  | missing (what : Missing)
  | reading (r : Reading)
  | drained (ids : List UserId) (last : Reading)
  | flag (b : Bool)
  | flags (bs : List Bool)
  | count (n : Nat)
  | text (s : String)
  | members (ms : List Member)
  | uncached
  | limits (l : Limits)

structure Answer where
  result : StepResult
  -- the tasks that ended in this step, in order, by name
  done : List (String × Outcome)
  blocked : List String
  sent : List (UInt32 × MemberCommand)
  pending : Nat
  stats : Stats
  cached : Option Nat

/-! ## The session -/

structure Session where
  hub : Hub
  tasks : Array String := #[]
  streams : Names RequestId := {}
  cancellers : Names RequestId := {}
  loops : Names Nat := {}

namespace Session

def taskName (s : Session) (t : TaskId) : String := s.tasks[t]?.getD ""

/-- Takes charge of the stream of a task that has ended with one; an older stream of the same name
is dropped. -/
def takeStream (s : Session) (t : TaskId) (id : RequestId) : Session :=
  let name := s.taskName t
  let hub := (s.streams.get? name).elim s.hub s.hub.discard
  { s with hub, streams := s.streams.set name id }

def takeStreams (s : Session) (ended : List (TaskId × Outcome)) : Session :=
  ended.foldl (fun s e => match e.2 with
    | .stream id _ => s.takeStream e.1 id
    | _ => s) s

def started (s : Session) (name : String) (start : TaskId × Hub) : Session :=
  { s with hub := start.2, tasks := s.tasks.push name }

def taskNamed? (s : Session) (name : String) : Option TaskId :=
  s.hub.unfinished.find? fun t => s.taskName t = name

def onStream (s : Session) (name : String) (f : RequestId → StepResult × Session) :
    StepResult × Session :=
  match s.streams.get? name with
  | none => (.missing .stream, s)
  | some id => f id

def onCanceller (s : Session) (name : String) (f : RequestId → StepResult × Session) :
    StepResult × Session :=
  match s.cancellers.get? name with
  | none => (.missing .canceller, s)
  | some id => f id

def onLoop (s : Session) (name : String) (f : Nat → StepResult × Session) :
    StepResult × Session :=
  match s.loops.get? name with
  | none => (.missing .run, s)
  | some index => f index

def onShard (s : Session) (shard : Nat) (f : StepResult × Session) : StepResult × Session :=
  if shard < s.hub.shards.size then f else (.missing .shard, s)

def flagged (s : Session) (r : Bool × Hub) : StepResult × Session :=
  (.flag r.1, { s with hub := r.2 })

def startCall (hub : Hub) (form : Form) (ask : Ask) (token : Token) : TaskId × Hub :=
  match form with
  | .plain => hub.callMembers ask.plain
  | .underToken => hub.collect ask.plain token
  | .stream => hub.callStream ask.plain
  | .inquiryStream => hub.callStream ask.inquiry
  | .inquiryMembers => hub.collect ask.inquiry token

def decodeAll (ds : List Dispatch) : Except Payload.Fault (List Event) := ds.mapM Event.ofDispatch

def act (s : Session) : Step → StepResult × Session
  | .request id form ask token => (.nothing, s.started id (startCall s.hub form ask token))
  | .event id d =>
    match Event.ofDispatch d with
    | .error f => (.failed (.decode f), s)
    | .ok e => (.nothing, s.started id (s.hub.dispatch e))
  | .recv id => s.onStream id fun r =>
    let (reading, hub) := s.hub.recv r
    (.reading reading, { s with hub })
  | .drain id => s.onStream id fun r =>
    let (ms, last, hub) := s.hub.recvAll r
    (.drained (ms.map (·.user.id)) last, { s with hub })
  | .gather id => s.onStream id fun r =>
    (.nothing, { s with streams := s.streams.erase id }.started id (s.hub.read r .all))
  | .await id => s.onStream id fun r =>
    (.nothing, { s with streams := s.streams.erase id }.started id (s.hub.read r .one))
  | .nonce id => s.onStream id fun r => (.text (s.hub.book.nonceOf r), s)
  | .cancel id => s.onStream id fun r => s.flagged (s.hub.cancel r)
  | .cancelled id => s.onStream id fun r => (.flag (s.hub.isCancelled r), s)
  | .canceller id name => s.onStream id fun r =>
    (.nothing, { s with cancellers := s.cancellers.set name r })
  | .cancelVia name => s.onCanceller name fun r => s.flagged (s.hub.cancel r)
  | .cancelledVia name => s.onCanceller name fun r => (.flag (s.hub.isCancelled r), s)
  | .dropStream id =>
    match s.streams.get? id with
    | none => (.flag false, s)
    | some r => (.flag true, { s with hub := s.hub.discard r, streams := s.streams.erase id })
  | .dropTask id =>
    match s.taskNamed? id with
    | none => (.flag false, s)
    | some t => s.flagged (s.hub.dropTask t)
  | .cancelToken token => (.nothing, { s with hub := s.hub.cancelToken token })
  | .run id =>
    let hub := (s.loops.get? id).elim s.hub s.hub.endLoop
    let ((t, index), hub) := hub.run
    (.nothing, { s with loops := s.loops.set id index }.started id (t, hub))
  | .push id ds =>
    match decodeAll ds with
    | .error f => (.failed (.decode f), s)
    | .ok es => s.onLoop id fun index =>
      let taken := s.hub.canPush index
      (.flags (es.map fun _ => taken), { s with hub := s.hub.push index es })
  | .endRun id => s.onLoop id fun index => (.nothing, { s with hub := s.hub.endLoop index })
  | .stopRun id => s.onLoop id fun index => (.nothing, { s with hub := s.hub.tellToStop index })
  | .setMode shard mode => s.onShard shard (.nothing, { s with hub := s.hub.setMode shard mode })
  | .release shard mode => s.onShard shard (s.flagged (s.hub.release shard 0 mode.result))
  | .shutdown =>
    let (n, hub) := s.hub.shutdown
    (.count n, { s with hub })
  | .isPending nonce => (.flag (s.hub.isPending nonce), s)
  | .advanceClock d => (.nothing, { s with hub := s.hub.advanceClock d })
  | .selects guild => (.flag (s.hub.selection.selects guild), s)
  | .limits => (.limits s.hub.limits, s)
  | .cached guild =>
    (if s.hub.caching then .members (s.hub.book.cache.guildMembers guild) else .uncached, s)
  | .describe ask => (.text ask.inquiry.outline.flat, s)
  | .show .hub => (.text s.hub.outline.flat, s)
  | .show .hubPretty => (.text s.hub.outline.pretty, s)
  | .show .stats => (.text (Hub.statsOutline s.hub.stats).flat, s)
  | .show .intake => (.text s.hub.intakeOutline.flat, s)

def cachedCount (s : Session) : Option Nat :=
  if s.hub.caching then some s.hub.book.cache.size else none

/-- Takes a step, lets the tasks run and then takes charge of the streams that came of it. A stream
dropped thereby is noticed by the tasks when they run next. -/
def step (s : Session) (st : Step) : Answer × Session :=
  let (result, acted) := s.act st
  let ran := { acted with hub := acted.hub.settle }
  let ended := ran.hub.finished.toList.drop s.hub.finished.size
  let after := ran.takeStreams ended
  ({ result
     done := ended.map fun e => (after.taskName e.1, e.2)
     blocked := after.hub.unfinished.map after.taskName
     sent := after.hub.sent.toList.drop s.hub.sent.size
     pending := after.hub.pending
     stats := after.hub.stats
     cached := after.cachedCount }, after)

/-- Whether a task has come upon a channel that cannot be made. -/
def Answer.isOversized (a : Answer) : Bool := a.done.any fun e => e.2 = .oversized

/-- The answers to all steps; nothing if a channel cannot be made. -/
def run? (s : Session) : List Step → Option (List Answer)
  | [] => some []
  | st :: rest =>
    let (a, s) := s.step st
    if Answer.isOversized a then none else (s.run? rest).map (a :: ·)

end Session
end Rollcall
