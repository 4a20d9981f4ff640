import Rollcall.Hub.Actions
import Rollcall.Peer.Responder
import Rollcall.Settings

/-!
# Exchanges between a hub and a peer

All errands begin at once. Commands go to the responders of their shards, and the chunks that these
give out are events for the hub, on one queue for all shards. The clock moves on to the next time
at which something is due when nothing else can happen, and the exchange ends when all errands are
done.
-/

namespace Rollcall

/-- How an errand is done: by a plain call, by a call under a token, or by a stream of which at most
`count` members are read. -/
inductive Manner where
  | plain
  | underToken (token : Token)
  | preview (count : Nat)
deriving DecidableEq, Repr

structure Errand where
  inquiry : Inquiry
  manner : Manner := .plain

structure Worker where
  task : TaskId
  manner : Manner
deriving DecidableEq, Repr

structure Exchange where
  hub : Hub
  peer : Peer
  responders : List Responder
  queue : Nat
  workers : List Worker := []
  passed : Nat := 0

def Hub.nextDeadline (h : Hub) : Option Duration :=
  let due : Option Task → Option Nat
    | some (.call c) => c.deadline.map (·.due.nanos)
    | _ => none
  (h.tasks.toList.filterMap due).min?.map (⟨·⟩)

namespace Exchange

/-! ## Beginning -/

def startErrand (h : Hub) (e : Errand) : TaskId × Hub :=
  match e.manner with
  | .plain => h.callMembers e.inquiry
  | .underToken token => h.collect e.inquiry token
  | .preview _ => h.callStream e.inquiry

def begin (x : Exchange) (e : Errand) : Exchange :=
  let (task, hub) := startErrand x.hub e
  { x with hub, workers := x.workers ++ [⟨task, e.manner⟩] }

def intents (s : Settings) : Intents :=
  let all := Intents.guilds.union .guildMembers
  if s.presences then all.union .guildPresences else all

def create (s : Settings) (rosters : List Roster) (nonces : NonceSource) :
    Except Failure Exchange := do
  let shards : List Shard := (List.range s.shards).map fun n =>
    { number := UInt32.ofNat n, intents := intents s }
  let hub ← Hub.create s.limits (.except s.exclude) shards true nonces
  let ((_, queue), hub) := hub.run
  return { hub, queue, peer := ⟨rosters, s.chunkSize, s.chunkDelay⟩
           responders := shards.map fun _ => {} }

/-! ## Steps -/

def outcome? (x : Exchange) (t : TaskId) : Option Outcome :=
  (x.hub.finished.find? fun e => e.1 = t).map (·.2)

def passOn (responders : List Responder) (sent : UInt32 × MemberCommand) : List Responder :=
  responders.modify sent.1.toNat fun r => r.take sent.2.toFrame

def passAll (x : Exchange) : Exchange :=
  { x with
    responders := (x.hub.sent.toList.drop x.passed).foldl passOn x.responders
    passed := x.hub.sent.size }

def follow (x : Exchange) (w : Worker) : Worker × Exchange :=
  match w.manner, x.outcome? w.task with
  | .preview count, some (.stream id _) =>
    let (task, hub) := x.hub.read id (.upTo count)
    ({ w with task }, { x with hub })
  | _, _ => (w, x)

def followAll (x : Exchange) : Exchange :=
  let (workers, x) := x.workers.foldl
    (fun (ws, x) w => let (w, x) := x.follow w; (w :: ws, x)) ([], x)
  { x with workers := workers.reverse }

/-- Lets the tasks run, passes on what they send, and lets the readers of new streams run. -/
def settle (x : Exchange) : Exchange :=
  let x := { x with hub := x.hub.settle }.passAll.followAll
  { x with hub := x.hub.settle }

/-- Each responder gives out a chunk, if it has one that is due; says whether any did. -/
def emit (x : Exchange) : Bool × Exchange :=
  let given := x.responders.map fun r => r.emit x.peer x.hub.now
  let events := Event.ofDispatches ((given.filterMap (·.1)).map Chunk.toDispatch)
  (given.any (·.1.isSome),
    { x with responders := given.map (·.2), hub := x.hub.push x.queue events })

def nextDue (x : Exchange) : Option Duration :=
  let times := x.hub.nextDeadline.toList ++ x.responders.filterMap Responder.nextDue
  (times.map (·.nanos)).min?.map (⟨·⟩)

def isDone (x : Exchange) : Bool := x.workers.all fun w => (x.outcome? w.task).isSome

/-- Lets happen what comes next; says whether the exchange goes on. -/
def step (x : Exchange) : Bool × Exchange :=
  let x := x.settle
  if x.isDone then (false, x)
  else match x.emit with
    | (true, x) => (true, x)
    | (false, x) =>
      match x.nextDue with
      | none => (false, x)
      | some now => (true, { x with hub := { x.hub with now } })

def steps : Nat → Exchange → Exchange
  | 0, x => x
  | n + 1, x =>
    match x.step with
    | (true, x) => steps n x
    | (false, x) => x

/-! ## The whole -/

def chunkBound (rosters : List Roster) (i : Inquiry) : Nat :=
  let named := match i.scope with
    | .users ids => ids.length
    | .query _ _ => 0
  named + (rosters.map (·.members.length)).foldl max 0 + 1

/-- A bound on the steps of an exchange: for each chunk one that gives it out and one that waits for
it, and for each errand one at its deadline. -/
def stepBound (rosters : List Roster) (errands : List Errand) : Nat :=
  2 * Cooperation.total (errands.map fun e => chunkBound rosters e.inquiry + 1) + 1

def finish (x : Exchange) : Exchange :=
  { x with hub := (x.hub.tellToStop x.queue).settle }

def run (s : Settings) (rosters : List Roster) (nonces : NonceSource) (errands : List Errand) :
    Except Failure Exchange := do
  let x ← create s rosters nonces
  return ((errands.foldl begin x).steps (stepBound rosters errands)).finish

def outcomes (x : Exchange) : List (Option Outcome) := x.workers.map fun w => x.outcome? w.task

def isOversized (x : Exchange) : Bool := x.outcomes.any fun o => o = some .oversized

end Exchange
end Rollcall
