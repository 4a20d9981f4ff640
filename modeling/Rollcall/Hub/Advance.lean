import Rollcall.Hub.State

/-!
# One segment of a task

For each kind of task: what it does from the place where it waits to the next such place, and when
it has to wait on. `Hub.advance` does it for the task of a given number and writes down how it
ends; `Hub.weight` goes down with every segment.
-/

namespace Rollcall

namespace Hub

/-! ## Requests and calls -/

inductive Started where
  | failed (f : Failure)
  | oversized
  | sent (stream : RequestId) (result : Option SendResult)

def handOver (h : Hub) (t : TaskId) (i : Nat) (s : Shard) (c : MemberCommand) :
    Option SendResult × Hub :=
  let h := { h with sent := h.sent.push (s.number, c) }
  match s.mode with
  | .hold =>
    (none, { h with shards := h.shards.modify i fun s => { s with held := s.held ++ [t] } })
  | mode => (some mode.result, h)

def start (h : Hub) (t : TaskId) (i : Inquiry) : Started × Hub :=
  match Shard.route h.shards.size i.guild with
  | .error f => (.failed f, h)
  | .ok index =>
    match h.shards[index]? with
    | none => (.failed (.shardNotFound i.guild), h)
    | some s =>
      if s.intents.missing .guildMembers then (.failed (.missingIntent .guildMembers), h)
      else match i.refusal? h.limits with
        | some f => (.failed f, h)
        | none =>
          if Limits.greatestCapacity < h.limits.capacity.toNat then (.oversized, h)
          else
            let build (nonce : String) : Request :=
              { nonce, guild := i.guild, filter := i.filter
                channel := { capacity := h.limits.capacity.toNat } }
            match h.book.registerWith build with
            | (none, book) => (.failed (.nonceExhausted NonceSource.attempts), { h with book })
            | (some id, book) =>
              let command := i.command (book.nonceOf id) (s.intents.contains .guildPresences)
              let (result, h) := { h with book }.handOver t index s command
              (.sent id result, h)

def dropStream (h : Hub) (id : RequestId) : Hub := { h with book := h.book.dropStream id }

def tokenCancelled (h : Hub) (token : Option Token) : Bool :=
  token.any h.cancelledTokens.contains

def watched : Call.Goal → Option Token
  | .stream => none
  | .members token => token

def afterSend (h : Hub) (c : Call) (id : RequestId) : SendResult → Move Hub Call Outcome
  | .refused cause => .done (h.dropStream id) (.failed (.sendFailed cause))
  | .sent =>
    match c.goal with
    | .stream => .done { h with streams := h.streams ++ [id] } (.stream id (h.book.nonceOf id))
    | .members _ => .moved h { c with stage := .reading id [] }

/-- A call that has not begun: its token comes before all checks. -/
def advanceStart (h : Hub) (t : TaskId) (c : Call) : Move Hub Call Outcome :=
  if h.tokenCancelled (watched c.goal) then .done h (.failed .cancelled)
  else match h.start t c.inquiry with
    | (.failed f, g) => .done g (.failed f)
    | (.oversized, g) => .done g .oversized
    | (.sent id none, g) => .moved g { c.timed h.now with stage := .sending id none }
    | (.sent id (some result), g) => g.afterSend (c.timed h.now) id result

/-- A call that gathers members: its token comes before what there is to read. -/
def advanceReading (h : Hub) (c : Call) (id : RequestId) (got : List Member) :
    Move Hub Call Outcome :=
  if h.tokenCancelled (watched c.goal) then .done (h.dropStream id) (.failed .cancelled)
  else match h.book.recv id with
    | (.member m, book) => .moved { h with book } { c with stage := .reading id (m :: got) }
    | (.pending, _) => .blocked
    | (.ended, _) =>
      .done (h.dropStream id)
        (if h.book.isCancelled id then .failed .cancelled else .members got.reverse)

def expire (h : Hub) (c : Call) : Move Hub Call Outcome :=
  match c.deadline with
  | none => .blocked
  | some d =>
    if h.now.nanos < d.due.nanos then .blocked
    else
      let h := match c.stage with
        | .starting => h
        | .sending id _ => h.dropStream id
        | .reading id _ => h.dropStream id
      .done h (.failed (.timedOut d.after))

def advanceCall (h : Hub) (t : TaskId) (c : Call) : Move Hub Call Outcome :=
  let inner := match c.stage with
    | .starting => h.advanceStart t c
    | .sending _ none => .blocked
    | .sending id (some result) => h.afterSend c id result
    | .reading id got => h.advanceReading c id got
  match inner with
  | .blocked => h.expire c
  | move => move

/-! ## Readers -/

def advanceReader (h : Hub) (id : RequestId) (goal : ReadGoal) (got : List Member) :
    Move Hub Task Outcome :=
  if goal = .upTo got.length then .done (h.dropStream id) (.gathered got.reverse)
  else match h.book.recv id with
    | (.member m, book) =>
      let h := { h with book }
      if goal = .one then .done (h.dropStream id) (.received (some m) (h.book.isCancelled id))
      else .moved h (.reader id goal (m :: got))
    | (.pending, _) => .blocked
    | (.ended, _) =>
      .done (h.dropStream id)
        (if goal = .one then .received none (h.book.isCancelled id) else .gathered got.reverse)

/-! ## Events -/

/-- Counts a chunk that has been dealt with, and takes the request out of the registry if the chunk
ended it. -/
def settleDelivery (h : Hub) (d : Delivery) (r : Delivered) : Hub :=
  let stats := { h.stats with
    forwarded := h.stats.forwarded + UInt64.ofNat r.placed
    filtered := h.stats.filtered + UInt64.ofNat r.filtered
    completed := h.stats.completed + if r.verdict = .complete then 1 else 0 }
  let book := if r.verdict.isFinal then (h.book.deregisterRequest d.request).2 else h.book
  { h with stats, book }

def deliver (h : Hub) (t : TaskId) (d : Delivery) : Move Hub Delivery Unit :=
  match d.advance t h.book with
  | .blocked => .blocked
  | .moved book d => .moved { h with book } d
  | .done book r => .done ({ h with book }.settleDelivery d r) ()

def match? (h : Hub) (c : Chunk) : Option RequestId := c.nonce.bind h.book.lookup

/-- Begins to handle an event. A chunk that nobody waits for is only counted. -/
def receive (h : Hub) (t : TaskId) : Event → Move Hub Delivery Unit
  | .other _ => .done h ()
  | .chunk c =>
    let h := { h with stats.chunks := h.stats.chunks + 1 }
    match h.match? c with
    | none => .done { h with stats.unmatched := h.stats.unmatched + 1 } ()
    | some id =>
      let h := { h with stats.notFound := h.stats.notFound + UInt64.ofNat c.notFound.length }
      h.deliver t
        { request := id, declared := c.count, caching := h.caching, stage := .arriving c.stamped }

def loopMove (index : Nat) : Move Hub Delivery Unit → Move Hub Task Outcome
  | .blocked => .blocked
  | .moved h d => .moved h (.loop index (some d))
  | .done h _ => .moved h (.loop index none)

def interrupt (h : Hub) (d : Delivery) (t : TaskId) : Hub := { h with book := d.interrupt t h.book }

/-- Ends a loop; what is queued is lost. -/
def stopLoop (h : Hub) (index : Nat) : Hub :=
  { h with loops := h.loops.modify index fun l => { l with queue := [], running := false } }

/-- A loop: being told to stop comes before its events, and interrupts the one at hand. -/
def advanceLoop (h : Hub) (t : TaskId) (index : Nat) (current : Option Delivery) :
    Move Hub Task Outcome :=
  match h.loops[index]? with
  | none => .blocked
  | some l =>
    match current with
    | some d =>
      if l.stopping then .done ((h.interrupt d t).stopLoop index) .stopped
      else loopMove index (h.deliver t d)
    | none =>
      if l.stopping then .done (h.stopLoop index) .stopped
      else match l.queue with
        | e :: rest =>
          let h := { h with loops := h.loops.modify index fun l => { l with queue := rest } }
          loopMove index (h.receive t e)
        | [] => if l.feeding then .blocked else .done (h.stopLoop index) .stopped

/-! ## All tasks -/

def handlerMove : Move Hub Delivery Unit → Move Hub Task Outcome
  | .blocked => .blocked
  | .moved h d => .moved h (.delivering d)
  | .done h _ => .done h .handled

def advanceTask (h : Hub) (t : TaskId) : Task → Move Hub Task Outcome
  | .call c =>
    match h.advanceCall t c with
    | .blocked => .blocked
    | .moved h c => .moved h (.call c)
    | .done h o => .done h o
  | .reader id goal got => h.advanceReader id goal got
  | .handler e => handlerMove (h.receive t e)
  | .delivering d => handlerMove (h.deliver t d)
  | .loop index current => h.advanceLoop t index current

/-- One segment of a task; nothing if it has ended or has to wait. -/
def advance (h : Hub) (t : TaskId) : Option Hub :=
  match h.task? t with
  | none => none
  | some task =>
    match h.advanceTask t task with
    | .blocked => none
    | .moved h task => some (h.setTask t (some task))
    | .done h o => some { h.setTask t none with finished := h.finished.push (t, o) }

/-! ## Weight -/

def eventWeight : Event → Nat
  | .other _ => 1
  | .chunk c => 2 * c.members.length + 4

def callWeight : Call.Stage → Nat
  | .starting => 3
  | .sending _ _ => 2
  | .reading _ _ => 1

def taskWeight : Task → Nat
  | .call c => callWeight c.stage
  | .reader _ _ _ => 1
  | .handler e => eventWeight e
  | .delivering d => d.weight
  | .loop _ none => 1
  | .loop _ (some d) => d.weight + 1

def loopWeight (l : EventLoop) : Nat := Cooperation.total (l.queue.map eventWeight)

def requestWeight (r : Request) : Nat := r.channel.unread.length

/-- A bound on the segments that can follow before every task has ended or has to wait. -/
def weight (h : Hub) : Nat :=
  Cooperation.total (h.tasks.toList.map fun t => t.elim 0 taskWeight) +
  Cooperation.total (h.loops.toList.map loopWeight) +
  Cooperation.total (h.book.requests.toList.map requestWeight)

def settle (h : Hub) : Hub :=
  Cooperation.settle advance (fun h => List.range h.tasks.size) (h.weight + 1) (h.weight + 1) h

end Hub
end Rollcall
