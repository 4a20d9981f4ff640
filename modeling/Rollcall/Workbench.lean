import Rollcall.Delivery
import Rollcall.Limits
import Rollcall.MemberPredicate
import Rollcall.Names
import Rollcall.Payload.Member

/-!
# A book of requests on its own

A workbench holds a book of requests without shards or callers. Requests are made, registered, read
and given chunks by name, step by step; after each step all chunks go on as far as they can.
-/

namespace Rollcall

namespace Workbench

inductive Step where
  | registerWith (id : String) (capacity : Nat) (guild : GuildId) (filter : Option MemberPredicate)
  | make (id : String) (nonce : String) (capacity : Nat) (guild : GuildId)
      (filter : Option MemberPredicate)
  | fill (nonces : List String)
  | register (id : String)
  | deregisterRequest (id : String)
  | issue
  | lookup (nonce : String)
  | deregister (nonce : String)
  | drain
  | contains (nonce : String)
  | isEmpty
  -- starts handing over a chunk whose members are written as a JSON array
  | consume (id : String) (task : String) (members : Json) (count : UInt32) (caching : Bool)
  | dropTask (task : String)
  | recv (id : String)
  | recvAll (id : String)
  | dropReceiver (id : String)
  | closeReceiver (id : String)
  | info (id : String)
  -- the outlines of a request, or of the registry if there is none of the name
  | show (id : String)

/-- What there is to know of a request. What a chunk may be changing is not known. -/
structure Info where
  nonce : String
  guild : GuildId
  complete : Bool
  chunks : Option UInt32
  closed : Option Bool

inductive StepResult where
  | nothing
  | failed (f : Failure)
  | noRequest
  | noReceiver
  | text (s : String)
  | texts (ss : List String)
  | flag (b : Bool)
  | flags (bs : List Bool)
  | absent
  | found (name : Option String)
  | removed (name : Option String)
  | drained (nonces : List String)
  | reading (r : Reading)
  | readings (ids : List UserId) (last : Reading)
  | info (i : Info)

structure Answer where
  result : StepResult
  done : List (String × Delivered)
  blocked : List String
  size : Nat
  cached : Nat

end Workbench

structure Workbench where
  book : Book
  deliveries : Array (Option Delivery) := #[]
  finished : Array (TaskId × Delivered) := #[]
  tasks : Array String := #[]
  requests : Names RequestId := {}

namespace Workbench

def create (nonces : NonceSource) : Workbench := { book := { nonces } }

def delivery? (w : Workbench) (t : TaskId) : Option Delivery := (w.deliveries[t]?).join

def unfinished (w : Workbench) : List TaskId :=
  (List.range w.deliveries.size).filter fun t => (w.delivery? t).isSome

def taskName (w : Workbench) (t : TaskId) : String := w.tasks[t]?.getD ""

def advance (w : Workbench) (t : TaskId) : Option Workbench :=
  match w.delivery? t with
  | none => none
  | some d =>
    match d.advance t w.book with
    | .blocked => none
    | .moved book d => some { w with book, deliveries := w.deliveries.setIfInBounds t (some d) }
    | .done book r =>
      some { w with
        book, deliveries := w.deliveries.setIfInBounds t none, finished := w.finished.push (t, r) }

def weight (w : Workbench) : Nat :=
  Cooperation.total (w.deliveries.toList.map fun d => d.elim 0 Delivery.weight)

def settle (w : Workbench) : Workbench :=
  let budget := w.weight + 1
  Cooperation.settle advance (fun w => List.range w.deliveries.size) budget budget w

def freshRequest (capacity : Nat) (guild : GuildId) (filter : Option MemberPredicate)
    (nonce : String) : Request :=
  { nonce, guild, filter := filter.map (·.holds), channel := { capacity } }

/-- Gives a name to a new request. The receiver of the request that had it is dropped. -/
def name (w : Workbench) (id : String) (r : RequestId) : Workbench :=
  let book := (w.requests.get? id).elim w.book fun old => w.book.modify old .dropReceiver
  { w with book, requests := w.requests.set id r }

def nameOf? (w : Workbench) (r : RequestId) : Option String :=
  (((w.requests.entries.filter fun e => e.2 = r).map (·.1)).mergeSort fun a b => a ≤ b).head?

def onRequest (w : Workbench) (id : String) (f : RequestId → Request → StepResult × Workbench) :
    StepResult × Workbench :=
  match w.requests.get? id with
  | none => (.noRequest, w)
  | some r =>
    match w.book.requests[r]? with
    | none => (.noRequest, w)
    | some request => f r request

def onReceiver (w : Workbench) (id : String) (f : RequestId → StepResult × Workbench) :
    StepResult × Workbench :=
  w.onRequest id fun r request =>
    if request.channel.receiver = .dropped then (.noReceiver, w) else f r

def fillOne (acc : List Bool × Book) (nonce : String) : List Bool × Book :=
  let (r, book) := acc.2.add (freshRequest 1 ⟨1⟩ none nonce)
  let (b, book) := book.register r
  (acc.1 ++ [b], book)

def infoOf (r : Request) : Info :=
  let free := r.line.isEmpty
  { nonce := r.nonce, guild := r.guild, complete := r.complete
    chunks := if free then some r.chunks else none
    closed := if free then some (!r.senderOpen) else none }

def exhausted : StepResult := .failed (.nonceExhausted NonceSource.attempts)

def act (w : Workbench) : Step → StepResult × Workbench
  | .registerWith id capacity guild filter =>
    match w.book.registerWith (freshRequest capacity guild filter) with
    | (none, book) => (exhausted, { w with book })
    | (some r, book) => (.text (book.nonceOf r), { w with book }.name id r)
  | .make id nonce capacity guild filter =>
    let (r, book) := w.book.add (freshRequest capacity guild filter nonce)
    (.text nonce, { w with book }.name id r)
  | .fill nonces =>
    let (bs, book) := nonces.foldl fillOne ([], w.book)
    (.flags bs, { w with book })
  | .register id => w.onRequest id fun r _ =>
    let (b, book) := w.book.register r
    (.flag b, { w with book })
  | .deregisterRequest id => w.onRequest id fun r _ =>
    let (b, book) := w.book.deregisterRequest r
    (.flag b, { w with book })
  | .issue =>
    match w.book.issue with
    | (none, book) => (exhausted, { w with book })
    | (some nonce, book) => (.text nonce, { w with book })
  | .lookup nonce =>
    match w.book.lookup nonce with
    | none => (.absent, w)
    | some r => (.found (w.nameOf? r), w)
  | .deregister nonce =>
    match w.book.deregister nonce with
    | (none, _) => (.absent, w)
    | (some r, book) => (.removed (w.nameOf? r), { w with book })
  | .drain =>
    let (rs, book) := w.book.drain
    (.drained ((rs.map book.nonceOf).mergeSort fun a b => a ≤ b), { w with book })
  | .contains nonce => (.flag (w.book.registry.contains nonce), w)
  | .isEmpty => (.flag (w.book.registry.size = 0), w)
  | .consume id task members count caching => w.onRequest id fun r _ =>
    match Payload.decodeList Member.ofJson members with
    | .error f => (.failed (.decode f), w)
    | .ok members =>
      (.nothing, { w with
        tasks := w.tasks.push task
        deliveries := w.deliveries.push
          (some { request := r, declared := count, caching, stage := .arriving members }) })
  | .dropTask task =>
    match w.unfinished.find? fun t => w.taskName t = task with
    | none => (.flag false, w)
    | some t =>
      let book := (w.delivery? t).elim w.book fun d => d.interrupt t w.book
      (.flag true, { w with book, deliveries := w.deliveries.setIfInBounds t none })
  | .recv id => w.onReceiver id fun r =>
    let (reading, book) := w.book.recv r
    (.reading reading, { w with book })
  | .recvAll id => w.onReceiver id fun r =>
    let (ms, last, book) := w.book.recvAll r
    (.readings (ms.map (·.user.id)) last, { w with book })
  | .dropReceiver id => w.onRequest id fun r request =>
    (.flag (request.channel.receiver ≠ .dropped), { w with book := w.book.modify r .dropReceiver })
  | .closeReceiver id => w.onRequest id fun r _ =>
    (.nothing, { w with book := w.book.modify r .closeReceiver })
  | .info id => w.onRequest id fun _ request => (.info (infoOf request), w)
  | .show id =>
    match (w.requests.get? id).bind fun r => w.book.requests[r]? with
    | some r => (.texts [r.outline.flat, r.outline.pretty], w)
    | none => (.texts [w.book.registry.outline.flat], w)

def step (w : Workbench) (st : Step) : Answer × Workbench :=
  let (result, after) := w.act st
  let after := after.settle
  let ended := after.finished.toList.drop w.finished.size
  ({ result
     done := ended.map fun e => (after.taskName e.1, e.2)
     blocked := after.unfinished.map after.taskName
     size := after.book.registry.size
     cached := after.book.cache.size }, after)

/-- Whether a step asks for a channel that cannot be made, one without places or with too many. -/
def Step.isOversized : Step → Bool
  | .registerWith _ capacity _ _ => capacity = 0 || Limits.greatestCapacity < capacity
  | .make _ _ capacity _ _ => capacity = 0 || Limits.greatestCapacity < capacity
  | _ => false

/-- The answers to all steps; nothing if a channel cannot be made. -/
def run? (w : Workbench) : List Step → Option (List Answer)
  | [] => some []
  | st :: rest =>
    if st.isOversized then none
    else
      let (a, w) := w.step st
      (w.run? rest).map (a :: ·)

end Workbench
end Rollcall
