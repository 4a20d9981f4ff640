import Rollcall.Book
import Rollcall.Move

/-!
# Handing a chunk to a request

The members of a chunk are offered one by one: each is cached, and if the request accepts it, it is
placed in the channel as soon as there is room. A chunk waits in line until the chunks before it
have been dealt with. A request that is cancelled, or whose channel is no longer read, takes no
more, but the rest of the chunk is still cached.
-/

namespace Rollcall

inductive Delivery.Stage where
  | arriving (members : List Member)
  | inLine (members : List Member)
  -- a member that waits for room, and those after it
  | placing (member : Member) (rest : List Member) (placed filtered : Nat)
deriving Repr

structure Delivery where
  request : RequestId
  -- how many chunks the answer has, as this chunk declares
  declared : UInt32
  caching : Bool
  stage : Delivery.Stage
deriving Repr

inductive Verdict where
  | pending
  | complete
  | abandoned
deriving DecidableEq, Repr

def Verdict.name : Verdict → String
  | .pending => "Pending"
  | .complete => "Complete"
  | .abandoned => "Abandoned"

def Verdict.isFinal : Verdict → Bool
  | .pending => false
  | _ => true

structure Delivered where
  placed : Nat := 0
  filtered : Nat := 0
  verdict : Verdict
deriving DecidableEq, Repr

namespace Delivery

def keep (caching : Bool) (cache : MemberCache) (m : Member) : MemberCache :=
  if caching then cache.put m else cache

/-- Caches members up to the next one that the filter lets through, and counts the others. -/
def seek (caching : Bool) (filter : Option (Member → Bool)) (cache : MemberCache) (filtered : Nat) :
    List Member → MemberCache × Nat × Option (Member × List Member)
  | [] => (cache, filtered, none)
  | m :: ms =>
    let cache := keep caching cache m
    if passes filter m then (cache, filtered, some (m, ms))
    else seek caching filter cache (filtered + 1) ms

variable (d : Delivery) (t : TaskId)

/-- Ends a chunk whose request takes no more: the rest is cached and the sender closed. -/
def abandon (b : Book) (filter : Option (Member → Bool)) (rest : List Member)
    (placed filtered : Nat) : Move Book Delivery Delivered :=
  let cache := rest.foldl (keep d.caching) b.cache
  let rejected := rest.countP fun m => !passes filter m
  let b := b.modify d.request fun r => r.closeSender.leave t
  .done { b with cache } ⟨placed, filtered + rejected, .abandoned⟩

/-- Goes on to the next member that has to be placed, or to the end of the chunk. -/
def proceed (b : Book) (filter : Option (Member → Bool)) (last : Bool) (rest : List Member)
    (placed filtered : Nat) : Move Book Delivery Delivered :=
  match seek d.caching filter b.cache filtered rest with
  | (cache, filtered, some (m, rest)) =>
    .moved { b with cache } { d with stage := .placing m rest placed filtered }
  | (cache, filtered, none) =>
    let b := b.modify d.request fun r => (r.countChunk d.declared).leave t
    .done { b with cache } ⟨placed, filtered, if last then .complete else .pending⟩

/-- Begins with the members, at the head of the line. -/
def begin (b : Book) (r : Request) (members : List Member) : Move Book Delivery Delivered :=
  if !r.senderOpen then
    let cache := members.foldl (keep d.caching) b.cache
    .done { b.modify d.request (·.leave t) with cache } { verdict := .abandoned }
  else if r.cancelled then d.abandon t b r.filter members 0 0
  else d.proceed t b r.filter (r.completesAt d.declared) members 0 0

def advance (b : Book) : Move Book Delivery Delivered :=
  match b.requests[d.request]? with
  | none => .blocked
  | some r =>
    match d.stage with
    | .arriving members =>
      let b := b.modify d.request (·.join t)
      if r.line.isEmpty then d.begin t b r members
      else .moved b { d with stage := .inLine members }
    | .inLine members => if r.line.head? = some t then d.begin t b r members else .blocked
    | .placing m rest placed filtered =>
      if r.cancelled || !r.channel.isListening then d.abandon t b r.filter rest placed filtered
      else if r.channel.hasRoom then
        d.proceed t (b.modify d.request (·.place m)) r.filter (r.completesAt d.declared) rest
          (placed + 1) filtered
      else .blocked

/-- Gives up the place in line, wherever the chunk stands. -/
def interrupt (b : Book) : Book := b.modify d.request (·.leave t)

def Stage.weight : Stage → Nat
  | arriving members => 2 * members.length + 3
  | inLine members => 2 * members.length + 2
  | placing _ rest _ _ => 2 * rest.length + 3

def weight : Nat := d.stage.weight

end Delivery
end Rollcall
