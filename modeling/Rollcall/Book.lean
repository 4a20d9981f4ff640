import Rollcall.MemberCache
import Rollcall.Nonce
import Rollcall.Registry
import Rollcall.Request

/-!
# The book of requests

All requests ever made, by number; the registry of those that wait; the source of nonces; the cache.
A request leaves the registry when it is complete, cancelled or swept; each way out names the very
request, since its nonce may stand for a later one by then.
-/

namespace Rollcall

structure Book where
  requests : Array Request := #[]
  registry : Registry := .empty
  nonces : NonceSource
  cache : MemberCache := .empty

namespace Book

def modify (b : Book) (id : RequestId) (f : Request → Request) : Book :=
  { b with requests := b.requests.modify id f }

def nonceOf (b : Book) (id : RequestId) : String := (b.requests[id]?).elim "" Request.nonce

/-- Draws a nonce under which nothing waits, without taking it. -/
def issue (b : Book) : Option String × Book :=
  let (nonce, nonces) := b.nonces.firstFree b.registry.contains NonceSource.attempts
  (nonce, { b with nonces })

def add (b : Book) (r : Request) : RequestId × Book :=
  (b.requests.size, { b with requests := b.requests.push r })

/-- Looks at up to `n` candidates. Under the first that is free a request is made and registered;
`build` may have effects of its own. -/
def registerBy {m : Type → Type} [Monad m] (build : String → m Request) :
    Nat → Book → m (Option RequestId × Book)
  | 0, b => pure (none, b)
  | n + 1, b =>
    let (nonce, nonces) := b.nonces.next
    if b.registry.contains nonce then registerBy build n { b with nonces }
    else do
      let r ← build nonce
      let id := b.requests.size
      pure (some id, { b with
        requests := b.requests.push r, registry := b.registry.insert nonce id, nonces })

/-- Makes a request under a fresh nonce and registers it; without a nonce nothing is made. -/
def registerWith (b : Book) (build : String → Request) : Option RequestId × Book :=
  Id.run (registerBy (fun nonce => pure (build nonce)) NonceSource.attempts b)

theorem registerBy_eq {m : Type → Type} [Monad m] (build : String → m Request) (n : Nat) :
    ∀ b : Book, registerBy build n b = match b.nonces.firstFree b.registry.contains n with
      | (none, nonces) => pure (none, { b with nonces })
      | (some nonce, nonces) =>
        let id := b.requests.size
        build nonce >>= fun r => pure (some id, { b with
          requests := b.requests.push r, registry := b.registry.insert nonce id, nonces }) := by
  induction n with
  | zero => exact fun b => rfl
  | succ n ih =>
    intro b
    simp only [registerBy, NonceSource.firstFree]
    by_cases ht : b.registry.contains b.nonces.next.1
    · rw [if_pos ht, if_pos ht]
      exact ih { b with nonces := b.nonces.next.2 }
    · rw [if_neg ht, if_neg ht]

/-- Registering a request takes the nonce that would be issued. -/
theorem registerWith_eq (b : Book) (build : String → Request) :
    b.registerWith build = match b.issue with
      | (none, b) => (none, b)
      | (some nonce, b) =>
        let id := b.requests.size
        (some id, { b with
          requests := b.requests.push (build nonce), registry := b.registry.insert nonce id }) := by
  rw [registerWith, registerBy_eq, issue]
  cases b.nonces.firstFree b.registry.contains NonceSource.attempts with
  | mk nonce nonces => cases nonce <;> rfl

def register (b : Book) (id : RequestId) : Bool × Book :=
  match b.requests[id]? with
  | none => (false, b)
  | some r =>
    if b.registry.contains r.nonce then (false, b)
    else (true, { b with registry := b.registry.insert r.nonce id })

def lookup (b : Book) (nonce : String) : Option RequestId := b.registry.get? nonce

def deregister (b : Book) (nonce : String) : Option RequestId × Book :=
  (b.registry.get? nonce, { b with registry := b.registry.erase nonce })

def deregisterRequest (b : Book) (id : RequestId) : Bool × Book :=
  match b.requests[id]? with
  | none => (false, b)
  | some r =>
    if b.registry.holds r.nonce id then (true, { b with registry := b.registry.erase r.nonce })
    else (false, b)

def drain (b : Book) : List RequestId × Book :=
  (b.registry.toList.map (·.2), { b with registry := .empty })

/-! ## Ends of a request -/

def cancel (b : Book) (id : RequestId) : Bool × Book :=
  match b.requests[id]? with
  | none => (false, b)
  | some r =>
    if r.complete then (false, b)
    else match b.deregisterRequest id with
      | (false, b) => (false, b)
      | (true, b) => (true, b.modify id .close)

/-- Cancels one swept request, unless it has its last chunk already. -/
def sweep (acc : Nat × Book) (id : RequestId) : Nat × Book :=
  match acc.2.requests[id]? with
  | none => acc
  | some r => if r.complete then acc else (acc.1 + 1, acc.2.modify id .close)

def shutdown (b : Book) : Nat × Book :=
  let (ids, b) := b.drain
  ids.foldl sweep (0, b)

def isCancelled (b : Book) (id : RequestId) : Bool :=
  match b.requests[id]? with
  | none => false
  | some r => r.cancelled

/-! ## Reading -/

def recv (b : Book) (id : RequestId) : Reading × Book :=
  match b.requests[id]? with
  | none => (.ended, b)
  | some r => (r.reading, b.modify id .afterReading)

/-- Reads on as long as there are members; gives them with what comes after the last. -/
def recvAll (b : Book) (id : RequestId) : List Member × Reading × Book :=
  match b.requests[id]? with
  | none => ([], .ended, b)
  | some r => go r.channel.unread.length b []
where
  go : Nat → Book → List Member → List Member × Reading × Book
    | 0, b, got => (got.reverse, (b.recv id).1, b)
    | n + 1, b, got =>
      match b.recv id with
      | (.member m, b) => go n b (m :: got)
      | (end?, b) => (got.reverse, end?, b)

/-- Drops the stream of a request: the request is cancelled if it still waits, and no more is read.
-/
def dropStream (b : Book) (id : RequestId) : Book := (b.cancel id).2.modify id .dropReceiver

end Book
end Rollcall
