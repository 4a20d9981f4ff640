import Mathlib.Logic.Function.Basic
import Rollcall.Proofs.History
import Rollcall.Proofs.Upkeep

/-!
# Changes of a scene

A scene is what matters of a hub to its requests: the book, the tasks and the streams of the caller.
`Change` lists the changes that a scene can undergo, each with what is written into the journal.
What holds of a new scene and is kept by every change holds of every scene that is `Reached`.
-/

namespace Rollcall

structure Scene where
  book : Book
  tasks : TaskId → Option Task
  started : Nat
  streams : List RequestId

/-- What matters of a hub to its requests. -/
def Hub.scene (h : Hub) : Scene := ⟨h.book, h.task?, h.tasks.size, h.streams⟩

def Book.settle (b : Book) (id : RequestId) (v : Verdict) : Book :=
  if v.isFinal then (b.deregisterRequest id).2 else b

namespace Task

def Idle (task : Task) : Prop := task.stream? = none ∧ task.delivery? = none

end Task

namespace Scene

def set (s : Scene) (t : TaskId) (task : Option Task) : Scene :=
  { s with tasks := Function.update s.tasks t task }

def spawn (s : Scene) (task : Task) : Scene :=
  { s with tasks := Function.update s.tasks s.started (some task), started := s.started + 1 }

def delivery? (s : Scene) (t : TaskId) : Option Delivery := (s.tasks t).bind Task.delivery?

def stream? (s : Scene) (t : TaskId) : Option RequestId := (s.tasks t).bind Task.stream?

end Scene

def Request.Fresh (r : Request) : Prop :=
  ∃ nonce guild filter capacity, r = { nonce, guild, filter, channel := { capacity } }

inductive Change (s : Scene) : List Occurrence → Scene → Prop
  -- a call is started; one that watches a token may take any time
  | call {c : Call} (hs : c.stage = .starting)
      (hd : c.deadline = none ∧ ∀ token, c.goal = .members (some token) → c.timeout = none) :
      Change s [.called s.started c.goal] (s.spawn (.call c))
  | attend {task : Task} (ha : task.Attends) (hd : task.delivery? = none) :
      Change s [] (s.spawn task)
  | read {id : RequestId} (hid : id ∈ s.streams) (goal : ReadGoal) :
      Change s [] ({ s with streams := s.streams.erase id }.spawn (.reader id goal []))
  | recv {id : RequestId} {m : Member} {b : Book} (hid : id ∈ s.streams)
      (hb : s.book.recv id = (.member m, b)) : Change s [.yielded id m] { s with book := b }
  | cancel (id : RequestId) : Change s [] { s with book := (s.book.cancel id).2 }
  | discard {id : RequestId} (hid : id ∈ s.streams) :
      Change s [] { s with book := s.book.dropStream id, streams := s.streams.erase id }
  | shutdown : Change s [] { s with book := s.book.shutdown.2 }
  -- nonces are drawn in vain
  | draw (nonces : NonceSource) : Change s [] { s with book := { s.book with nonces } }
  | make {t : TaskId} {c : Call} {build : String → Request} {id : RequestId} {b : Book}
      (ht : s.tasks t = some (.call c)) (hs : c.stage = .starting)
      (hf : ∀ nonce, (build nonce).Fresh ∧ (build nonce).nonce = nonce)
      (hb : s.book.registerWith build = (some id, b)) (now : Duration)
      (result : Option SendResult) :
      Change s [.made t id]
        ({ s with book := b }.set t (some (.call { c.timed now with stage := .sending id result })))
  | release {t : TaskId} {c : Call} {id : RequestId} (ht : s.tasks t = some (.call c))
      (hs : c.stage = .sending id none) (result : SendResult) :
      Change s [] (s.set t (some (.call { c with stage := .sending id (some result) })))
  -- a call hands its stream to the caller
  | handOut {t : TaskId} {c : Call} {id : RequestId} {result : Option SendResult}
      (ht : s.tasks t = some (.call c)) (hs : c.stage = .sending id result)
      (hg : c.goal = .stream) :
      Change s [] ({ s with streams := s.streams ++ [id] }.set t none)
  -- a call begins to gather members
  | begin {t : TaskId} {c : Call} {id : RequestId} {result : Option SendResult}
      {token : Option Token} (ht : s.tasks t = some (.call c)) (hs : c.stage = .sending id result)
      (hg : c.goal = .members token) :
      Change s [] (s.set t (some (.call { c with stage := .reading id [] })))
  | gather {t : TaskId} {c : Call} {id : RequestId} {got : List Member} {m : Member} {b : Book}
      (ht : s.tasks t = some (.call c)) (hs : c.stage = .reading id got)
      (hb : s.book.recv id = (.member m, b)) :
      Change s [.yielded id m]
        ({ s with book := b }.set t (some (.call { c with stage := .reading id (m :: got) })))
  | take {t : TaskId} {goal : ReadGoal} {id : RequestId} {got : List Member} {m : Member} {b : Book}
      (ht : s.tasks t = some (.reader id goal got)) (hb : s.book.recv id = (.member m, b)) :
      Change s [.yielded id m] ({ s with book := b }.set t (some (.reader id goal (m :: got))))
  -- a task ends and drops the stream it owns
  | leave {t : TaskId} {task : Task} {id : RequestId} (ht : s.tasks t = some task)
      (hs : task.stream? = some id) :
      Change s [] ({ s with book := s.book.dropStream id }.set t none)
  -- a task ends that holds nothing
  | stop {t : TaskId} {task : Task} (ht : s.tasks t = some task) (hi : task.Idle) :
      Change s [] (s.set t none)
  -- a chunk is matched and joins the line of its request
  | arrive {t : TaskId} {task task' : Task} {d : Delivery} {c : Chunk} {n : String}
      (ht : s.tasks t = some task) (ha : task.Attends) (hd : task.delivery? = none)
      (hc : c.nonce = some n) (hn : s.book.registry.get? n = some d.request)
      (hr : s.book.requests[d.request]? ≠ none) (hs : d.stage = .inLine c.stamped)
      (ha' : task'.Attends) (hd' : task'.delivery? = some d) (hf : d.declared = c.count) :
      Change s [.arrived t d.request c]
        ({ s with book := s.book.modify d.request (·.join t) }.set t (some task'))
  | advance {t : TaskId} {task task' : Task} {d d' : Delivery} {b : Book}
      (ht : s.tasks t = some task) (hd : task.delivery? = some d)
      (hb : d.advance t s.book = .moved b d') (ha' : task'.Attends)
      (hd' : task'.delivery? = some d') : Change s [] ({ s with book := b }.set t (some task'))
  | settle {t : TaskId} {task : Task} {last : Option Task} {d : Delivery} {b : Book}
      {r : Delivered} (ht : s.tasks t = some task) (hd : task.delivery? = some d)
      (hb : d.advance t s.book = .done b r)
      (hl : ∀ task' ∈ last, task'.Attends ∧ task'.delivery? = none) :
      Change s [.settled t d.request r]
        ({ s with book := b.settle d.request r.verdict }.set t last)
  -- a task ends in the middle of a chunk
  | interrupt {t : TaskId} {task : Task} {d : Delivery} (ht : s.tasks t = some task)
      (hd : task.delivery? = some d) :
      Change s [.interrupted t d.request]
        ({ s with book := d.interrupt t s.book }.set t none)

inductive Changes (s : Scene) : List Occurrence → Scene → Prop
  | none : Changes s [] s
  | more {os os' : List Occurrence} {s' s'' : Scene} (hs : Changes s os s')
      (h : Change s' os' s'') : Changes s (os ++ os') s''

theorem Changes.one {s s' : Scene} {os : List Occurrence} (h : Change s os s') :
    Changes s os s' := by
  simpa using Changes.none.more h

theorem Changes.to {s s' s'' : Scene} {os : List Occurrence} (h : Changes s os s')
    (e : s' = s'') : Changes s os s'' := e ▸ h

theorem Changes.trans {s s' s'' : Scene} {os os' : List Occurrence} (h : Changes s os s')
    (h' : Changes s' os' s'') : Changes s (os ++ os') s'' := by
  induction h' with
  | none => simpa using h
  | more _ hc ih => simpa using ih.more hc

theorem Changes.two {s s' s'' : Scene} {os os' : List Occurrence} (h : Change s os s')
    (h' : Change s' os' s'') : Changes s (os ++ os') s'' :=
  (Changes.one h).more h'

/-! ## Reached scenes -/

/-- The scenes that histories lead to, each with its journal. -/
inductive Reached : List Occurrence → Scene → Prop
  | new (nonces : NonceSource) : Reached [] ⟨{ nonces }, fun _ => none, 0, []⟩
  | step {j os : List Occurrence} {s s' : Scene} (hr : Reached j s) (h : Change s os s') :
      Reached (j ++ os) s'

theorem Reached.keep {P : Scene → Prop} {j os : List Occurrence} {s s' : Scene} (hr : Reached j s)
    (h : Changes s os s') (h0 : P s)
    (hs : ∀ {j os : List Occurrence} {s s' : Scene}, Reached j s → Change s os s' → P s → P s') :
    P s' := by
  suffices both : P s' ∧ ∃ j', Reached j' s' from both.1
  induction h with
  | none => exact ⟨h0, j, hr⟩
  | more _ hc ih =>
    obtain ⟨hp, j', hr'⟩ := ih
    exact ⟨hs hr' hc hp, _, hr'.step hc⟩

theorem Reached.changes {j os : List Occurrence} {s s' : Scene} (hr : Reached j s)
    (h : Changes s os s') : Reached (j ++ os) s' := by
  induction h with
  | none => simpa using hr
  | more _ hc ih => simpa using ih.step hc

end Rollcall
