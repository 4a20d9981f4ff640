import Mathlib.Logic.Function.Iterate
import Rollcall.Proofs.Calm
import Rollcall.Proofs.Dealing
import Rollcall.Proofs.Sifting

/-!
# Two calls that start alike

A call for members is started in a hub at rest in which all that is registered is read. Until an
event comes nothing moves but the call (`Opening.idle`), and each of its segments does the same
whether its inquiry has a filter or not (`advance_sift`). So when no task can move, the two hubs
differ in that one filter only (`opened_alike`).
-/

namespace Rollcall

def Move.map {σ σ' τ τ' ρ : Type} (f : σ → σ') (g : τ → τ') : Move σ τ ρ → Move σ' τ' ρ
  | .blocked => .blocked
  | .moved s x => .moved (f s) (g x)
  | .done s o => .done (f s) o

def Inquiry.sift (keep : Member → Bool) (i : Inquiry) : Inquiry := { i with filter := some keep }

def Call.sift (keep : Member → Bool) (c : Call) : Call := { c with inquiry := c.inquiry.sift keep }

def Task.sift (keep : Member → Bool) : Task → Task
  | .call c => .call (c.sift keep)
  | task => task

variable {keep : Member → Bool} {id : RequestId} {i : Inquiry} {c : Call} {t t' : TaskId}

/-! ## Books -/

structure Request.Bare (r : Request) : Prop where
  plain : r.filter = none
  read : r.channel.read = []
  unread : r.channel.unread = []

def Book.Bare (b : Book) (id : RequestId) : Prop := ∀ r, b.requests[id]? = some r → r.Bare

structure Book.Adds (b : Book) (id : RequestId) (b' : Book) : Prop where
  others : ∀ i, i ≠ id → b'.requests[i]? = b.requests[i]?
  bare : b'.Bare id

namespace Book

variable {b : Book}

theorem nonceOf_sift (b : Book) (id : RequestId) (keep : Member → Bool) :
    (b.sift id keep).nonceOf id = b.nonceOf id := by
  rw [nonceOf, nonceOf, getElem?_sift]
  cases b.requests[id]? <;> rfl

theorem isCancelled_sift (b : Book) (id : RequestId) (keep : Member → Bool) :
    (b.sift id keep).isCancelled id = b.isCancelled id := by
  rw [isCancelled, isCancelled, getElem?_sift]
  cases b.requests[id]? <;> rfl

theorem registerWith_sift (b : Book) (build : String → Request) :
    (b.sift b.requests.size keep).registerWith (fun nonce => (build nonce).sift keep) =
      ((b.registerWith build).1, (b.registerWith build).2.sift b.requests.size keep) := by
  have hissue : (b.sift b.requests.size keep).issue =
      (b.issue.1, b.issue.2.sift b.requests.size keep) := rfl
  have hpush (r : Request) : (b.requests.modify b.requests.size (Request.sift keep)).push
      (r.sift keep) = (b.requests.push r).modify b.requests.size (Request.sift keep) := by
    apply Array.ext_getElem?
    intro k
    simp only [Array.getElem?_push, Array.getElem?_modify, Array.size_modify]
    by_cases hk : k = b.requests.size
    · simp [hk]
    · simp [hk, Ne.symm hk]
  have hbooks : b.issue.2.requests = b.requests := rfl
  rw [registerWith_eq, registerWith_eq]
  rw [hissue]
  generalize b.issue = drawn at hbooks
  obtain ⟨nonce, b'⟩ := drawn
  replace hbooks : b'.requests = b.requests := hbooks
  cases nonce with
  | none => rfl
  | some nonce => simp only [sift, modify, Array.size_modify, hbooks, hpush]

theorem dropStream_sift (b : Book) (id : RequestId) (keep : Member → Bool) :
    (b.sift id keep).dropStream id = (b.dropStream id).sift id keep := by
  have hcancel : (b.sift id keep).cancel id =
      ((b.cancel id).1, (b.cancel id).2.sift id keep) := by
    have hderegister := b.deregisterRequest_modify (f := Request.sift keep) (fun _ => rfl) id id
    unfold cancel
    rw [getElem?_sift]
    cases b.requests[id]? with
    | none => rfl
    | some r =>
      have hsame : (r.sift keep).complete = r.complete := rfl
      simp only [Option.map_some, hsame, sift, hderegister]
      split
      · rfl
      · obtain ⟨found, b'⟩ := b.deregisterRequest id
        cases found with
        | false => rfl
        | true =>
          simp only [modify_modify]
          rfl
  rw [dropStream, hcancel, dropStream, sift, sift, modify_modify, modify_modify]
  rfl

/-- What becomes of the book of a stream that is dropped, but for its registry. -/
theorem requests_dropStream (b : Book) (id : RequestId) :
    ∃ f : Request → Request, (∀ r, (f r).filter = r.filter ∧ (f r).channel.read = r.channel.read ∧
      (f r).channel.unread = r.channel.unread) ∧
      (b.dropStream id).requests = b.requests.modify id f := by
  rcases b.cancel_cases id with he | ⟨r, -, -, -, he⟩
  · refine ⟨Request.dropReceiver, fun _ => ⟨rfl, rfl, rfl⟩, ?_⟩
    rw [dropStream, he]
    rfl
  · refine ⟨Request.dropReceiver ∘ Request.close, fun _ => ⟨rfl, rfl, rfl⟩, ?_⟩
    rw [dropStream, he]
    exact congrArg requests (b.modify_modify id Request.close Request.dropReceiver)

theorem adds_self (hb : b.Bare id) : b.Adds id b := ⟨fun _ _ => rfl, hb⟩

theorem Adds.trans {b' b'' : Book} (h : b.Adds id b') (h' : b'.Adds id b'') : b.Adds id b'' where
  others i hi := (h'.others i hi).trans (h.others i hi)
  bare := h'.bare

theorem adds_dropStream (hb : b.Bare id) : b.Adds id (b.dropStream id) := by
  obtain ⟨f, hf, he⟩ := b.requests_dropStream id
  constructor
  · intro i hi
    rw [he, Array.getElem?_modify, if_neg (Ne.symm hi)]
  · intro r hr
    rw [he, Array.getElem?_modify, if_pos rfl, Option.map_eq_some_iff] at hr
    obtain ⟨r₀, hr₀, rfl⟩ := hr
    obtain ⟨hfilter, hread, hunread⟩ := hf r₀
    have hbare := hb r₀ hr₀
    exact ⟨hfilter.trans hbare.plain, hread.trans hbare.read, hunread.trans hbare.unread⟩

theorem adds_registerWith {build : String → Request} (hbuild : ∀ nonce, (build nonce).Bare) :
    b.Adds b.requests.size (b.registerWith build).2 := by
  have hnone : b.requests[b.requests.size]? = none := by simp
  rcases b.registerWith_cases build with ⟨-, he⟩ | ⟨k, -, -, he⟩
  · rw [he]
    exact ⟨fun _ _ => rfl, fun r hr => by cases hnone.symm.trans hr⟩
  · rw [he]
    constructor
    · intro i hi
      simp [enter, Array.getElem?_push, hi]
    · intro r hr
      simp only [enter, Array.getElem?_push_size, Option.some.injEq] at hr
      subst hr
      exact hbuild _

end Book

/-! ## Segments of a call -/

/-- Whether a call has read nothing yet of request `id`, which it may still have to make, without a
filter. -/
inductive Call.Early (c : Call) (id : RequestId) (b : Book) : Prop
  | starting (hs : c.stage = .starting) (hid : b.requests.size = id) (hi : c.inquiry.filter = none)
  | held (hs : c.stage = .sending id none)
  | reading (hs : c.stage = .reading id [])

namespace Hub

variable {h : Hub} {s g : Hub}

def sift (h : Hub) (keep : Member → Bool) (t : TaskId) (id : RequestId) : Hub :=
  { h with book := h.book.sift id keep, tasks := h.tasks.modify t (Option.map (Task.sift keep)) }

theorem task?_sift (h : Hub) (keep : Member → Bool) (t : TaskId) (id : RequestId) (t' : TaskId) :
    (h.sift keep t id).task? t' =
      if t' = t then (h.task? t').map (Task.sift keep) else h.task? t' := by
  simp only [task?, sift, Array.getElem?_modify]
  by_cases ht : t = t'
  · subst ht
    rw [if_pos rfl, if_pos rfl]
    cases h.tasks[t]? with
    | none => rfl
    | some x => cases x <;> rfl
  · rw [if_neg ht, if_neg (Ne.symm ht)]

theorem dropStream_sift (h : Hub) (keep : Member → Bool) (t : TaskId) (id : RequestId) :
    (h.sift keep t id).dropStream id = (h.dropStream id).sift keep t id := by
  simp only [dropStream, sift, Book.dropStream_sift]

theorem handOver_sift (h : Hub) (keep : Member → Bool) (t : TaskId) (id : RequestId) (index : Nat)
    (shard : Shard) (command : MemberCommand) :
    (h.sift keep t id).handOver t index shard command =
      ((h.handOver t index shard command).1, (h.handOver t index shard command).2.sift keep t id) := by
  unfold handOver
  simp only
  split <;> rfl

/-- The part of a start that follows the checks. -/
def enlist (h : Hub) (t : TaskId) (i : Inquiry) (index : Nat) (shard : Shard) : Started × Hub :=
  match h.book.registerWith (i.request h.limits.capacity.toNat) with
  | (none, book) => (.failed (.nonceExhausted NonceSource.attempts), { h with book })
  | (some id, book) =>
    let command := i.command (book.nonceOf id) (shard.intents.contains .guildPresences)
    let (result, h) := { h with book }.handOver t index shard command
    (.sent id result, h)

theorem enlist_sift (h : Hub) (keep : Member → Bool) (t : TaskId) (i : Inquiry) (index : Nat)
    (shard : Shard) : (h.sift keep t h.book.requests.size).enlist t (i.sift keep) index shard =
      ((h.enlist t i index shard).1,
        (h.enlist t i index shard).2.sift keep t h.book.requests.size) := by
  have hregister : (h.sift keep t h.book.requests.size).book.registerWith
      ((i.sift keep).request h.limits.capacity.toNat) = _ :=
    h.book.registerWith_sift (i.request h.limits.capacity.toNat)
  have hlimits : (h.sift keep t h.book.requests.size).limits = h.limits := rfl
  have hmade := h.book.registerWith_cases (i.request h.limits.capacity.toNat)
  unfold enlist
  rw [hlimits, hregister]
  generalize h.book.registerWith (i.request h.limits.capacity.toNat) = made at hmade
  obtain ⟨made, b⟩ := made
  cases made with
  | none => rfl
  | some id =>
    obtain rfl : id = h.book.requests.size := by
      rcases hmade with ⟨-, he⟩ | ⟨k, -, -, he⟩
      · cases he
      · cases he
        rfl
    have hover := handOver_sift { h with book := b } keep t h.book.requests.size index shard
      (i.command (b.nonceOf h.book.requests.size) (shard.intents.contains .guildPresences))
    have hcommand (nonce : String) (presences : Bool) :
        (i.sift keep).command nonce presences = i.command nonce presences := rfl
    simp only [Book.nonceOf_sift, hcommand]
    exact congrArg (fun p : Option SendResult × Hub => (Started.sent h.book.requests.size p.1, p.2))
      hover

/-- The checks before look at nothing but the shards, the limits, the guild and the scope. -/
theorem start_checks (h : Hub) (t : TaskId) (i : Inquiry) :
    (∃ st, (∀ id res, st ≠ Started.sent id res) ∧ ∀ (g : Hub) (f : Option (Member → Bool)),
      g.shards = h.shards → g.limits = h.limits → g.start t { i with filter := f } = (st, g)) ∨
    ∃ index shard, ∀ (g : Hub) (f : Option (Member → Bool)),
      g.shards = h.shards → g.limits = h.limits →
        g.start t { i with filter := f } = g.enlist t { i with filter := f } index shard := by
  have hrefusal (f : Option (Member → Bool)) :
      ({ i with filter := f } : Inquiry).refusal? h.limits = i.refusal? h.limits := rfl
  cases hroute : Shard.route h.shards.size i.guild with
  | error f => exact .inl ⟨.failed f, nofun, fun g _ hs hl => by simp only [start, hs, hroute]⟩
  | ok index =>
    cases hshard : h.shards[index]? with
    | none =>
      exact .inl ⟨.failed (.shardNotFound i.guild), nofun, fun g _ hs hl => by
        simp only [start, hs, hroute, hshard]⟩
    | some shard =>
      by_cases hm : shard.intents.missing .guildMembers = true
      · exact .inl ⟨.failed (.missingIntent .guildMembers), nofun, fun g _ hs hl => by
          simp only [start, hs, hroute, hshard, if_pos hm]⟩
      cases hr : i.refusal? h.limits with
      | some f =>
        exact .inl ⟨.failed f, nofun, fun g _ hs hl => by
          simp only [start, hs, hl, hroute, hshard, if_neg hm, hrefusal, hr]⟩
      | none =>
        by_cases hbig : Limits.greatestCapacity < h.limits.capacity.toNat
        · exact .inl ⟨.oversized, nofun, fun g _ hs hl => by
            simp only [start, hs, hl, hroute, hshard, if_neg hm, hrefusal, hr, if_pos hbig]⟩
        · refine .inr ⟨index, shard, fun g f hs hl => ?_⟩
          simp only [start, hs, hl, hroute, hshard, if_neg hm, hrefusal, hr, if_neg hbig]
          simp only [enlist, hs, hl]
          rfl

theorem start_sift (h : Hub) (keep : Member → Bool) (t : TaskId) (i : Inquiry) :
    (h.sift keep t h.book.requests.size).start t (i.sift keep) =
      ((h.start t i).1, (h.start t i).2.sift keep t h.book.requests.size) := by
  rcases h.start_checks t i with ⟨st, -, hst⟩ | ⟨index, shard, hen⟩
  · rw [show h.start t i = (st, h) from hst h i.filter rfl rfl]
    exact hst _ (some keep) rfl rfl
  · rw [show h.start t i = h.enlist t i index shard from hen h i.filter rfl rfl]
    exact (hen (h.sift keep t h.book.requests.size) (some keep) rfl rfl).trans
      (h.enlist_sift keep t i index shard)

theorem enlist_adds (hi : i.filter = none) (index : Nat) (shard : Shard) :
    h.book.Adds h.book.requests.size (h.enlist t i index shard).2.book ∧
      ∀ id res, (h.enlist t i index shard).1 = .sent id res → id = h.book.requests.size := by
  have hbare (nonce : String) : (i.request h.limits.capacity.toNat nonce).Bare := ⟨hi, rfl, rfl⟩
  have hadds := h.book.adds_registerWith hbare
  have hmade := h.book.registerWith_cases (i.request h.limits.capacity.toNat)
  unfold enlist
  generalize h.book.registerWith (i.request h.limits.capacity.toNat) = made at hadds hmade
  obtain ⟨made, b⟩ := made
  cases made with
  | none => exact ⟨hadds, nofun⟩
  | some id =>
    constructor
    · simp only [handOver]
      split <;> exact hadds
    · rintro id' res he
      cases he
      rcases hmade with ⟨-, he⟩ | ⟨k, -, -, he⟩
      · cases he
      · cases he
        rfl

theorem start_adds (h : Hub) (t : TaskId) (hi : i.filter = none) :
    h.book.Adds h.book.requests.size (h.start t i).2.book ∧
      ∀ id res, (h.start t i).1 = .sent id res → id = h.book.requests.size := by
  rcases h.start_checks t i with ⟨st, hne, hst⟩ | ⟨index, shard, hen⟩
  · rw [show h.start t i = (st, h) from hst h i.filter rfl rfl]
    refine ⟨Book.adds_self fun r hr => ?_, fun id res he => absurd he (hne id res)⟩
    simp at hr
  · rw [show h.start t i = h.enlist t i index shard from hen h i.filter rfl rfl]
    exact enlist_adds hi index shard

/-! ## Segments of a call -/

def Begins (b : Book) (id : RequestId) : Move Hub Call Outcome → Prop
  | .blocked => True
  | .moved g c => b.Adds id g.book ∧ c.Early id g.book
  | .done g o => b.Adds id g.book ∧ ∀ ms, o = .members ms → ms = []

theorem afterSend_begins {b : Book} (hadds : b.Adds id h.book) (c : Call) (result : SendResult) :
    Begins b id (h.afterSend c id result) := by
  unfold afterSend
  split
  · exact ⟨hadds.trans (Book.adds_dropStream hadds.bare), nofun⟩
  · split
    · exact ⟨hadds, nofun⟩
    · exact ⟨hadds, .reading rfl⟩

theorem afterSend_sift (h : Hub) (keep : Member → Bool) (t : TaskId) (c : Call) (id : RequestId)
    (result : SendResult) : (h.sift keep t id).afterSend (c.sift keep) id result =
      (h.afterSend c id result).map (·.sift keep t id) (Call.sift keep) := by
  have hgoal : (c.sift keep).goal = c.goal := rfl
  have hnonce := h.book.nonceOf_sift id keep
  cases result with
  | refused cause => simp only [afterSend, dropStream_sift, Move.map]
  | sent =>
    simp only [afterSend, hgoal]
    cases c.goal with
    | stream => simp only [Move.map, sift, hnonce]
    | members token => rfl

theorem expire_begins (hb : h.book.Bare id) (hc : c.Early id h.book) :
    Begins h.book id (h.expire c) := by
  unfold expire
  split
  · trivial
  split
  · trivial
  refine ⟨?_, nofun⟩
  cases hc with
  | starting hs =>
    simp only [hs]
    exact Book.adds_self hb
  | held hs =>
    simp only [hs]
    exact Book.adds_dropStream hb
  | reading hs =>
    simp only [hs]
    exact Book.adds_dropStream hb

theorem expire_sift (hc : c.Early id h.book) : (h.sift keep t id).expire (c.sift keep) =
    (h.expire c).map (·.sift keep t id) (Call.sift keep) := by
  have hdeadline : (c.sift keep).deadline = c.deadline := rfl
  have hstage : (c.sift keep).stage = c.stage := rfl
  have hnow : (h.sift keep t id).now = h.now := rfl
  simp only [expire, hdeadline, hstage, hnow]
  cases c.deadline with
  | none => rfl
  | some d =>
    simp only
    split
    · rfl
    cases hc with
    | starting hs => simp only [hs, Move.map]
    | held hs => simp only [hs, Move.map, dropStream_sift]
    | reading hs => simp only [hs, Move.map, dropStream_sift]

theorem advanceStart_begins (hi : c.inquiry.filter = none) :
    Begins h.book h.book.requests.size (h.advanceStart t c) := by
  unfold advanceStart
  split
  · refine ⟨Book.adds_self fun r hr => ?_, nofun⟩
    simp at hr
  obtain ⟨hadds, hid⟩ := h.start_adds t hi
  split
  · rename_i heq
    rw [heq] at hadds
    exact ⟨hadds, nofun⟩
  · rename_i heq
    rw [heq] at hadds
    exact ⟨hadds, nofun⟩
  · rename_i id g heq
    rw [heq] at hadds hid
    obtain rfl := hid id none rfl
    exact ⟨hadds, .held rfl⟩
  · rename_i id result g heq
    rw [heq] at hadds hid
    obtain rfl := hid id (some result) rfl
    exact afterSend_begins hadds (c.timed h.now) result

theorem advanceStart_sift (hi : c.inquiry.filter = none) :
    (h.sift keep t h.book.requests.size).advanceStart t (c.sift keep) =
      (h.advanceStart t c).map (·.sift keep t h.book.requests.size) (Call.sift keep) := by
  have htoken : (h.sift keep t h.book.requests.size).tokenCancelled (watched (c.sift keep).goal) =
      h.tokenCancelled (watched c.goal) := rfl
  have hstart := h.start_sift keep t c.inquiry
  obtain ⟨-, hid⟩ := h.start_adds t hi
  have hinquiry : (c.sift keep).inquiry = c.inquiry.sift keep := rfl
  unfold advanceStart
  rw [htoken, hinquiry, hstart]
  split
  · rfl
  generalize h.start t c.inquiry = next at hid
  obtain ⟨st, g⟩ := next
  cases st with
  | failed f => rfl
  | oversized => rfl
  | sent id result =>
    obtain rfl := hid id result rfl
    cases result with
    | none => rfl
    | some result => exact g.afterSend_sift keep t (c.timed h.now) _ result

theorem advanceReading_begins (hb : h.book.Bare id) (c : Call) :
    Begins h.book id (h.advanceReading c id []) := by
  have hdropped := Book.adds_dropStream hb
  unfold advanceReading
  split
  · exact ⟨hdropped, nofun⟩
  split
  · rename_i m b heq
    obtain ⟨r, rest, hr, -, hu, -⟩ := Book.recv_member heq
    rw [(hb r hr).unread] at hu
    cases hu
  · trivial
  · refine ⟨hdropped, ?_⟩
    split
    · exact nofun
    · rintro ms ⟨⟩
      rfl

/-- A sifted stream into which nothing has been placed gives out what it would give out otherwise.
-/
theorem recv_sift (hb : h.book.Bare id) :
    ((h.sift keep t id).book.recv id).1 = (h.book.recv id).1 := by
  cases hq : h.book.requests[id]? with
  | none =>
    have hq' : (h.sift keep t id).book.requests[id]? = none := by
      simp [sift, Book.getElem?_sift, hq]
    rw [Book.recv_none hq, Book.recv_none hq']
  | some r =>
    have hq' : (h.sift keep t id).book.requests[id]? = some (r.sift keep) := by
      simp [sift, Book.getElem?_sift, hq]
    rw [Book.recv_eq hq, Book.recv_eq hq']
    simp [Request.reading, Request.sift, Channel.sift, (hb r hq).unread, Channel.isListening]

theorem advanceReading_sift (hb : h.book.Bare id) (c : Call) :
    (h.sift keep t id).advanceReading (c.sift keep) id [] =
      (h.advanceReading c id []).map (·.sift keep t id) (Call.sift keep) := by
  have htoken : (h.sift keep t id).tokenCancelled (watched (c.sift keep).goal) =
      h.tokenCancelled (watched c.goal) := rfl
  have hcancelled : (h.sift keep t id).book.isCancelled id = h.book.isCancelled id :=
    h.book.isCancelled_sift id keep
  have hrecv : ((h.sift keep t id).book.recv id).1 = (h.book.recv id).1 := recv_sift hb
  unfold advanceReading
  rw [htoken, hcancelled, dropStream_sift]
  split
  · rfl
  cases hread : h.book.recv id with
  | mk found b =>
    rw [hread] at hrecv
    cases hread' : (h.sift keep t id).book.recv id with
    | mk found' b' =>
      rw [hread'] at hrecv
      cases hrecv
      cases found with
      | member m =>
        obtain ⟨r, rest, hr, -, hu, -⟩ := Book.recv_member hread
        rw [(hb r hr).unread] at hu
        cases hu
      | pending => rfl
      | ended => rfl

theorem advanceCall_begins (hb : h.book.Bare id) (hc : c.Early id h.book) :
    Begins h.book id (h.advanceCall t c) := by
  unfold advanceCall
  extract_lets inner
  have hinner : Begins h.book id inner := by
    simp only [inner]
    cases hc with
    | starting hs hid hi =>
      subst hid
      simp only [hs]
      exact advanceStart_begins hi
    | held hs =>
      simp only [hs]
      trivial
    | reading hs =>
      simp only [hs]
      exact advanceReading_begins hb c
  clear_value inner
  cases inner with
  | blocked => exact expire_begins hb hc
  | moved g c' => exact hinner
  | done g o => exact hinner

theorem advanceCall_sift (hb : h.book.Bare id) (hc : c.Early id h.book) :
    (h.sift keep t id).advanceCall t (c.sift keep) =
      (h.advanceCall t c).map (·.sift keep t id) (Call.sift keep) := by
  have hstage : (c.sift keep).stage = c.stage := rfl
  have hexpire : (h.sift keep t id).expire (c.sift keep) =
      (h.expire c).map (·.sift keep t id) (Call.sift keep) := expire_sift hc
  unfold advanceCall
  cases hc with
  | starting hs hid hi =>
    subst hid
    simp only [hstage, hs, advanceStart_sift hi]
    cases h.advanceStart t c with
    | blocked => exact hexpire
    | moved g c' => rfl
    | done g o => rfl
  | held hs =>
    simp only [hstage, hs]
    exact hexpire
  | reading hs =>
    simp only [hstage, hs, advanceReading_sift hb]
    cases h.advanceReading c id [] with
    | blocked => exact hexpire
    | moved g c' => rfl
    | done g o => rfl

/-- A segment of an early call is the same with the request sifted, and its inquiry. -/
theorem advance_sift (ht : h.task? t = some (.call c)) (hb : h.book.Bare id)
    (hc : c.Early id h.book) :
    (h.sift keep t id).advance t = (h.advance t).map (·.sift keep t id) := by
  have ht' : (h.sift keep t id).task? t = some (.call (c.sift keep)) := by
    rw [task?_sift, if_pos rfl, ht]
    rfl
  have hset (g : Hub) (x : Option Task) : (g.sift keep t id).setTask t (x.map (Task.sift keep)) =
      (g.setTask t x).sift keep t id := by
    simp only [setTask, sift]
    congr 1
    apply Array.ext_getElem?
    intro k
    simp only [Array.getElem?_modify, Array.getElem?_setIfInBounds, Array.size_modify]
    by_cases hk : t = k
    · subst hk
      by_cases hlt : t < g.tasks.size
      · simp [hlt]
      · simp [hlt]
    · simp [hk]
  have hmove : (h.sift keep t id).advanceCall t (c.sift keep) =
      (h.advanceCall t c).map (·.sift keep t id) (Call.sift keep) := advanceCall_sift hb hc
  unfold advance
  rw [ht, ht']
  simp only [advanceTask, hmove]
  cases h.advanceCall t c with
  | blocked => rfl
  | moved g c' => exact congrArg some (hset g (some (.call c')))
  | done g o =>
    exact congrArg (fun k : Hub => some { k with finished := g.finished.push (t, o) }) (hset g none)

/-! ## Nothing else moves -/

structure Beside (s : Hub) (t : TaskId) (id : RequestId) (g : Hub) : Prop where
  aside : g.aside = s.aside
  tokens : g.cancelledTokens = s.cancelledTokens
  tasks : ∀ t', t' ≠ t → g.task? t' = s.task? t'
  requests : ∀ i, i ≠ id → g.book.requests[i]? = s.book.requests[i]?

structure Opening (s : Hub) (t : TaskId) (id : RequestId) (g : Hub) : Prop
    extends Beside s t id g where
  bare : g.book.Bare id
  call : (∃ c, g.task? t = some (.call c) ∧ c.Early id g.book) ∨
    g.task? t = none ∧ ∃ o, (t, o) ∈ g.finished ∧ ∀ ms, o = .members ms → ms = []

theorem Beside.sift (hg : Beside s t id g) : Beside s t id (g.sift keep t id) where
  aside := hg.aside
  tokens := hg.tokens
  tasks t' ht := by
    rw [task?_sift, if_neg ht]
    exact hg.tasks t' ht
  requests i hi := by
    rw [show (g.sift keep t id).book = g.book.sift id keep from rfl, Book.sift,
      Book.requests_modify, if_neg hi]
    exact hg.requests i hi

theorem Beside.around (hg : Beside s t id g) : Around none s g where
  now := congrArg Aside.now hg.aside
  tokens := hg.tokens
  caching := congrArg Aside.caching hg.aside
  loops _ _ := by rw [show g.loops = s.loops from congrArg Aside.loops hg.aside]

theorem Opening.advance_sift (ho : Opening s t id g) :
    (g.sift keep t id).advance t = (g.advance t).map (·.sift keep t id) := by
  rcases ho.call with ⟨c, ht, hc⟩ | ⟨ht, -⟩
  · exact Hub.advance_sift ht ho.bare hc
  · have ht' : (g.sift keep t id).task? t = none := by
      rw [task?_sift, if_pos rfl, ht]
      rfl
    rw [advance_of_gone ht, advance_of_gone ht']
    rfl

theorem Opening.segment (ho : Opening s t id g) : Opening s t id (g.perform (.segment t)) := by
  have htasks (t' : TaskId) (ht : t' ≠ t) : (g.perform (.segment t)).task? t' = s.task? t' :=
    (task?_segment ht).trans (ho.tasks t' ht)
  rcases ho.call with ⟨c, ht, hc⟩ | ⟨ht, -⟩
  · have haside := advanceCall_aside (h := g) (t := t) (c := c)
    have hbegins := advanceCall_begins (t := t) ho.bare hc
    have kept {k : Hub} (hk : k.aside = g.aside) (hf : k.frame = g.frame)
        (hadds : g.book.Adds id k.book) (x : Option Task) : (k.setTask t x).aside = s.aside ∧
          (k.setTask t x).cancelledTokens = s.cancelledTokens ∧
          (∀ i, i ≠ id → (k.setTask t x).book.requests[i]? = s.book.requests[i]?) ∧
          (k.setTask t x).book.Bare id :=
      ⟨hk.trans ho.aside, (congrArg Frame.tokens hf).trans ho.tokens,
        fun i hi => (hadds.others i hi).trans (ho.requests i hi), hadds.bare⟩
    cases g.segment_cases t with
    | waits hadv he =>
      rw [he]
      exact ho
    | goesOn task task' k ht' hm hf he hself =>
      cases ht.symm.trans ht'
      obtain ⟨c', rfl, hcall⟩ := advanceCall_of_moved hm
      rw [hcall] at haside hbegins
      obtain ⟨haside', htokens, hrequests, hbare⟩ := kept haside hf hbegins.1 (some (.call c'))
      rw [he] at htasks ⊢
      exact ⟨⟨haside', htokens, htasks, hrequests⟩, hbare, .inl ⟨c', he ▸ hself, hbegins.2⟩⟩
    | ends task k o ht' hm hf he hself =>
      cases ht.symm.trans ht'
      have hcall := advanceCall_of_done hm
      rw [hcall] at haside hbegins
      obtain ⟨haside', htokens, hrequests, hbare⟩ := kept haside hf hbegins.1 none
      have hmem : (t, o) ∈ (g.perform (.segment t)).finished := by
        rw [he]
        exact Array.mem_push_self
      exact ⟨⟨he ▸ haside', he ▸ htokens, htasks, he ▸ hrequests⟩, he ▸ hbare,
        .inr ⟨hself, o, hmem, hbegins.2⟩⟩
  · have hsame : g.perform (.segment t) = g := by
      simp only [perform, advance_of_gone ht, Option.getD_none]
    rw [hsame]
    exact ho

theorem Opening.sift_segment (ho : Opening s t id g) :
    (g.sift keep t id).perform (.segment t) = (g.perform (.segment t)).sift keep t id := by
  rw [perform, ho.advance_sift, perform]
  cases g.advance t <;> rfl

theorem Opening.iterate (ho : Opening s t id g) (n : Nat) :
    Opening s t id ((perform · (.segment t))^[n] g) := by
  induction n with
  | zero => exact ho
  | succ n ih =>
    rw [Function.iterate_succ_apply']
    exact ih.segment

/-- A task that runs alone comes to one end only. -/
theorem iterate_unique {n m : Nat} (hn : ((perform · (.segment t))^[n] g).advance t = none)
    (hm : ((perform · (.segment t))^[m] g).advance t = none) :
    (perform · (.segment t))^[n] g = (perform · (.segment t))^[m] g := by
  wlog hle : n ≤ m generalizing n m
  · exact (this hm hn (Nat.le_of_not_le hle)).symm
  obtain ⟨k, rfl⟩ := Nat.exists_eq_add_of_le' hle
  have hfixed : ((perform · (.segment t))^[n] g).perform (.segment t) =
      (perform · (.segment t))^[n] g := by
    rw [perform, hn, Option.getD_none]
  rw [Function.iterate_add_apply]
  exact (Function.iterate_fixed hfixed k).symm

/-! ## The start -/

inductive Asks : (Inquiry → Action) → Prop
  | collect (token : Token) : Asks fun i => .collect i token
  | plain : Asks .callMembers

theorem Asks.spawns {ask : Inquiry → Action} (ha : Asks ask) (g : Hub) :
    ∃ goal timeout, ∀ i, g.perform (ask i) =
      (g.spawn (.call { inquiry := i, goal, timeout })).2 := by
  cases ha with
  | collect token => exact ⟨_, _, fun _ => rfl⟩
  | plain => exact ⟨_, _, fun _ => rfl⟩

theorem opening_spawn (s : Hub) (hs : c.stage = .starting) (hi : c.inquiry.filter = none) :
    Opening s s.tasks.size s.book.requests.size (s.spawn (.call c)).2 where
  aside := rfl
  tokens := rfl
  tasks t' ht := by rw [task?_spawn, if_neg ht]
  requests _ _ := rfl
  bare r hr := by simp [spawn] at hr
  call := .inl ⟨c, by rw [task?_spawn, if_pos rfl], .starting hs rfl hi⟩

theorem spawn_sift (s : Hub) (keep : Member → Bool) (c : Call) :
    (s.spawn (.call (c.sift keep))).2 =
      (s.spawn (.call c)).2.sift keep s.tasks.size s.book.requests.size := by
  have htasks : s.tasks.push (some (.call (c.sift keep))) =
      (s.tasks.push (some (.call c))).modify s.tasks.size (Option.map (Task.sift keep)) := by
    apply Array.ext_getElem?
    intro k
    simp only [Array.getElem?_push, Array.getElem?_modify]
    by_cases hk : k = s.tasks.size
    · simp [hk, Task.sift]
    · simp [hk, Ne.symm hk]
  have hbook : s.book.sift s.book.requests.size keep = s.book := by
    have hrequests : s.book.requests.modify s.book.requests.size (Request.sift keep) =
        s.book.requests := by
      apply Array.ext_getElem?
      intro k
      rw [Array.getElem?_modify]
      split
      · rename_i hk
        simp [← hk]
      · rfl
    simp only [Book.sift, Book.modify, hrequests]
  simp only [spawn, sift, hbook, htasks]

section

variable (hn : h.IsNew) {past past' : List Action} (hq : (h.after past).Quiet)
  (hread : (h.after past).AllRead)
include hn hq hread

theorem Beside.idle (hg : Beside (h.after past) t (h.after past).book.requests.size (h.after past'))
    (hne : t' ≠ t) : (h.after past').advance t' = none := by
  have htask := hg.tasks t' hne
  cases ht : (h.after past).task? t' with
  | none => exact advance_of_gone (htask.trans ht)
  | some task =>
    apply advance_of_blocked (htask.trans ht)
    rcases reads_or_rests hn hq hread ht with ⟨x, id, got, rfl⟩ | hrests
    · obtain ⟨r, hp⟩ := pending_of_quiet hn hq ht
      have hid : id ≠ (h.after past).book.requests.size :=
        Nat.ne_of_lt (Array.getElem?_eq_some_iff.mp hp.request).1
      have hp' : (h.after past').Pending x id r := by
        refine ⟨?_, fun d hd => ?_, (hg.requests id hid).trans hp.request, hp.waiting, hp.unread⟩
        · rw [tokenCancelled, hg.tokens]
          exact hp.token
        · rw [hg.around.now]
          exact hp.undue d hd
      exact hp'.blocked (Reached.after hn past').sound
    · refine (hrests.of_around hg.around fun _ _ _ he => ?_).blocked
      cases he

/-- However the tasks are scheduled, what comes of a call that starts is what comes of some of its
own segments. `F` is what distinguishes the hub from `u`. -/
theorem after_alone {F : Hub → Hub} {u : Hub} {a : Action}
    (hsegment : ∀ g, Opening (h.after past) t (h.after past).book.requests.size g →
      (F g).perform (.segment t) = F (g.perform (.segment t)))
    (hbeside : ∀ g, Beside (h.after past) t (h.after past).book.requests.size g →
      Beside (h.after past) t (h.after past).book.requests.size (F g))
    (ha : h.after (a :: past) = F u)
    (hu : Opening (h.after past) t (h.after past).book.requests.size u) (ts : List TaskId) :
    ∃ n, h.after (ts.map .segment ++ a :: past) = F ((perform · (.segment t))^[n] u) := by
  induction ts with
  | nil => exact ⟨0, ha⟩
  | cons t' ts ih =>
    obtain ⟨n, hafter⟩ := ih
    have hopening := hu.iterate n
    have hnext : h.after ((t' :: ts).map .segment ++ a :: past) =
        (h.after (ts.map .segment ++ a :: past)).perform (.segment t') := rfl
    by_cases e : t' = t
    · subst e
      refine ⟨n + 1, ?_⟩
      rw [hnext, hafter, hsegment _ hopening, Function.iterate_succ_apply']
    · refine ⟨n, ?_⟩
      have hidle := Beside.idle hn hq hread (hafter ▸ hbeside _ hopening.toBeside) e
      rw [hnext, perform, hidle, Option.getD_none, hafter]

/-- A call for members is started with a filter, or without one. When no task can move, the hubs are
the same but for that filter. -/
theorem opened_alike {ask : Inquiry → Action} (hask : Asks ask) (hi : i.filter = none)
    (keep : Member → Bool) {ts₁ ts₂ : List TaskId}
    (hrest₁ : (h.after (ts₁.map .segment ++ ask i :: past)).Quiet)
    (hrest₂ : (h.after (ts₂.map .segment ++ ask (i.sift keep) :: past)).Quiet) :
    Opening (h.after past) (h.after past).tasks.size (h.after past).book.requests.size
      (h.after (ts₁.map .segment ++ ask i :: past)) ∧
    h.after (ts₂.map .segment ++ ask (i.sift keep) :: past) =
      (h.after (ts₁.map .segment ++ ask i :: past)).sift keep (h.after past).tasks.size
        (h.after past).book.requests.size := by
  obtain ⟨goal, timeout, hspawn⟩ := hask.spawns (h.after past)
  let c : Call := { inquiry := i, goal, timeout }
  let u : Hub := ((h.after past).spawn (.call c)).2
  have hu := opening_spawn (h.after past) (c := c) rfl hi
  have h₁ : h.after (ask i :: past) = u := hspawn i
  have h₂ : h.after (ask (i.sift keep) :: past) =
      u.sift keep (h.after past).tasks.size (h.after past).book.requests.size :=
    (hspawn (i.sift keep)).trans ((h.after past).spawn_sift keep c)
  obtain ⟨n₁, hafter₁⟩ := after_alone hn hq hread (F := id) (fun _ _ => rfl) (fun _ hg => hg) h₁ hu ts₁
  obtain ⟨n₂, hafter₂⟩ := after_alone hn hq hread (F := (·.sift keep _ _))
    (fun _ hg => hg.sift_segment) (fun _ hg => hg.sift) h₂ hu ts₂
  have hstuck₁ := hrest₁ (h.after past).tasks.size
  have hstuck₂ := hrest₂ (h.after past).tasks.size
  rw [hafter₁] at hstuck₁
  rw [hafter₂, (hu.iterate n₂).advance_sift, Option.map_eq_none_iff] at hstuck₂
  rw [hafter₁, hafter₂, iterate_unique hstuck₁ hstuck₂]
  exact ⟨hu.iterate n₂, rfl⟩

end

end Hub
end Rollcall
