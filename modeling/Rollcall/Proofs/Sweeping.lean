import Rollcall.Proofs.Ending
import Rollcall.Proofs.Finality
import Rollcall.Proofs.LateWork
import Rollcall.Proofs.Stall

/-!
# Shutting down

Shutting down cancels the requests that are registered and touches nothing else; the registry is
empty afterwards. Whatever waited for one of them then goes on: chunks that stood in its line, tasks
that read its stream, calls that gathered its members. Main statement: `shutdown_sweeps_pending`.
-/

namespace Rollcall

namespace Book

variable {b : Book} {id : RequestId} {r : Request}

theorem Sound.waiting_of_mem_drain (hb : b.Sound) (hr : b.requests[id]? = some r) :
    id ∈ b.drain.1 ↔ r.Waiting := by
  rw [mem_drain, ← hb.get?_nonce hr]
  constructor
  · rintro ⟨n, hn⟩
    rwa [hb.nonce_of_get? hr hn]
  · exact fun h => ⟨_, h⟩

/-- What is registered is not complete, so all of it is counted. -/
theorem Sound.counted_eq (hb : b.Sound) : b.counted = b.drain.1 := by
  refine List.filter_eq_self.mpr fun id hid => ?_
  obtain ⟨n, hn⟩ := mem_drain.mp hid
  obtain ⟨r, hr, -, hw⟩ := (hb.registered n id).mp hn
  rw [view_eq hr, Option.any_some, hw.1]
  rfl

theorem Sound.fst_shutdown (hb : b.Sound) : b.shutdown.1 = b.registry.size := by
  rw [Book.fst_shutdown, hb.counted_eq, length_drain]

theorem Sound.requests_shutdown (hb : b.Sound) (hr : b.requests[id]? = some r) :
    b.shutdown.2.requests[id]? = some (if id ∈ b.drain.1 then r.close else r) := by
  rw [Book.requests_shutdown, hr, Option.map_some]
  by_cases hid : id ∈ b.drain.1
  · rw [if_pos hid, if_pos ⟨hid, ((hb.waiting_of_mem_drain hr).mp hid).1⟩]
  · rw [if_neg hid, if_neg fun h => hid h.1]

theorem sweep_eq (ids : List RequestId) (acc : Nat × Book) :
    (ids.foldl sweep acc).2 = { acc.2 with requests := (ids.foldl sweep acc).2.requests } := by
  induction ids generalizing acc with
  | nil => rfl
  | cons id ids ih =>
    have hone : (sweep acc id).2 = { acc.2 with requests := (sweep acc id).2.requests } := by
      unfold sweep
      split
      · rfl
      · split <;> rfl
    rw [List.foldl_cons]
    exact (ih _).trans (congrArg
      (fun b : Book => { b with requests := (ids.foldl sweep (sweep acc id)).2.requests }) hone)

theorem shutdown_eq (b : Book) :
    b.shutdown.2 = { b with requests := b.shutdown.2.requests, registry := .empty } :=
  sweep_eq b.drain.1 (0, b.drain.2)

theorem shutdown_of_empty (h : b.registry = .empty) : b.shutdown = (0, b) := by
  have hdrain : b.drain = ([], b) := by
    obtain ⟨requests, registry, nonces, cache⟩ := b
    cases h
    rfl
  rw [shutdown, hdrain]
  rfl

end Book

/-! ## Calls that gather members -/

inductive Call.Gathers (c : Call) (id : RequestId) : Prop
  | sent {token : Option Token} (hg : c.goal = .members token)
      (hs : c.stage = .sending id (some .sent))
  | reading {got : List Member} (hs : c.stage = .reading id got)

theorem Call.Gathers.reads {c : Call} {id : RequestId} (hc : c.Gathers id) :
    (Task.call c).Reads id := by
  cases hc with
  | sent hg hs => exact .sent hs
  | reading hs => exact .call hs

namespace Hub

variable {h g : Hub} {t : TaskId} {id : RequestId} {c : Call}

theorem advanceReading_of_cancelled (hc : h.book.isCancelled id = true) (got : List Member) :
    h.advanceReading c id got = .done (h.dropStream id) (.failed .cancelled) := by
  obtain ⟨r, hr, hcancel⟩ := Book.exists_of_isCancelled hc
  have hrecv := Book.recv_of_cancelled hr hcancel
  unfold advanceReading
  split
  · rfl
  · split
    · rename_i he
      rw [he] at hrecv
      cases hrecv
    · rename_i he
      rw [he] at hrecv
      cases hrecv
    · rfl

def Gathering (id : RequestId) (task : Task) : Prop := ∃ c : Call, task = .call c ∧ c.Gathers id

theorem gathering_of_moved {task task' : Task} (hc : h.isCancelled id = true)
    (hp : Gathering id task) (hm : h.advanceTask t task = .moved g task') : Gathering id task' := by
  obtain ⟨c, rfl, hg⟩ := hp
  obtain ⟨c', rfl, hcall⟩ := advanceCall_of_moved hm
  cases hg with
  | sent hgoal hs =>
    rw [advanceCall_of_sent hs] at hcall
    obtain rfl := afterSend_moves hcall
    exact ⟨_, rfl, .reading rfl⟩
  | reading hs =>
    simp only [advanceCall, hs, advanceReading_of_cancelled hc] at hcall
    cases hcall

theorem cancelled_of_done {task : Task} {o : Outcome} (hc : h.isCancelled id = true)
    (hp : Gathering id task) (hm : h.advanceTask t task = .done g o) : o = .failed .cancelled := by
  obtain ⟨c, rfl, hg⟩ := hp
  have hcall := advanceCall_of_done hm
  cases hg with
  | sent hgoal hs =>
    rw [advanceCall_of_sent hs] at hcall
    simp only [afterSend, hgoal] at hcall
    cases hcall
  | reading hs =>
    simp only [advanceCall, hs, advanceReading_of_cancelled hc] at hcall
    cases hcall
    rfl

structure LetGo (s : Hub) (id : RequestId) (g : Hub) : Prop where
  deliveries : ∀ t d, g.delivery? t = some d → d.request ≠ id
  readers : ∀ t task, g.task? t = some task → ¬task.Reads id
  calls : ∀ t c, s.task? t = some (.call c) → c.Gathers id →
    g.task? t = none ∧ (t, .failed .cancelled) ∈ g.finished

/-- Once a request is cancelled, all that waits for it goes on. -/
theorem letGo_of_cancelled (hn : h.IsNew) {past : List Action}
    (hc : (h.after past).isCancelled id = true) {ts : List TaskId}
    (hrest : (h.after (ts.map .segment ++ past)).Quiet) :
    (h.after past).LetGo id (h.after (ts.map .segment ++ past)) := by
  have hlater := isCancelled_after hn hc
  obtain ⟨r, hr, hcancel⟩ := Book.exists_of_isCancelled (hlater (ts.map .segment))
  have hw := Request.not_waiting_of_cancelled hcancel
  have hreads (t : TaskId) (task : Task)
      (ht : (h.after (ts.map .segment ++ past)).task? t = some task) : ¬task.Reads id := by
    intro hreads
    obtain ⟨r', hr', hw', -⟩ := waiting_of_reads hn hrest ht hreads
    cases hr.symm.trans hr'
    exact hw hw'
  refine ⟨fun t d hd => no_delivery_of_quiet hn hrest hr hw hd, hreads, fun t c ht hg => ?_⟩
  rcases followed_under gathering_of_moved cancelled_of_done (fun ts => hlater (ts.map .segment))
    ht ⟨c, rfl, hg⟩ ts with ⟨task, ht', c', rfl, hg'⟩ | ⟨hnone, o, rfl, ho⟩
  · exact absurd hg'.reads (hreads t _ ht')
  · exact ⟨hnone, ho⟩

end Hub

/-- **Shutdown sweeps everything pending and nothing else.** It says how many requests are pending,
each of which it finds registered once. Afterwards the registry is empty; the requests that were in
it are cancelled, which they were not before; all other requests, among them those that are complete,
with the members left in their channels, and everything else are as they were; and another shutdown
finds nothing. However the tasks run on until none can move, nothing waits for a swept request any
more, and the calls that gathered its members have ended as cancelled. -/
theorem shutdown_sweeps_pending {h : Hub} (hn : h.IsNew) (past : List Action) :
    (h.after past).shutdown.1 = (h.after past).pending ∧
    ((h.after past).book.drain.1.length = (h.after past).pending ∧
      (h.after past).book.drain.1.Nodup ∧
      ∀ id, id ∈ (h.after past).book.drain.1 ↔
        ∃ n, (h.after past).book.registry.get? n = some id) ∧
    (h.after (.shutdown :: past)).book.registry = .empty ∧
    (h.after (.shutdown :: past)).pending = 0 ∧
    (∀ id, (h.after (.shutdown :: past)).book.requests[id]? =
      ((h.after past).book.requests[id]?).map fun r =>
        if id ∈ (h.after past).book.drain.1 then r.close else r) ∧
    (∀ id r, (h.after past).book.requests[id]? = some r →
      (id ∈ (h.after past).book.drain.1 → r.cancelled = false ∧ r.close.cancelled = true) ∧
      (r.complete = true → r.cancelled = false ∧
        (h.after (.shutdown :: past)).book.requests[id]? = some r)) ∧
    h.after (.shutdown :: past) = { h.after past with
      book := { (h.after past).book with
        requests := (h.after (.shutdown :: past)).book.requests, registry := .empty } } ∧
    (h.after (.shutdown :: past)).shutdown = (0, h.after (.shutdown :: past)) ∧
    (h.after (.shutdown :: past)).Settles fun g =>
      ∀ id ∈ (h.after past).book.drain.1, (h.after past).LetGo id g := by
  have hb := (Reached.after hn past).sound
  have hb : (h.after past).book.Sound := hb
  have hempty : (h.after (.shutdown :: past)).book.registry = .empty :=
    (h.after past).book.registry_shutdown
  have hrequests (id : RequestId) : (h.after (.shutdown :: past)).book.requests[id]? =
      ((h.after past).book.requests[id]?).map fun r =>
        if id ∈ (h.after past).book.drain.1 then r.close else r := by
    cases hr : (h.after past).book.requests[id]? with
    | none => exact ((h.after past).book.requests_shutdown id).trans (by rw [hr]; rfl)
    | some r => exact hb.requests_shutdown hr
  refine ⟨hb.fst_shutdown, ⟨Book.length_drain _, hb.nodup_drain, fun id => Book.mem_drain⟩, hempty,
    ?_, hrequests, fun id r hr => ⟨fun hid => ?_, fun hc => ?_⟩, ?_, ?_, ?_⟩
  · rw [Hub.pending, hempty]
    rfl
  · exact ⟨((hb.waiting_of_mem_drain hr).mp hid).2, rfl⟩
  · have hout : id ∉ (h.after past).book.drain.1 := fun hid =>
      Request.not_waiting_of_complete hc ((hb.waiting_of_mem_drain hr).mp hid)
    refine ⟨(hb.request id r hr).cancelled_of_complete hc, ?_⟩
    rw [hrequests, hr, Option.map_some, if_neg hout]
  · exact congrArg (fun book => { h.after past with book }) (h.after past).book.shutdown_eq
  · have hnone := Book.shutdown_of_empty hempty
    simp only [Hub.shutdown, hnone]
  · refine Hub.settles fun ts hrest id hid => ?_
    obtain ⟨n, hreg⟩ := Book.mem_drain.mp hid
    obtain ⟨r, hr, -⟩ := (hb.registered n id).mp hreg
    have hcancel : (h.after (.shutdown :: past)).isCancelled id = true := by
      have hr' := hrequests id
      rw [hr, Option.map_some, if_pos hid] at hr'
      exact Book.isCancelled_eq hr'
    have hgo := Hub.letGo_of_cancelled hn hcancel hrest
    exact ⟨hgo.deliveries, hgo.readers, hgo.calls⟩

/-- The first request has its only chunk, and its members are in the channel; a call gathers those of
the second, which has the same nonce. -/
def oneSwept : List Action :=
  [.segment 2, .collect (.all ⟨1⟩) "t", .segment 1, .segment 1,
    .dispatch (.chunk (.sample [.sample "a"])), .segment 0, .callStream (.all ⟨1⟩)]

theorem oneSwept_sweeps :
    Hub.repeating.IsNew ∧ (Hub.repeating.after oneSwept).shutdown.1 = 1 ∧
      (Hub.repeating.after (.shutdown :: oneSwept)).book.view (·.channel.unread) 0 =
        some [.sample "a"] ∧
      (Hub.repeating.after (.shutdown :: oneSwept)).Settles fun g =>
        g.task? 2 = none ∧ (2, .failed .cancelled) ∈ g.finished := by
  have hn := Hub.repeating_isNew
  obtain ⟨hcount, -, -, -, hrequests, hothers, -, -, hsettles⟩ :=
    shutdown_sweeps_pending hn oneSwept
  have hq : (Hub.repeating.after oneSwept).book.requests[0]? = some _ := rfl
  have hkept := ((hothers 0 _ hq).2 rfl).2
  refine ⟨hn, hcount.trans rfl, ?_, hsettles.mono fun g hg => ?_⟩
  · rw [Book.view_eq hkept]
    rfl
  · exact (hg 1 (by decide)).calls 2 _ rfl (.reading rfl)

end Rollcall
