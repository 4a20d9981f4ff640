import Rollcall.Proofs.Readers

/-!
# Work for a request that has ended

Much is done for a request after its end: its stream is cancelled or dropped, its call returns, a
chunk that was matched before is dealt with. All of it names the very request, so that the registry
and the other requests stay as they are, even if the nonce stands for another request by then. Main
statement: `late_work_spares_others`.
-/

namespace Rollcall

namespace Book

/-- `b'` is `b` but for one request, with the same registry. -/
structure Spares (b : Book) (id : RequestId) (b' : Book) : Prop where
  registry : b'.registry = b.registry
  others : ∀ i, i ≠ id → b'.requests[i]? = b.requests[i]?

variable {b b' b'' : Book} {id : RequestId} {r r' : Request}

theorem Spares.refl (b : Book) (id : RequestId) : b.Spares id b := ⟨rfl, fun _ _ => rfl⟩

theorem Spares.trans (h : b.Spares id b') (h' : b'.Spares id b'') : b.Spares id b'' where
  registry := h'.registry.trans h.registry
  others i hi := (h'.others i hi).trans (h.others i hi)

theorem spares_modify (b : Book) (id : RequestId) (f : Request → Request) :
    b.Spares id (b.modify id f) :=
  ⟨rfl, fun i hi => by rw [requests_modify, if_neg hi]⟩

theorem Replaces.spares (h : b.Replaces id r b') (hreg : b'.registry = b.registry) :
    b.Spares id b' :=
  ⟨hreg, fun _ hi => h.ne hi⟩

theorem spares_recv (b : Book) (id : RequestId) : b.Spares id (b.recv id).2 := by
  cases hq : b.requests[id]? with
  | none =>
    rw [recv_none hq]
    exact .refl b id
  | some r =>
    rw [recv_eq hq]
    exact spares_modify b id _

/-! ## Requests that no longer wait -/

section

variable (hb : b.Sound) (hq : b.requests[id]? = some r) (hw : ¬r.Waiting)
include hb hq hw

theorem Sound.cancel_of_ended : b.cancel id = (false, b) := by
  rcases b.cancel_cases id with h | ⟨r', hq', -, hreg, -⟩
  · exact h
  · cases hq.symm.trans hq'
    exact absurd ((hb.get?_nonce hq).mp hreg) hw

theorem Sound.spares_dropStream : b.Spares id (b.dropStream id) := by
  unfold Book.dropStream
  rw [hb.cancel_of_ended hq hw]
  exact spares_modify b id _

/-- The end of a chunk finds the nonce given up, or given to another request. -/
theorem Sound.spares_settle (h : b.Replaces id r' b') (hreg : b'.registry = b.registry)
    (hn : r'.nonce = r.nonce) (v : Verdict) : b.Spares id (b'.settle id v) := by
  have hspares := h.spares hreg
  unfold Book.settle
  split
  · have hgone : ¬b'.registry.get? r'.nonce = some id := by
      intro hheld
      rw [hreg, hn] at hheld
      exact hw ((hb.get?_nonce hq).mp hheld)
    rw [deregisterRequest_eq h.self, if_neg hgone]
    exact hspares
  · exact hspares

end

end Book

inductive Task.Serves (id : RequestId) (task : Task) : Prop
  | stream (hs : task.stream? = some id)
  | delivery {d : Delivery} (hd : task.delivery? = some d) (hid : d.request = id)

namespace Hub

variable {h : Hub} {t : TaskId} {id : RequestId} {r : Request}

inductive ActsFor (h : Hub) (id : RequestId) : Action → Prop
  | recv : ActsFor h id (.recv id)
  | read (goal : ReadGoal) : ActsFor h id (.read id goal)
  | cancel : ActsFor h id (.cancel id)
  | discard : ActsFor h id (.discard id)
  | segment {t : TaskId} {task : Task} (ht : h.task? t = some task) (hs : task.Serves id) :
      ActsFor h id (.segment t)
  | dropTask {t : TaskId} {task : Task} (ht : h.task? t = some task) (hs : task.Serves id) :
      ActsFor h id (.dropTask t)

/-! ## Segments -/

section

variable {P : Hub → Prop}

theorem all_handlerMove {m : Move Hub Delivery Unit} : (handlerMove m).All P ↔ m.All P := by
  cases m <;> exact .rfl

theorem all_loopMove {index : Nat} {m : Move Hub Delivery Unit} :
    (loopMove index m).All P ↔ m.All P := by
  cases m <;> exact .rfl

theorem all_call {c : Call} : (h.advanceTask t (.call c)).All P ↔ (h.advanceCall t c).All P := by
  rw [advanceTask]
  cases h.advanceCall t c <;> exact .rfl

end

section

variable (hb : h.book.Sound) (hq : h.book.requests[id]? = some r) (hw : ¬r.Waiting)
include hb hq hw

theorem afterSend_spares {c : Call} {result : SendResult} :
    (h.afterSend c id result).All fun g => h.book.Spares id g.book := by
  unfold afterSend
  split
  · exact hb.spares_dropStream hq hw
  · split <;> exact .refl _ _

theorem advanceReading_spares {c : Call} {got : List Member} :
    (h.advanceReading c id got).All fun g => h.book.Spares id g.book := by
  unfold advanceReading
  split
  · exact hb.spares_dropStream hq hw
  have hrecv := Book.spares_recv h.book id
  split
  · rename_i m b heq
    rw [heq] at hrecv
    exact hrecv
  · trivial
  · exact hb.spares_dropStream hq hw

theorem expire_spares {c : Call} (hs : (Task.call c).stream? = some id) :
    (h.expire c).All fun g => h.book.Spares id g.book := by
  have hdrop := hb.spares_dropStream hq hw
  unfold expire
  split
  · trivial
  split
  · trivial
  cases hstage : c.stage with
  | starting => exact .refl _ _
  | sending i result =>
    simp only [Task.stream?, hstage, Option.some.injEq] at hs
    subst hs
    exact hdrop
  | reading i got =>
    simp only [Task.stream?, hstage, Option.some.injEq] at hs
    subst hs
    exact hdrop

theorem advanceCall_spares {c : Call} (hs : (Task.call c).stream? = some id) :
    (h.advanceCall t c).All fun g => h.book.Spares id g.book := by
  unfold advanceCall
  extract_lets inner
  have hinner : inner.All fun g => h.book.Spares id g.book := by
    simp only [inner]
    cases hstage : c.stage with
    | starting => simp [Task.stream?, hstage] at hs
    | sending i result =>
      simp only [Task.stream?, hstage, Option.some.injEq] at hs
      subst hs
      cases result with
      | none => trivial
      | some result => exact afterSend_spares hb hq hw
    | reading i got =>
      simp only [Task.stream?, hstage, Option.some.injEq] at hs
      subst hs
      exact advanceReading_spares hb hq hw
  clear_value inner
  cases inner with
  | blocked => exact expire_spares hb hq hw hs
  | moved g c' => exact hinner
  | done g o => exact hinner

theorem advanceReader_spares {goal : ReadGoal} {got : List Member} :
    (h.advanceReader id goal got).All fun g => h.book.Spares id g.book := by
  have hdrop := hb.spares_dropStream hq hw
  unfold advanceReader
  split
  · exact hdrop
  have hrecv := Book.spares_recv h.book id
  have hsound := hb.recv id
  split
  · rename_i m b heq
    -- A reader that wants one member drops the stream after it; the request has still ended then.
    have hself := (Book.replaces_modify hq Request.afterReading).self
    rw [← show (h.book.recv id).2 = h.book.modify id .afterReading by rw [Book.recv_eq hq]] at hself
    rw [heq] at hrecv hsound hself
    have hw' : ¬r.afterReading.Waiting := fun hwait => hw ((Request.waiting_afterReading r).mp hwait)
    split
    · exact hrecv.trans (hsound.spares_dropStream hself hw')
    · exact hrecv
  · trivial
  · exact hdrop

theorem deliver_spares {d : Delivery} (hs : ∀ ms, d.stage ≠ .arriving ms) (hid : d.request = id) :
    (h.deliver t d).All fun g => h.book.Spares id g.book := by
  subst hid
  unfold deliver
  cases hm : d.advance t h.book with
  | blocked => trivial
  | moved b d' =>
    obtain ⟨r', hrep, hreg, -⟩ := Delivery.advance_moved hq hs hm
    exact hrep.spares hreg
  | done b out =>
    obtain ⟨r', hrep, hreg, hturn⟩ := Delivery.advance_done hq hs hm
    exact hb.spares_settle hq hw hrep hreg hturn.later.nonce out.verdict

theorem advanceLoop_spares {index : Nat} {d : Delivery} (hs : ∀ ms, d.stage ≠ .arriving ms)
    (hid : d.request = id) :
    (h.advanceLoop t index (some d)).All fun g => h.book.Spares id g.book := by
  unfold advanceLoop
  split
  · trivial
  simp only
  split
  · subst hid
    exact Book.spares_modify h.book d.request _
  · rw [all_loopMove]
    exact deliver_spares hb hq hw hs hid

theorem advanceTask_spares {task : Task} (hs : task.Serves id)
    (hd : ∀ d, task.delivery? = some d → ∀ ms, d.stage ≠ .arriving ms) :
    (h.advanceTask t task).All fun g => h.book.Spares id g.book := by
  cases task with
  | call c =>
    rcases hs with hs | ⟨hd', -⟩
    · rw [all_call]
      exact advanceCall_spares hb hq hw hs
    · cases hd'
  | reader i goal got =>
    rcases hs with hs | ⟨hd', -⟩
    · cases hs
      exact advanceReader_spares hb hq hw
    · cases hd'
  | handler e =>
    rcases hs with hs | ⟨hd', -⟩
    · cases hs
    · cases hd'
  | delivering d =>
    rcases hs with hs | ⟨hd', hid⟩
    · cases hs
    · cases hd'
      rw [advanceTask, all_handlerMove]
      exact deliver_spares hb hq hw (hd d rfl) hid
  | loop index current =>
    rcases hs with hs | ⟨hd', hid⟩
    · cases hs
    · cases hd'
      exact advanceLoop_spares hb hq hw (hd _ rfl) hid

/-! ## Operations -/

theorem abandon_spares {task : Task} (hs : task.Serves id) :
    h.book.Spares id (h.abandon t task).book := by
  rcases hs with hs | ⟨hd, hid⟩
  · rw [abandon_of_stream hs]
    exact hb.spares_dropStream hq hw
  · subst hid
    cases task with
    | call c => cases hd
    | reader i goal got => cases hd
    | handler e => cases hd
    | delivering d =>
      cases hd
      exact Book.spares_modify h.book _ _
    | loop index current =>
      cases hd
      exact Book.spares_modify h.book _ _

theorem perform_spares {a : Action} (ha : h.ActsFor id a)
    (hd : ∀ t d, h.delivery? t = some d → ∀ ms, d.stage ≠ .arriving ms) :
    h.book.Spares id (h.perform a).book := by
  cases ha with
  | recv =>
    simp only [perform]
    split
    · exact Book.spares_recv h.book id
    · exact .refl _ _
  | read goal =>
    simp only [perform]
    split <;> exact .refl _ _
  | cancel =>
    have hsame : (h.perform (.cancel id)).book = h.book :=
      congrArg Prod.snd (hb.cancel_of_ended hq hw)
    rw [hsame]
    exact .refl _ _
  | discard =>
    simp only [perform]
    split
    · exact hb.spares_dropStream hq hw
    · exact .refl _ _
  | @segment t task ht hs =>
    have hd' : ∀ d, task.delivery? = some d → ∀ ms, d.stage ≠ .arriving ms := by
      intro d hdel
      apply hd t d
      simp [Hub.delivery?, ht, hdel]
    have hnext := advanceTask_spares (t := t) hb hq hw hs hd'
    cases h.segment_cases t with
    | waits hadv he =>
      rw [he]
      exact .refl _ _
    | goesOn task' task'' g ht' hm hf he =>
      cases ht.symm.trans ht'
      rw [hm] at hnext
      rw [he]
      exact hnext
    | ends task' g o ht' hm hf he =>
      cases ht.symm.trans ht'
      rw [hm] at hnext
      rw [he]
      exact hnext
  | @dropTask t task ht hs =>
    simp only [perform, Hub.dropTask, ht]
    exact abandon_spares hb hq hw hs

end

def WorksFor (h : Hub) (id : RequestId) : List Action → Prop
  | [] => True
  | a :: work => h.WorksFor id work ∧ (h.after work).ActsFor id a

theorem after_append (h : Hub) (past : List Action) :
    ∀ later, (h.after past).after later = h.after (later ++ past)
  | [] => rfl
  | a :: later => congrArg (perform · a) (h.after_append past later)

end Hub

/-- **Late work leaves the others alone.** Whatever is done for a request that has ended, for however
long, it leaves the registry and every other request as they are: also a request that is registered
under the same nonce by then. -/
theorem late_work_spares_others {h : Hub} (hn : h.IsNew) (past : List Action) {id : RequestId}
    {r : Request} (hq : (h.after past).book.requests[id]? = some r)
    (hended : r.complete = true ∨ r.cancelled = true) (work : List Action)
    (hwork : (h.after past).WorksFor id work) :
    (h.after (work ++ past)).book.registry = (h.after past).book.registry ∧
      ∀ i, i ≠ id →
        (h.after (work ++ past)).book.requests[i]? = (h.after past).book.requests[i]? := by
  have hw : ¬r.Waiting := by
    rcases hended with hc | hc
    · exact Request.not_waiting_of_complete hc
    · exact Request.not_waiting_of_cancelled hc
  suffices hspares : (h.after past).book.Spares id (h.after (work ++ past)).book from
    ⟨hspares.registry, hspares.others⟩
  -- The request stays ended whatever is done, so each step spares the others.
  induction work with
  | nil => exact .refl _ _
  | cons a work ih =>
    obtain ⟨hwork, ha⟩ := hwork
    rw [Hub.after_append] at ha
    have hr := Reached.after hn (work ++ past)
    obtain ⟨r', hq', hw'⟩ := Hub.not_waiting_after hn hq hw work
    exact (ih hwork).trans
      (Hub.perform_spares hr.sound hq' hw' ha fun _ _ hd => hr.lined.arrived hd)

def Hub.repeating : Hub :=
  { Hub.sample .accept with book := { nonces := .scripted ["x", "x"] } }

theorem Hub.repeating_isNew : Hub.repeating.IsNew :=
  ⟨{ capacity := 1 }, .nothing, [_], true, _, rfl⟩

/-- A chunk for a request waits for room when the request is cancelled; its nonce goes to another. -/
def nonceReused : List Action :=
  [.segment 2, .callStream (.all ⟨1⟩), .cancel 0, .segment 1,
    .dispatch (.chunk (.sample [.sample "a", .sample "b"])), .segment 0, .callStream (.all ⟨1⟩)]

theorem nonceReused_spared :
    Hub.repeating.IsNew ∧ (Hub.repeating.after nonceReused).book.nonceOf 0 = "x" ∧
      (Hub.repeating.after nonceReused).book.lookup "x" = some 1 ∧
      (Hub.repeating.after ([.discard 0, .segment 1, .cancel 0] ++ nonceReused)).book.lookup "x" =
        some 1 := by
  have hn := Hub.repeating_isNew
  have hq : (Hub.repeating.after nonceReused).book.requests[0]? = some _ := rfl
  have hwork : (Hub.repeating.after nonceReused).WorksFor 0 [.discard 0, .segment 1, .cancel 0] := by
    have htask : (Hub.repeating.after (.cancel 0 :: nonceReused)).task? 1 =
        some (.delivering _) := rfl
    exact ⟨⟨⟨trivial, .cancel⟩, .segment htask (.delivery rfl rfl)⟩, .discard⟩
  have hreg := (late_work_spares_others hn nonceReused hq (.inr rfl) _ hwork).1
  refine ⟨hn, rfl, rfl, ?_⟩
  rw [Book.lookup, hreg]
  rfl

end Rollcall
