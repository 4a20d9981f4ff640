import Rollcall.Proofs.Rest
import Rollcall.Proofs.Room

/-!
# Readers

A task that reads a stream waits only as long as there is nothing to read and more may come. So once
its request is complete or cancelled, it ends without anybody having to act. Main statement:
`readers_not_stranded`.
-/

namespace Rollcall

/-- A task reads a stream if it owns the stream and does not wait for the shard. -/
inductive Task.Reads (id : RequestId) : Task → Prop
  | sent {c : Call} {result : SendResult} (hs : c.stage = .sending id (some result)) :
      Reads id (.call c)
  | call {c : Call} {got : List Member} (hs : c.stage = .reading id got) : Reads id (.call c)
  | reader (goal : ReadGoal) (got : List Member) : Reads id (.reader id goal got)

theorem Task.Reads.stream? {id : RequestId} {task : Task} (hr : task.Reads id) :
    task.stream? = some id := by
  cases hr with
  | sent hs => simp [Task.stream?, hs]
  | call hs => simp [Task.stream?, hs]
  | reader => rfl

theorem Book.of_pending {b : Book} {id : RequestId} (h : (b.recv id).1 = .pending) :
    ∃ r, b.requests[id]? = some r ∧ r.cancelled = false ∧ r.channel.unread = [] ∧
      r.senderOpen = true := by
  cases hr : b.requests[id]? with
  | none =>
    rw [recv_none hr] at h
    cases h
  | some r =>
    rw [recv_eq hr] at h
    simp only [Request.reading] at h
    split at h
    · cases h
    rename_i hlive
    split at h
    · cases h
    rename_i hempty
    split at h
    · rename_i hopen
      simp only [Bool.and_eq_true] at hopen
      exact ⟨r, rfl, by simpa using hlive, hempty, hopen.1⟩
    · cases h

namespace Hub

variable {h g : Hub} {t : TaskId} {c c' : Call} {id : RequestId} {got : List Member}

/-! ## One segment -/

theorem expire_ne_moved : h.expire c ≠ .moved g c' := by
  unfold expire
  split
  · exact nofun
  · split <;> exact nofun

theorem advanceCall_of_sent {result : SendResult} (hs : c.stage = .sending id (some result)) :
    h.advanceCall t c = h.afterSend c id result := by
  simp only [advanceCall, hs]
  split
  · rename_i hb
    exact absurd hb (afterSend_ne_blocked h c id result)
  · rfl

theorem advanceCall_of_reading (hs : c.stage = .reading id got) :
    (h.advanceReading c id got = .blocked ∧ h.advanceCall t c = h.expire c) ∨
      h.advanceCall t c = h.advanceReading c id got := by
  simp only [advanceCall, hs]
  split
  · rename_i hb
    exact .inl ⟨hb, rfl⟩
  · exact .inr rfl

theorem pending_of_advanceReading (hm : h.advanceReading c id got = .blocked) :
    (h.book.recv id).1 = .pending := by
  unfold advanceReading at hm
  split at hm
  · cases hm
  split at hm
  · cases hm
  · rename_i hb
    rw [hb]
  · cases hm

theorem pending_of_advanceReader {goal : ReadGoal} (hm : h.advanceReader id goal got = .blocked) :
    (h.book.recv id).1 = .pending := by
  unfold advanceReader at hm
  split at hm
  · cases hm
  split at hm
  · split at hm <;> cases hm
  · rename_i hb
    rw [hb]
  · cases hm

theorem pending_of_blocked {task : Task} (hr : task.Reads id)
    (hm : h.advanceTask t task = .blocked) : (h.book.recv id).1 = .pending := by
  cases hr with
  | sent hs =>
    have hcall := advanceCall_of_blocked hm
    rw [advanceCall_of_sent hs] at hcall
    exact absurd hcall (afterSend_ne_blocked _ _ _ _)
  | call hs =>
    have hcall := advanceCall_of_blocked hm
    rcases advanceCall_of_reading (h := h) (t := t) hs with ⟨hb, -⟩ | he
    · exact pending_of_advanceReading hb
    · exact pending_of_advanceReading (he.symm.trans hcall)
  | reader goal got => exact pending_of_advanceReader hm

theorem afterSend_moves {result : SendResult} (hm : h.afterSend c id result = .moved g c') :
    c' = { c with stage := .reading id [] } := by
  unfold afterSend at hm
  split at hm
  · cases hm
  · split at hm
    · cases hm
    · cases hm
      rfl

theorem stage_of_advanceReading (hm : h.advanceReading c id got = .moved g c') :
    ∃ m, c'.stage = .reading id (m :: got) := by
  unfold advanceReading at hm
  split at hm
  · cases hm
  split at hm
  · cases hm
    exact ⟨_, rfl⟩
  · cases hm
  · cases hm

theorem task_of_advanceReader {goal : ReadGoal} {task : Task}
    (hm : h.advanceReader id goal got = .moved g task) : ∃ m, task = .reader id goal (m :: got) := by
  unfold advanceReader at hm
  split at hm
  · cases hm
  split at hm
  · split at hm
    · cases hm
    · cases hm
      exact ⟨_, rfl⟩
  · cases hm
  · cases hm

theorem reads_of_moved {task task' : Task} (hr : task.Reads id)
    (hm : h.advanceTask t task = .moved g task') : task'.Reads id := by
  cases hr with
  | sent hs =>
    obtain ⟨c', rfl, hcall⟩ := advanceCall_of_moved hm
    rw [advanceCall_of_sent hs] at hcall
    obtain rfl := afterSend_moves hcall
    exact .call rfl
  | call hs =>
    obtain ⟨c', rfl, hcall⟩ := advanceCall_of_moved hm
    rcases advanceCall_of_reading (h := h) (t := t) hs with ⟨-, he⟩ | he
    · exact absurd (he.symm.trans hcall) expire_ne_moved
    · obtain ⟨m, hstage⟩ := stage_of_advanceReading (he.symm.trans hcall)
      exact .call hstage
  | reader goal got =>
    obtain ⟨m, rfl⟩ := task_of_advanceReader hm
    exact .reader goal (m :: got)

/-! ## At rest -/

/-- A task that reads and cannot move waits for members of a request that waits for chunks. -/
theorem waiting_of_reads (hn : h.IsNew) {past : List Action} (hq : (h.after past).Quiet)
    {task : Task} (ht : (h.after past).task? t = some task) (hr : task.Reads id) :
    ∃ r, (h.after past).book.requests[id]? = some r ∧ r.Waiting ∧ r.channel.unread = [] := by
  obtain ⟨r, hreq, hlive, hempty, hopen⟩ :=
    Book.of_pending (pending_of_blocked hr (blocked_of_quiet hq ht))
  have hsound := (Reached.after hn past).sound.request id r hreq
  exact ⟨r, hreq, hsound.waiting_of_open hlive hopen, hempty⟩

theorem not_waiting_after (hn : h.IsNew) {past : List Action} {r : Request}
    (hq : (h.after past).book.requests[id]? = some r) (hw : ¬r.Waiting) (later : List Action) :
    ∃ r', (h.after (later ++ past)).book.requests[id]? = some r' ∧ ¬r'.Waiting := by
  obtain ⟨os, -, hch⟩ := h.changes_append past later
  obtain ⟨r', hq', hl⟩ := (Reached.after hn past).later_changes hch id r hq
  exact ⟨r', hq', fun hw' => hw (hl.waiting hw')⟩

theorem readers_end (hn : h.IsNew) {past : List Action} {r : Request}
    (hq : (h.after past).book.requests[id]? = some r) (hw : ¬r.Waiting) {task : Task}
    (ht : (h.after past).task? t = some task) (hr : task.Reads id) {ts : List TaskId}
    (hrest : (h.after (ts.map .segment ++ past)).Quiet) :
    (h.after (ts.map .segment ++ past)).task? t = none ∧
      ∃ o, (t, o) ∈ (h.after (ts.map .segment ++ past)).finished := by
  rcases followed (Q := fun _ => True) reads_of_moved (fun _ _ => trivial) ht hr ts with
    ⟨task', ht', hr'⟩ | ⟨hnone, o, -, ho⟩
  · obtain ⟨r₁, hq₁, hw₁, -⟩ := waiting_of_reads hn hrest ht' hr'
    obtain ⟨r₂, hq₂, hno⟩ := not_waiting_after hn hq hw (ts.map .segment)
    cases hq₁.symm.trans hq₂
    exact absurd hw₁ hno
  · exact ⟨hnone, o, ho⟩

end Hub

/-- **Readers are never stranded.** When no task can move, a task that reads a stream belongs to a
request that is registered and waits; its channel is empty, and no chunk stands at it. Once a request
is complete or cancelled, every task that reads it ends, however the tasks run on; and so does every
task that reads when all is shut down. -/
theorem readers_not_stranded {h : Hub} (hn : h.IsNew) (past : List Action) :
    ((h.after past).Quiet → ∀ t task id, (h.after past).task? t = some task → task.Reads id →
      ∃ r, (h.after past).book.requests[id]? = some r ∧
        (h.after past).book.registry.get? r.nonce = some id ∧
        r.complete = false ∧ r.cancelled = false ∧ r.channel.unread = [] ∧
        ∀ t' d, (h.after past).delivery? t' = some d → d.request ≠ id) ∧
    (∀ (id : RequestId) r, (h.after past).book.requests[id]? = some r →
      (r.complete = true ∨ r.cancelled = true) →
      (h.after past).Settles fun g => ∀ t task, (h.after past).task? t = some task →
        task.Reads id → g.task? t = none ∧ ∃ o, (t, o) ∈ g.finished) ∧
    (h.after (.shutdown :: past)).Settles fun g => ∀ t task id,
      (h.after past).task? t = some task → task.Reads id →
        g.task? t = none ∧ ∃ o, (t, o) ∈ g.finished := by
  refine ⟨fun hq t task id ht hr => ?_, fun id r hreq hended => ?_, ?_⟩
  · obtain ⟨r, hreq, hw, hempty⟩ := Hub.waiting_of_reads hn hq ht hr
    have hreg := ((Reached.after hn past).sound.get?_nonce hreq).mpr hw
    refine ⟨r, hreq, hreg, hw.1, hw.2, hempty, fun t' d hd e => ?_⟩
    -- A chunk that waits would stand at a full channel.
    obtain ⟨r', hreq', -, hfull, -⟩ := Hub.full_of_quiet hn hq hd
    rw [e, hreq] at hreq'
    cases hreq'
    rw [hempty] at hfull
    exact absurd hn.capacity_pos (Nat.not_lt_of_le (Nat.le_of_eq hfull.symm))
  · have hw : ¬r.Waiting := by
      rcases hended with hc | hc
      · exact Request.not_waiting_of_complete hc
      · exact Request.not_waiting_of_cancelled hc
    exact Hub.settles fun ts hrest t task ht hr => Hub.readers_end hn hreq hw ht hr hrest
  · have hreach := Reached.after hn (.shutdown :: past)
    refine Hub.settles fun ts hrest t task id ht hr => ?_
    have hholds : (h.after (.shutdown :: past)).scene.Holds (some t) id :=
      (Scene.stream?_of_task ht).trans hr.stream?
    obtain ⟨r, hreq⟩ : ∃ r, (h.after (.shutdown :: past)).book.requests[id]? = some r :=
      ⟨_, Array.getElem?_eq_getElem (hreach.owned.lt_of_holds hholds)⟩
    have hw : ¬r.Waiting := by
      intro hw
      have hreg := (hreach.sound.get?_nonce hreq).mpr hw
      have hempty : (h.after (.shutdown :: past)).book.registry = .empty :=
        (h.after past).book.registry_shutdown
      have hreg : (h.after (.shutdown :: past)).book.registry.get? r.nonce = some id := hreg
      rw [hempty] at hreg
      simp [Registry.get?, Registry.empty] at hreg
    exact Hub.readers_end hn hreq hw ht hr hrest

def emptyHanded : List Action := [.segment 0, .collect (.all ⟨1⟩) "t"]

theorem emptyHanded_waits :
    (Hub.sample .accept).IsNew ∧
      ((Hub.sample .accept).after emptyHanded).book.registry.get? "x" = some 0 ∧
      ((Hub.sample .accept).after (.cancel 0 :: emptyHanded)).Settles fun g => g.task? 0 = none := by
  have hn := Hub.sample_isNew .accept
  have hq : ((Hub.sample .accept).after emptyHanded).Quiet := by
    apply Hub.quiet_of_lt
    intro t ht
    obtain rfl := Nat.lt_one_iff.mp ht
    rfl
  have hreq : ((Hub.sample .accept).after emptyHanded).book.requests[0]? = some _ := rfl
  obtain ⟨r, hr, hreg, -⟩ := (readers_not_stranded hn emptyHanded).1 hq 0 _ 0 rfl (.call rfl)
  cases hreq.symm.trans hr
  refine ⟨hn, hreg, ?_⟩
  have hends := (readers_not_stranded hn (.cancel 0 :: emptyHanded)).2.1 0 _ rfl (.inr rfl)
  exact hends.mono fun g hg => (hg 0 _ rfl (.call rfl)).1

end Rollcall
