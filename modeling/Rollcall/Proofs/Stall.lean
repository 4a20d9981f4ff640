import Rollcall.Proofs.Readers

/-!
# What holds up events

Whoever handles events may have to wait for a request whose channel is full. Such a request waits
itself, and its stream is alive and not being read; so cancelling it, dropping its stream or shutting
down lets the events go on. Main statement: `held_up_by_full_request`.
-/

namespace Rollcall

namespace Hub

/-- Whether the stream of a request is alive and nobody reads it: the caller keeps it, or a call that
waits for its shard. -/
def Unread (h : Hub) (id : RequestId) : Prop :=
  (id ∈ h.streams ∧ ∀ t task, h.task? t = some task → task.stream? ≠ some id) ∨
    ∃ t c, h.task? t = some (.call c) ∧ c.stage = .sending id none

structure HeldUp (h : Hub) (t : TaskId) (d : Delivery) (r : Request) : Prop where
  request : h.book.requests[d.request]? = some r
  registered : h.book.registry.get? r.nonce = some d.request
  complete : r.complete = false
  cancelled : r.cancelled = false
  full : r.channel.unread.length = h.limits.capacity.toNat
  -- a member waits for room, or the chunk waits behind another of which a member waits for room
  waits : d.Placing ∨ (∃ ms, d.stage = .inLine ms) ∧ ∃ t' d', t' ≠ t ∧ r.line.head? = some t' ∧
    h.delivery? t' = some d' ∧ d'.request = d.request ∧ d'.Placing
  unread : h.Unread d.request

inductive Releases (h : Hub) (id : RequestId) : Action → Prop
  | cancel : Releases h id (.cancel id)
  | discard (hid : id ∈ h.streams) : Releases h id (.discard id)
  | dropTask {t : TaskId} {task : Task} (ht : h.task? t = some task)
      (hs : task.stream? = some id) : Releases h id (.dropTask t)
  | shutdown : Releases h id .shutdown

variable {h g : Hub} {t : TaskId} {id : RequestId}

/-! ## Tasks that handle events -/

theorem delivery?_of_task {task : Task} (ht : h.task? t = some task) :
    h.delivery? t = task.delivery? := by
  rw [delivery?, ht, Option.bind_some]

theorem receive_ne_blocked (hb : h.book.Sound) (e : Event) : h.receive t e ≠ .blocked := by
  intro hm
  cases e with
  | other kind => cases hm
  | chunk c =>
    unfold receive at hm
    simp only at hm
    split at hm
    · cases hm
    · rename_i id hid
      refine deliver_ne_blocked ?_ hm
      obtain ⟨n, -, hn⟩ := Option.bind_eq_some_iff.mp hid
      obtain ⟨r, hr, -⟩ := (hb.registered n id).mp hn
      simp only [Delivery.advance, hr]
      split
      · exact Delivery.begin_ne_blocked
      · intro hjoined
        cases hjoined

theorem queue_of_blocked (hb : h.book.Sound) {index : Nat} {l : EventLoop}
    (hl : h.loops[index]? = some l) (hm : h.advanceLoop t index none = .blocked) :
    l.queue = [] := by
  unfold advanceLoop at hm
  rw [hl] at hm
  simp only at hm
  split at hm
  · cases hm
  split at hm
  · refine absurd hm (loopMove_ne_blocked (receive_ne_blocked ?_ _) index)
    exact hb
  · assumption

/-- When no task can move, whoever handles events has a chunk at hand, or nothing at all. -/
theorem attends_of_quiet (hn : h.IsNew) {past : List Action} (hq : (h.after past).Quiet)
    {task : Task} (ht : (h.after past).task? t = some task) (ha : task.Attends) :
    (∃ d, task.delivery? = some d) ∨ ∃ index l, task = .loop index none ∧
      (h.after past).loops[index]? = some l ∧ l.queue = [] := by
  have hb := (Reached.after hn past).sound
  have hblocked := blocked_of_quiet hq ht
  cases task with
  | call c => exact ha.elim
  | reader i goal got => exact ha.elim
  | handler e => exact absurd hblocked (handlerMove_ne_blocked (receive_ne_blocked hb e))
  | delivering d => exact .inl ⟨d, rfl⟩
  | loop index current =>
    cases current with
    | some d => exact .inl ⟨d, rfl⟩
    | none =>
      have hl := Array.getElem?_eq_getElem (loop_lt hn ht)
      exact .inr ⟨index, _, rfl, hl, queue_of_blocked hb hl hblocked⟩

/-! ## Streams that nobody reads -/

theorem unread_of_quiet (hn : h.IsNew) {past : List Action} (hq : (h.after past).Quiet)
    {r : Request} (hr : (h.after past).book.requests[id]? = some r) (hw : r.Waiting)
    (hu : r.channel.unread ≠ []) : (h.after past).Unread id := by
  have hreach := Reached.after hn past
  obtain ⟨x, hx⟩ := hreach.holds_of_waiting hr hw
  cases x with
  | none =>
    refine .inl ⟨hx, fun t task ht hs => ?_⟩
    have hholds : (h.after past).scene.Holds (some t) id := (Scene.stream?_of_task ht).trans hs
    cases hreach.owned.sole hx hholds
  | some t =>
    obtain ⟨task, ht, hs⟩ := Option.bind_eq_some_iff.mp hx
    have not_read (hreads : task.Reads id) : False := by
      obtain ⟨r', hr', -, hempty⟩ := waiting_of_reads hn hq ht hreads
      cases hr.symm.trans hr'
      exact hu hempty
    cases task with
    | call c =>
      cases hstage : c.stage with
      | starting => simp [Task.stream?, hstage] at hs
      | sending i result =>
        simp only [Task.stream?, hstage, Option.some.injEq] at hs
        subst hs
        cases result with
        | none => exact .inr ⟨t, c, ht, hstage⟩
        | some result => exact (not_read (.sent hstage)).elim
      | reading i got =>
        simp only [Task.stream?, hstage, Option.some.injEq] at hs
        subst hs
        exact (not_read (.call hstage)).elim
    | reader i goal got =>
      cases hs
      exact (not_read (.reader goal got)).elim
    | handler e => cases hs
    | delivering d => cases hs
    | loop index current => cases hs

theorem heldUp_of_quiet (hn : h.IsNew) {past : List Action} (hq : (h.after past).Quiet)
    {d : Delivery} (hd : (h.after past).delivery? t = some d) :
    ∃ r, (h.after past).HeldUp t d r := by
  obtain ⟨r, hr, hw, hfull, hwaits⟩ := full_of_quiet hn hq hd
  have hu : r.channel.unread ≠ [] := by
    intro hempty
    rw [hempty] at hfull
    exact absurd hn.capacity_pos (Nat.not_lt_of_le (Nat.le_of_eq hfull.symm))
  exact ⟨r, {
    request := hr
    registered := ((Reached.after hn past).sound.get?_nonce hr).mpr hw
    complete := hw.1
    cancelled := hw.2
    full := by rw [h.limits_after past]; exact hfull
    waits := hwaits
    unread := unread_of_quiet hn hq hr hw hu }⟩

/-! ## Release -/

theorem book_of_dropTask {task : Task} (ht : h.task? t = some task)
    (hs : task.stream? = some id) : (h.perform (.dropTask t)).book = h.book.dropStream id := by
  simp only [perform, dropTask, ht, abandon_of_stream hs]
  rfl

theorem Releases.not_waiting {a : Action} (ha : h.Releases id a) (hb : h.book.Sound) {r : Request}
    (hr : (h.perform a).book.requests[id]? = some r) : ¬r.Waiting := by
  cases ha with
  | cancel => exact hb.not_waiting_of_cancel hr
  | discard hid =>
    simp only [perform, if_pos hid] at hr
    exact hb.not_waiting_of_dropStream hr
  | dropTask ht hs =>
    rw [book_of_dropTask ht hs] at hr
    exact hb.not_waiting_of_dropStream hr
  | shutdown =>
    intro hw
    have hr : h.book.shutdown.2.requests[id]? = some r := hr
    have hreg := (hb.shutdown.get?_nonce hr).mpr hw
    rw [h.book.registry_shutdown] at hreg
    simp [Registry.get?, Registry.empty] at hreg

theorem Releases.task? {a : Action} (ha : h.Releases id a) {task : Task}
    (ht : h.task? t = some task) (hs : task.stream? = none) : (h.perform a).task? t = some task := by
  cases ha with
  | cancel => exact ht
  | discard hid =>
    simp only [perform, if_pos hid]
    exact ht
  | @dropTask t₀ task₀ ht₀ hs₀ =>
    have hne : t ≠ t₀ := by
      rintro rfl
      cases ht.symm.trans ht₀
      cases hs.symm.trans hs₀
    simp only [perform, Hub.dropTask, ht₀]
    rw [task?_setTask (h.tasks_abandon t₀ task₀) (lt_of_task? ht₀), if_neg hne]
    exact ht
  | shutdown => exact ht

end Hub

theorem Delivery.request_of_moved {d d' : Delivery} {t : TaskId} {b b' : Book}
    (h : d.advance t b = .moved b' d') : d'.request = d.request := by
  have begun {r : Request} {ms : List Member} {b : Book} (h : d.begin t b r ms = .moved b' d') :
      d'.request = d.request := by
    simp only [begin, abandon] at h
    split at h
    · cases h
    split at h
    · cases h
    · obtain ⟨m, rest, k, -, -, -, rfl⟩ := proceed_moved h
      rfl
  unfold advance at h
  split at h
  · cases h
  split at h
  · split at h
    · exact begun h
    · cases h
      rfl
  · split at h
    · exact begun h
    · cases h
  · simp only [abandon] at h
    split at h
    · cases h
    split at h
    · obtain ⟨m, rest, k, -, -, -, rfl⟩ := proceed_moved h
      rfl
    · cases h

namespace Hub

variable {h g : Hub} {t : TaskId} {id : RequestId}

def HandsTo (id : RequestId) (task : Task) : Prop := ∃ d, task = .delivering d ∧ d.request = id

theorem handsTo_of_moved {task task' : Task} (hp : HandsTo id task)
    (hm : h.advanceTask t task = .moved g task') : HandsTo id task' := by
  obtain ⟨d, rfl, hid⟩ := hp
  simp only [advanceTask, deliver] at hm
  cases hb : d.advance t h.book with
  | blocked =>
    rw [hb] at hm
    cases hm
  | moved b d' =>
    rw [hb] at hm
    cases hm
    exact ⟨d', rfl, (Delivery.request_of_moved hb).trans hid⟩
  | done b out =>
    rw [hb] at hm
    cases hm

theorem handled_of_done {task : Task} {o : Outcome} (hp : HandsTo id task)
    (hm : h.advanceTask t task = .done g o) : o = .handled := by
  obtain ⟨d, rfl, -⟩ := hp
  simp only [advanceTask] at hm
  cases hb : h.deliver t d with
  | blocked =>
    rw [hb] at hm
    cases hm
  | moved h' d' =>
    rw [hb] at hm
    cases hm
  | done h' u =>
    rw [hb] at hm
    cases hm
    rfl

/-- However the tasks run on from a request that has ended, in the end no chunk stands at it, and
every handling of a chunk for it that was under way is done. -/
theorem handled_at_rest (hn : h.IsNew) {past : List Action} {r : Request}
    (hq : (h.after past).book.requests[id]? = some r) (hw : ¬r.Waiting) :
    (h.after past).Settles fun g => (∀ t d, g.delivery? t = some d → d.request ≠ id) ∧
      ∀ t d, (h.after past).task? t = some (.delivering d) → d.request = id →
        g.task? t = none ∧ (t, .handled) ∈ g.finished := by
  apply settles
  intro ts hrest
  obtain ⟨r', hq', hno⟩ := not_waiting_after hn hq hw (ts.map .segment)
  constructor
  · intro t d hd
    exact no_delivery_of_quiet hn hrest hq' hno hd
  · intro t d ht hid
    rcases followed handsTo_of_moved handled_of_done ht ⟨d, rfl, hid⟩ ts with
      ⟨task', ht', d', rfl, hid'⟩ | ⟨hnone, o, rfl, ho⟩
    · exact absurd hid' (no_delivery_of_quiet hn hrest hq' hno (delivery?_of_task ht'))
    · exact ⟨hnone, ho⟩

end Hub

/-- **Events are held up by a full request only.** No channel ever holds more members than the limits
allow. When no task can move, whoever handles events either has nothing to handle, or is held up with
a chunk by a request that is registered and full and whose stream nobody reads. Once that request is
cancelled, its stream is dropped or all is shut down, then however the tasks run on, no chunk is held
up by it in the end, and every handling of a chunk for it is done. -/
theorem held_up_by_full_request {h : Hub} (hn : h.IsNew) (past : List Action) :
    (∀ (id : RequestId) r, (h.after past).book.requests[id]? = some r →
      r.channel.unread.length ≤ h.limits.capacity.toNat) ∧
    ((h.after past).Quiet → ∀ t task, (h.after past).task? t = some task → task.Attends →
      (∃ d r, task.delivery? = some d ∧ (h.after past).HeldUp t d r) ∨
      ∃ index l, task = .loop index none ∧ (h.after past).loops[index]? = some l ∧ l.queue = []) ∧
    ∀ (id : RequestId) r a, (h.after past).book.requests[id]? = some r →
      (h.after past).Releases id a → (h.after (a :: past)).Settles fun g =>
        (∀ t d, g.delivery? t = some d → d.request ≠ id) ∧
        ∀ t d, (h.after past).task? t = some (.delivering d) → d.request = id →
          g.task? t = none ∧ (t, .handled) ∈ g.finished := by
  refine ⟨fun id r hr => room_after hn past hr, fun hq t task ht ha => ?_, fun id r a hr ha => ?_⟩
  · rcases Hub.attends_of_quiet hn hq ht ha with ⟨d, hd⟩ | hidle
    · obtain ⟨r, hheld⟩ := Hub.heldUp_of_quiet hn hq ((Hub.delivery?_of_task ht).trans hd)
      exact .inl ⟨d, r, hd, hheld⟩
    · exact .inr hidle
  · have hreach := Reached.after hn past
    obtain ⟨r', hr', -⟩ := hreach.later_changes (Hub.perform_changes _ a) id r hr
    have hr' : (h.after (a :: past)).book.requests[id]? = some r' := hr'
    have hw : ¬r'.Waiting := ha.not_waiting hreach.sound hr'
    refine (Hub.handled_at_rest hn hr' hw).mono fun g hg => ⟨hg.1, fun t d ht hid => ?_⟩
    exact hg.2 t d (ha.task? ht rfl) hid

/-- Of a chunk of two members the first takes all the room there is, and nobody reads. -/
def fullChannel : List Action :=
  [.segment 1, .segment 1, .dispatch (.chunk (.sample [.sample "a", .sample "b"])), .segment 0,
    .callStream (.all ⟨1⟩)]

theorem fullChannel_holdsUp :
    (Hub.sample .accept).IsNew ∧
      (∃ d r, ((Hub.sample .accept).after fullChannel).HeldUp 1 d r) ∧
      ((Hub.sample .accept).after (.discard 0 :: fullChannel)).Settles fun g =>
        (1, .handled) ∈ g.finished := by
  have hn := Hub.sample_isNew .accept
  have hq : ((Hub.sample .accept).after fullChannel).Quiet := by
    apply Hub.quiet_of_lt
    intro t ht
    have htasks : ((Hub.sample .accept).after fullChannel).tasks.size = 2 := rfl
    rw [htasks] at ht
    obtain rfl | rfl : t = 0 ∨ t = 1 := by omega
    · rfl
    · rfl
  have htask : ((Hub.sample .accept).after fullChannel).task? 1 = some (.delivering _) := rfl
  have hreq : ((Hub.sample .accept).after fullChannel).book.requests[0]? = some _ := rfl
  have hid : 0 ∈ ((Hub.sample .accept).after fullChannel).streams := List.mem_singleton.mpr rfl
  obtain ⟨-, hrest, hreleased⟩ := held_up_by_full_request hn fullChannel
  refine ⟨hn, ?_, ?_⟩
  · rcases hrest hq 1 _ htask trivial with ⟨d, r, -, hheld⟩ | ⟨index, l, hloop, -⟩
    · exact ⟨d, r, hheld⟩
    · cases hloop
  · have hends := hreleased 0 _ _ hreq (.discard hid)
    exact hends.mono fun g hg => (hg.2 1 _ htask rfl).2

end Rollcall
