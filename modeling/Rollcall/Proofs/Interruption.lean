import Rollcall.Proofs.Looping

/-!
# Interrupted chunks

A task that is dropped in the middle of a chunk, or a loop that is told to stop there, leaves the
line of the request, and that is all that changes of the request: the chunk is never counted, and
the next in line can go on. Main statement: `loops_in_order`.
-/

namespace Rollcall

theorem mem_arrivals_of_closed {j : List Occurrence} {id : RequestId} {a : Arrival}
    (ha : a ∈ arrivals j id) (hu : a.isUnderway = false) (os : List Occurrence) :
    a ∈ arrivals (j ++ os) id := by
  have closed {as : List Arrival} (t : TaskId) (fate : Fate) (hm : a ∈ as) :
      a ∈ as.map (Arrival.close t fate) := by
    refine List.mem_map.mpr ⟨a, hm, ?_⟩
    rw [Arrival.close, hu, if_neg fun both => Bool.noConfusion both.2]
  rw [arrivals_append]
  generalize arrivals j id = as at ha
  induction os generalizing as with
  | nil => exact ha
  | cons o os ih =>
    apply ih
    cases o with
    | arrived t i c =>
      simp only [Arrival.meet]
      split
      · exact List.mem_append_left _ ha
      · exact ha
    | settled t i r =>
      simp only [Arrival.meet]
      split
      · exact closed t _ ha
      · exact ha
    | interrupted t i =>
      simp only [Arrival.meet]
      split
      · exact closed t _ ha
      · exact ha
    | _ => exact ha

namespace Hub

variable {h : Hub} {t t' : TaskId} {a : Action} {d : Delivery} {past : List Action}

/-- The actions that interrupt a task in the middle of a chunk: the task is dropped, or it is a loop
that has been told to stop. -/
inductive Interrupts (h : Hub) (t : TaskId) (d : Delivery) : Action → Prop
  | drop (hd : h.delivery? t = some d) : Interrupts h t d (.dropTask t)
  | stop {index : Nat} {l : EventLoop} (ht : h.task? t = some (.loop index (some d)))
      (hl : h.loops[index]? = some l) (hs : l.stopping = true) : Interrupts h t d (.segment t)

structure Cuts (h : Hub) (t : TaskId) (d : Delivery) (a : Action) : Prop where
  held : h.delivery? t = some d
  book : (h.perform a).book = h.book.modify d.request (·.leave t)
  stats : (h.perform a).stats = h.stats
  gone : (h.perform a).task? t = none
  others : ∀ t', t' ≠ t → (h.perform a).task? t' = h.task? t'
  told : h.occurrences a = [.interrupted t d.request]

theorem Interrupts.cuts (hi : h.Interrupts t d a) : h.Cuts t d a := by
  cases hi with
  | drop hd =>
    obtain ⟨task, ht, hdel⟩ := Option.bind_eq_some_iff.mp hd
    have hperform : h.perform (.dropTask t) = (h.abandon t task).setTask t none := by
      simp only [perform, dropTask, ht]
    have habandon : (h.abandon t task).book = h.book.modify d.request (·.leave t) ∧
        (h.abandon t task).stats = h.stats := by
      cases task with
      | call c => cases hdel
      | reader id goal got => cases hdel
      | handler e => cases hdel
      | delivering d' =>
        cases hdel
        exact ⟨rfl, rfl⟩
      | loop index current =>
        cases hdel
        exact ⟨rfl, rfl⟩
    have hset := task?_setTask (x := none) (tasks_abandon h t task) (lt_of_task? ht)
    constructor
    · exact hd
    · rw [hperform]
      exact habandon.1
    · rw [hperform]
      exact habandon.2
    · rw [hperform, hset, if_pos rfl]
    · intro t' hne
      rw [hperform, hset, if_neg hne]
    · rw [occurrences, hd, Option.elim_some]
  | @stop index l ht hl hs =>
    have hm : h.advanceTask t (.loop index (some d)) =
        .done ((h.interrupt d t).stopLoop index) .stopped := by
      simp only [advanceTask, advanceLoop, hl, hs, if_true]
    have hend := perform_of_done ht hm
    constructor
    · exact delivery?_of_task ht
    · rw [hend]
      rfl
    · rw [hend]
      rfl
    · rw [hend]
      have htasks : ((h.interrupt d t).stopLoop index).tasks = h.tasks := rfl
      exact task?_setTask_self ht htasks none
    · intro t' hne
      exact task?_segment hne
    · simp [occurrences, ht, segmentOccurrences, loopOccurrences, hl, hs]

theorem advance_ne_none {task : Task} (ht : h.task? t = some task)
    (hm : h.advanceTask t task ≠ .blocked) : h.advance t ≠ none := by
  unfold advance
  simp only [ht]
  cases hmove : h.advanceTask t task with
  | blocked => exact absurd hmove hm
  | moved g task' => nofun
  | done g o => nofun

/-! ## The next in line -/

/-- When the head of a line leaves it, the next in line can go on at once. -/
theorem advance_of_next (hn : h.IsNew) (hc : (h.after past).Cuts t d a) {r : Request}
    (hq : (h.after past).book.requests[d.request]? = some r) (hhead : r.line.head? = some t)
    (hnext : (r.leave t).line.head? = some t') : (h.after (a :: past)).advance t' ≠ none := by
  have hr := Reached.after hn past
  obtain ⟨ts, hline⟩ : ∃ ts, r.line = t :: ts := by
    cases hl : r.line with
    | nil => simp [hl] at hhead
    | cons t₀ ts =>
      rw [hl] at hhead
      cases hhead
      exact ⟨ts, rfl⟩
  have hleft : (r.leave t).line = ts := by simp [Request.leave, hline]
  have hmem : t' ∈ ts := List.mem_of_mem_head? (hleft ▸ hnext)
  have hnd := hr.lined.nodup hq
  rw [hline] at hnd
  have hne : t' ≠ t := fun e => (List.nodup_cons.mp hnd).1 (e ▸ hmem)
  obtain ⟨d', hd', hid⟩ := hr.lined.holds hq (hline ▸ List.mem_cons_of_mem t hmem)
  obtain ⟨task, ht, hdel⟩ := Option.bind_eq_some_iff.mp hd'
  have ht' : (h.after (a :: past)).task? t' = some task := (hc.others t' hne).trans ht
  have hq' : (h.after (a :: past)).book.requests[d'.request]? = some (r.leave t) := by
    rw [after, hc.book, hid]
    exact (Book.replaces_modify hq _).self
  refine advance_ne_none ht' (advanceTask_ne_blocked hdel (fun index current he => ?_) ?_)
  · exact loop_lt hn (he ▸ ht')
  · refine Delivery.advance_ne_blocked hq' hnext fun m rest n k hs => ?_
    -- Only the head of a line places members.
    obtain ⟨r₀, hr₀, hhead₀, -⟩ := hr.lined.placing hd' hs
    rw [hid] at hr₀
    cases hq.symm.trans hr₀
    rw [hhead] at hhead₀
    exact absurd (Option.some.inj hhead₀).symm hne

/-! ## Ever after -/

structure Drops (h : Hub) (t : TaskId) (id : RequestId) (c : Chunk) (past : List Action) : Prop where
  listed : { task := t, chunk := c, fate := .dropped } ∈ arrivals (h.journal past) id
  -- of a chunk that was dropped the first few accepted members have been placed
  placed : ∀ r, (h.after past).book.requests[id]? = some r →
    ∃ ps : List Part, ps.map (·.1) = arrivals (h.journal past) id ∧
      (∀ p ∈ ps, p.1.Allows r.accepts p.2) ∧ Part.line ps = r.line ∧
      Part.placed ps = r.channel.placed
  -- a chunk that was dropped is not counted
  counted : ∀ r, (h.after past).book.requests[id]? = some r → r.cancelled = false →
    Tally (arrivals (h.journal past) id) r

structure LetsGo (h : Hub) (t : TaskId) (d : Delivery) (a : Action) (past : List Action) : Prop where
  book : (h.after (a :: past)).book = (h.after past).book.modify d.request (·.leave t)
  stats : (h.after (a :: past)).stats = (h.after past).stats
  gone : (h.after (a :: past)).task? t = none
  line : ∃ r, (h.after past).book.requests[d.request]? = some r ∧ t ∈ r.line ∧
    t ∉ (r.leave t).line ∧ ∀ t', r.line.head? = some t → (r.leave t).line.head? = some t' →
      (h.after (a :: past)).advance t' ≠ none
  chunk : ∃ c, c.count = d.declared ∧ d.unsought <:+ c.stamped ∧
    ∀ later, h.Drops t d.request c (later ++ a :: past)

theorem drops (hn : h.IsNew) {id : RequestId} {c : Chunk}
    (hm : { task := t, chunk := c, fate := .dropped } ∈ arrivals (h.journal past) id)
    (later : List Action) : h.Drops t id c (later ++ past) := by
  have hr := Reached.after hn (later ++ past)
  refine ⟨?_, fun r hq => ?_, fun r hq hlive => hr.tally hq hlive⟩
  · obtain ⟨os, hj, -⟩ := h.changes_append past later
    rw [hj]
    exact mem_arrivals_of_closed hm rfl os
  · obtain ⟨ps, ho⟩ := hr.ordered hq
    exact ⟨ps, ho.arrivals, fun p hp => ho.allows hp, ho.line, ho.placed⟩

theorem letsGo (hn : h.IsNew) (hi : (h.after past).Interrupts t d a) : h.LetsGo t d a past := by
  have hr := Reached.after hn past
  have hc := hi.cuts
  obtain ⟨r, hq, hm⟩ := hr.lined.listed hc.held
  obtain ⟨x, hx, htask, hu, hcount, come, hcome⟩ := hr.backed hc.held
  refine ⟨hc.book, hc.stats, hc.gone, ⟨r, hq, hm, ?_, fun t' => advance_of_next hn hc hq⟩,
    x.chunk, hcount, ⟨come, hcome.symm⟩, drops hn ?_⟩
  · exact fun hm' => (hr.lined.nodup hq).not_mem_erase hm'
  · have hclosed : x.close t .dropped = { task := t, chunk := x.chunk, fate := .dropped } := by
      rw [Arrival.close, if_pos ⟨htask, hu⟩, htask]
    rw [journal, hc.told, arrivals_append, List.foldl_cons, List.foldl_nil, Arrival.meet,
      if_pos rfl]
    exact List.mem_map.mpr ⟨x, hx, hclosed⟩

/-- A loop that is told to stop does so in its next segment, whatever it waits for. -/
theorem stops_when_told (hn : h.IsNew) {index : Nat} {current : Option Delivery}
    (ht : (h.after past).task? t = some (.loop index current)) :
    let told := h.after (.segment t :: .tellToStop index :: past)
    told.task? t = none ∧ (t, .stopped) ∈ told.finished ∧
      told.book = current.elim (h.after past).book fun d => d.interrupt t (h.after past).book := by
  have ht' : (h.after (.tellToStop index :: past)).task? t = some (.loop index current) := ht
  have hl : (h.after (.tellToStop index :: past)).loops[index]? = some _ :=
    loops_modify_self (Array.getElem?_eq_getElem (loop_lt hn ht)) _
  have hb := (Reached.after hn (.tellToStop index :: past)).sound
  cases loop_segment hb ht' hl with
  | waits hs => cases hs
  | goesOn current' hs => cases hs
  | takes e rest current' hs => cases hs
  | stops hwhy he hgone =>
    refine ⟨hgone, ?_, ?_⟩
    · rw [after, he]
      exact Array.mem_push_self
    · rw [after, he]
      cases current <;> rfl

end Hub

/-- **Loops work through their events in order, and are interrupted cleanly.** Whatever else is
done, the events that a loop has handled to their end come first among those pushed into its queue,
in order, and after them at most one has begun, while the rest is in the queue. A loop that stops
without having been told to has handled all of them, and once it is gone nothing more comes of it. A
task that is interrupted in the middle of a chunk leaves the line of the request, so that the next
in line can go on; nothing else changes of the request, and ever after the chunk counts for nothing
but the first few accepted members that have been placed of it. A loop that is told to stop does so
at once, whatever channel it waits for. -/
theorem loops_in_order {h : Hub} (hn : h.IsNew) (past : List Action) :
    (∀ before later t index, past = later ++ .run :: before →
      (h.after before).run.1 = (t, index) → h.WorksThrough t index past) ∧
    (∀ t d a, (h.after past).Interrupts t d a → h.LetsGo t d a past) ∧
    ∀ t index current, (h.after past).task? t = some (.loop index current) →
      let told := h.after (.segment t :: .tellToStop index :: past)
      told.task? t = none ∧ (t, .stopped) ∈ told.finished ∧
        told.book = current.elim (h.after past).book fun d => d.interrupt t (h.after past).book := by
  refine ⟨?_, fun t d a hi => Hub.letsGo hn hi, fun t index current ht => Hub.stops_when_told hn ht⟩
  rintro before later t index rfl hrun
  exact Hub.worksThrough hn hrun

/-- A loop waits with the second member of a chunk for room, and another event is queued. -/
def loopHeldUp : List Action :=
  [.segment 1, .segment 1, .push 0 [.chunk (.sample [.sample "a", .sample "b"]), .other "READY"], .run,
    .segment 0, .callStream (.all ⟨1⟩)]

theorem loopHeldUp_stops :
    (Hub.sample .accept).IsNew ∧
      ((Hub.sample .accept).trail 1 loopHeldUp).begun <+: (Hub.sample .accept).pushed 0 loopHeldUp ∧
      (1, .stopped) ∈
        ((Hub.sample .accept).after (.segment 1 :: .tellToStop 0 :: loopHeldUp)).finished ∧
      ∃ d, (Hub.sample .accept).LetsGo 1 d (.dropTask 1) loopHeldUp := by
  have hn := Hub.sample_isNew .accept
  obtain ⟨horder, hcut, htold⟩ := loops_in_order hn loopHeldUp
  have ht : ((Hub.sample .accept).after loopHeldUp).task? 1 = some (.loop 0 (some _)) := rfl
  refine ⟨hn, ?_, (htold 1 0 _ ht).2.1, _, hcut 1 _ (.dropTask 1) (.drop (Hub.delivery?_of_task ht))⟩
  exact (horder [.segment 0, .callStream (.all ⟨1⟩)] [_, _, _] 1 0 rfl rfl).order

end Rollcall
