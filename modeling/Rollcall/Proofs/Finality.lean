import Rollcall.Proofs.Readers

/-!
# After the end of a request

A request ends cancelled or complete. Nothing more is placed in the channel of a cancelled request, and
nothing is given out of it even if members are left. A complete request can no longer be cancelled, and
whoever reads it to the end gets all that is left in its channel. Main statement: `ended_for_good`.
-/

namespace Rollcall

/-! ## Reading a request that has ended -/

namespace Book

variable {b : Book} {id : RequestId} {r : Request}

theorem recv_of_cancelled (hq : b.requests[id]? = some r) (hc : r.cancelled = true) :
    (b.recv id).1 = .ended := by
  simp [recv_eq hq, Request.reading, hc]

theorem recvAll_of_cancelled (hq : b.requests[id]? = some r) (hc : r.cancelled = true) :
    (b.recvAll id).1 = [] ∧ (b.recvAll id).2.1 = .ended := by
  have hended := recv_of_cancelled hq hc
  simp only [recvAll, hq]
  cases hn : r.channel.unread.length with
  | zero => exact ⟨rfl, hended⟩
  | succ n =>
    simp only [recvAll.go]
    generalize b.recv id = x at hended
    obtain ⟨y, b'⟩ := x
    cases hended
    exact ⟨rfl, rfl⟩

theorem recvAll_go {n : Nat} (got : List Member) (hq : b.requests[id]? = some r)
    (hc : r.cancelled = false) (ho : r.senderOpen = false) (hn : r.channel.unread.length = n) :
    (recvAll.go id n b got).1 = got.reverse ++ r.channel.unread ∧
      (recvAll.go id n b got).2.1 = .ended := by
  induction n generalizing b r got with
  | zero =>
    have hu : r.channel.unread = [] := List.length_eq_zero_iff.mp hn
    simp [recvAll.go, recv_eq hq, Request.reading, hc, ho, hu]
  | succ n ih =>
    obtain ⟨m, rest, hu⟩ := List.exists_cons_of_length_eq_add_one hn
    have hself := (replaces_modify hq Request.afterReading).self
    have hafter : r.afterReading = { r with channel := r.channel.take } := by
      simp [Request.afterReading, hc]
    rw [hafter] at hself
    have hlen : ({ r with channel := r.channel.take } : Request).channel.unread.length = n := by
      simpa [Channel.take, hu] using hn
    have hstep := ih (m :: got) hself hc ho hlen
    have hreading : r.reading = .member m := by
      simp [Request.reading, hc, hu]
    simp only [recvAll.go, recv_eq hq, hreading]
    simpa [Channel.take, hu] using hstep

/-- What is left of a request whose sender is closed is given out before the end. -/
theorem recvAll_of_closed (hq : b.requests[id]? = some r) (hc : r.cancelled = false)
    (ho : r.senderOpen = false) :
    (b.recvAll id).1 = r.channel.unread ∧ (b.recvAll id).2.1 = .ended := by
  simp only [recvAll, hq]
  exact recvAll_go [] hq hc ho rfl

theorem recv_of_closed (hq : b.requests[id]? = some r) (hc : r.cancelled = false)
    (ho : r.senderOpen = false) :
    (b.recv id).1 = (r.channel.unread.head?).elim .ended .member := by
  rw [recv_eq hq]
  simp only [Request.reading, hc, ho]
  cases r.channel.unread <;> rfl

end Book

/-! ## Cancelled requests -/

theorem Delivery.Turn.placed_of_cancelled {t : TaskId} {declared : UInt32} {r r' : Request}
    {stage : Stage} {out : Stage ⊕ Delivered} (h : Turn t declared r stage r' out)
    (hc : r.cancelled = true) : r'.channel.placed = r.channel.placed := by
  have dead (live : r.cancelled = false) : False := by
    rw [hc] at live
    cases live
  cases h with
  | first => rfl
  | next live => exact (dead live).elim
  | late => rfl
  | refused => rfl
  | cut => rfl
  | nothing head sender live => exact (dead live).elim
  | last live => exact (dead live).elim

/-- The request is cancelled. Of the members `placed` that its channel has taken in, those in `read`
were given out. -/
def Scene.Barren (s : Scene) (id : RequestId) (placed read : List Member) : Prop :=
  ∃ r, s.book.requests[id]? = some r ∧ r.cancelled = true ∧ r.channel.placed = placed ∧
    r.channel.read = read

theorem Change.yielded_of_cancelled {s s' : Scene} {os : List Occurrence} {id : RequestId}
    {r : Request} (h : Change s os s') (hq : s.book.requests[id]? = some r)
    (hc : r.cancelled = true) : yielded os id = [] := by
  have other {i : RequestId} {m : Member} {b : Book} (hb : s.book.recv i = (.member m, b)) :
      yielded [.yielded i m] id = [] := by
    obtain ⟨q, rest, hq', hlive, -⟩ := Book.recv_member hb
    have hne : i ≠ id := by
      rintro rfl
      cases hq.symm.trans hq'
      rw [hc] at hlive
      cases hlive
    simp [yielded, hne]
  cases h with
  | recv hid hb => exact other hb
  | gather ht hs hb => exact other hb
  | take ht hb => exact other hb
  | _ => rfl

theorem Reached.barren {j os : List Occurrence} {s s' : Scene} (hr : Reached j s)
    (h : Change s os s') {id : RequestId} {placed read : List Member}
    (hb : s.Barren id placed read) : s'.Barren id placed read := by
  obtain ⟨r, hq, hc, rfl, rfl⟩ := hb
  obtain ⟨r', hq', hl⟩ := hr.later h id r hq
  refine ⟨r', hq', hl.cancelled hc, ?_, ?_⟩
  · obtain ⟨r₁, h1, hsame | ⟨t, d, out, -, -, hturn⟩⟩ := hr.places h hq
    · cases hq'.symm.trans h1
      exact hsame
    · cases hq'.symm.trans h1
      exact hturn.placed_of_cancelled hc
  · rw [(hr.step h).read_eq hq', hr.read_eq hq, yielded_append, h.yielded_of_cancelled hq hc,
      List.append_nil]

/-! ## Calls that end with members -/

namespace Hub

variable {h h' : Hub} {t : TaskId} {task : Task} {ms : List Member}

theorem reading_of_advanceCall {c : Call} (hm : h.advanceCall t c = .done h' (.members ms)) :
    ∃ id, c.stage = .reading id ms.reverse ∧ (h.book.recv id).1 = .ended ∧
      h.book.isCancelled id = false := by
  cases ending hm with
  | gathered id got hs htoken hend hlive ho =>
    cases ho
    rw [List.reverse_reverse]
    exact ⟨id, hs, hend, hlive⟩
  | expired d hd hdue ho => cases ho
  | cancelled ho => cases ho
  | refused f hs hst ho => cases ho
  | oversized hs hst ho => cases ho
  | unsent id cause hh ho => cases ho
  | opened id hg hh ho => cases ho

theorem reading_of_members (hm : h.advanceTask t task = .done h' (.members ms)) :
    ∃ c id, task = .call c ∧ c.stage = .reading id ms.reverse ∧ (h.book.recv id).1 = .ended ∧
      h.book.isCancelled id = false := by
  have handled {m : Move Hub Delivery Unit} : handlerMove m ≠ .done h' (.members ms) := by
    cases m <;> simp [handlerMove]
  have looped {index : Nat} {m : Move Hub Delivery Unit} :
      loopMove index m ≠ .done h' (.members ms) := by
    cases m <;> simp [loopMove]
  cases task with
  | call c =>
    obtain ⟨id, hread⟩ := reading_of_advanceCall (advanceCall_of_done hm)
    exact ⟨c, id, rfl, hread⟩
  | reader id goal got =>
    simp only [advanceTask, advanceReader] at hm
    split at hm
    · cases hm
    split at hm
    · split at hm <;> cases hm
    · cases hm
    · split at hm <;> cases hm
  | handler e => exact absurd hm handled
  | delivering d => exact absurd hm handled
  | loop index current =>
    simp only [advanceTask, advanceLoop] at hm
    split at hm
    · cases hm
    split at hm
    · split at hm
      · cases hm
      · exact absurd hm looped
    · split at hm
      · cases hm
      split at hm
      · exact absurd hm looped
      · split at hm <;> cases hm

theorem completed_of_members (hn : h.IsNew) {past : List Action}
    (hm : (t, .members ms) ∈ (h.after past).finished) :
    ∃ id, .made t id ∈ h.journal past ∧ (h.after past).scene.Completed id ms := by
  induction past with
  | nil =>
    obtain ⟨limits, selection, shards, caching, nonces, rfl⟩ := hn.eq
    simp [after] at hm
  | cons a past ih =>
    have hr := Reached.after hn past
    have later {id : RequestId} (hmade : .made t id ∈ h.journal past)
        (hc : (h.after past).scene.Completed id ms) :
        ∃ id, .made t id ∈ h.journal (a :: past) ∧
          (h.after (a :: past)).scene.Completed id ms := by
      have hkept : (h.after ([a] ++ past)).scene.Completed id ms :=
        Hub.keep (P := fun s => s.Completed id ms) hn hc (fun hr hc => hr.completed hc) [a]
      exact ⟨id, List.mem_append_left _ hmade, hkept⟩
    rw [after] at hm
    rcases (h.after past).finished_perform a with
      he | ⟨t', task, g, o, rfl, ht, hdone, -, he, -⟩
    · rw [he] at hm
      obtain ⟨id, hmade, hc⟩ := ih hm
      exact later hmade hc
    · rw [he] at hm
      rcases Array.mem_push.mp hm with hm | hm
      · obtain ⟨id, hmade, hc⟩ := ih hm
        exact later hmade hc
      · cases hm
        obtain ⟨c, id, rfl, hs, hended, hlive⟩ := reading_of_members hdone
        refine later ((hr.made_iff ht id).mpr (by simp [Task.stream?, hs])) ?_
        have hall := hr.gathered_all ht hs hended hlive
        rwa [List.reverse_reverse] at hall

end Hub

/-! ## Reading to the end -/

inductive Gatherer where
  | call (c : Call)
  | reader

namespace Gatherer

def task (x : Gatherer) (id : RequestId) (got : List Member) : Task :=
  match x with
  | call c => .call { c with stage := .reading id got }
  | reader => .reader id .all got

def finish : Gatherer → List Member → Outcome
  | call _ => .members
  | reader => .gathered

def token : Gatherer → Option Token
  | call c => Hub.watched c.goal
  | reader => none

theorem stream?_task (x : Gatherer) (id : RequestId) (got : List Member) :
    (x.task id got).stream? = some id := by
  cases x <;> rfl

end Gatherer

namespace Hub

variable {h : Hub} {t : TaskId} {x : Gatherer} {id : RequestId} {got : List Member} {r : Request}

theorem advance_gatherer_member (got : List Member) (hx : h.tokenCancelled x.token = false)
    (hq : h.book.requests[id]? = some r) (hc : r.cancelled = false) {m : Member}
    {rest : List Member} (hu : r.channel.unread = m :: rest) :
    h.advanceTask t (x.task id got) =
      .moved { h with book := h.book.modify id .afterReading } (x.task id (m :: got)) := by
  have hrecv : h.book.recv id = (.member m, h.book.modify id .afterReading) := by
    simp [Book.recv_eq hq, Request.reading, hc, hu]
  cases x with
  | call c =>
    have hlive : h.tokenCancelled (watched c.goal) = false := hx
    simp [Gatherer.task, advanceTask, advanceCall, advanceReading, hlive, hrecv]
  | reader => simp [Gatherer.task, advanceTask, advanceReader, hrecv]

theorem advance_gatherer_ended (got : List Member) (hx : h.tokenCancelled x.token = false)
    (hq : h.book.requests[id]? = some r) (hc : r.cancelled = false) (hu : r.channel.unread = [])
    (ho : r.senderOpen = false) :
    h.advanceTask t (x.task id got) = .done (h.dropStream id) (x.finish got.reverse) := by
  have hrecv : h.book.recv id = (.ended, h.book.modify id .afterReading) := by
    simp [Book.recv_eq hq, Request.reading, hc, hu, ho]
  have hlive : h.book.isCancelled id = false := (Book.isCancelled_eq hq).trans hc
  cases x with
  | call c =>
    have htoken : h.tokenCancelled (watched c.goal) = false := hx
    simp [Gatherer.task, Gatherer.finish, advanceTask, advanceCall, advanceReading, htoken, hrecv,
      hlive]
  | reader => simp [Gatherer.task, Gatherer.finish, advanceTask, advanceReader, hrecv]

theorem yielded_segmentOccurrences {task : Task} (hs : task.stream? ≠ some id) :
    yielded (h.segmentOccurrences t task) id = [] := by
  have yields {i : RequestId} (hi : i ≠ id) : yielded (h.yields i) id = [] := by
    unfold Hub.yields
    split
    · simp [yielded, hi]
    · rfl
  have deliveries (d : Delivery) : yielded (h.deliveries t d) id = [] := by
    unfold Hub.deliveries
    split <;> rfl
  have receipts (e : Event) : yielded (h.receipts t e) id = [] := by
    cases e with
    | other kind => rfl
    | chunk c =>
      simp only [Hub.receipts]
      split
      · rfl
      · split <;> rfl
  cases task with
  | call c =>
    simp only [segmentOccurrences, callOccurrences]
    split
    · split
      · rfl
      · split <;> rfl
    · rfl
    · rename_i i got hstage
      have hi : i ≠ id := by
        simpa [Task.stream?, hstage] using hs
      split
      · rfl
      · exact yields hi
  | reader i goal got =>
    have hi : i ≠ id := by
      simpa [Task.stream?] using hs
    simp only [segmentOccurrences]
    split
    · rfl
    · exact yields hi
  | handler e => exact receipts e
  | delivering d => exact deliveries d
  | loop index current =>
    simp only [segmentOccurrences, loopOccurrences]
    split
    · rfl
    split
    · split
      · rfl
      · exact deliveries _
    · split
      · rfl
      split
      · rfl
      · exact receipts _

theorem yielded_of_others (hn : h.IsNew) {past : List Action} {t' : TaskId}
    (hs : (h.after past).scene.stream? t = some id) (hne : t' ≠ t) :
    yielded ((h.after past).occurrences (.segment t')) id = [] := by
  simp only [occurrences]
  cases ht' : (h.after past).task? t' with
  | none => rfl
  | some task' =>
    apply yielded_segmentOccurrences
    intro hs'
    have hholds : (h.after past).scene.Holds (some t') id := (Scene.stream?_of_task ht').trans hs'
    exact hne (Option.some.inj ((Reached.after hn past).owned.sole hholds hs))

theorem tokenCancelled_segment (h : Hub) (t : TaskId) (token : Option Token) :
    (h.perform (.segment t)).tokenCancelled token = h.tokenCancelled token := by
  have same {g : Hub} (hg : g.cancelledTokens = h.cancelledTokens) :
      g.tokenCancelled token = h.tokenCancelled token := by
    rw [tokenCancelled, hg, tokenCancelled]
  cases h.segment_cases t with
  | waits hadv he => rw [he]
  | goesOn task task' g ht hm hf he =>
    rw [he]
    exact same (congrArg Frame.tokens hf)
  | ends task g o ht hm hf he =>
    rw [he]
    exact same (congrArg Frame.tokens hf)

/-! ## Complete requests -/

section

variable (hn : h.IsNew) {past : List Action} (hq : (h.after past).book.requests[id]? = some r)
  (hc : r.complete = true)
include hn hq hc

theorem complete_after (later : List Action) :
    ∃ r', (h.after (later ++ past)).book.requests[id]? = some r' ∧ r'.complete = true ∧
      r'.cancelled = false ∧ r'.senderOpen = false ∧ r'.channel.placed = r.channel.placed := by
  have hkept := Hub.keep (P := fun s => s.Completed id r.channel.placed) hn ⟨r, hq, hc, rfl⟩
    (fun hr hc => hr.completed hc) later
  obtain ⟨r', hq', hc', hplaced⟩ := hkept
  have hsound := (Reached.after hn (later ++ past)).sound.request id r' hq'
  exact ⟨r', hq', hc', hsound.cancelled_of_complete hc', hsound.sender_of_complete hc', hplaced⟩

/-- What was given out and what is left of a complete request are the same members at all times. -/
theorem yielded_append_unread (later : List Action) :
    ∃ r', (h.after (later ++ past)).book.requests[id]? = some r' ∧
      yielded (h.journal (later ++ past)) id ++ r'.channel.unread =
        yielded (h.journal past) id ++ r.channel.unread := by
  obtain ⟨r', hq', -, -, -, hplaced⟩ := complete_after hn hq hc later
  have hread := (Reached.after hn past).read_eq hq
  have hread' := (Reached.after hn (later ++ past)).read_eq hq'
  refine ⟨r', hq', ?_⟩
  simpa [Channel.placed, hread, hread'] using hplaced

theorem unread_of_others {t' : TaskId} (hs : (h.after past).scene.stream? t = some id)
    (hne : t' ≠ t) : ∃ r', (h.after (.segment t' :: past)).book.requests[id]? = some r' ∧
      r'.complete = true ∧ r'.channel.unread = r.channel.unread := by
  obtain ⟨r', hq', hc', -⟩ := complete_after hn hq hc [.segment t']
  obtain ⟨r₁, h1, hall⟩ := yielded_append_unread hn hq hc [.segment t']
  cases hq'.symm.trans h1
  refine ⟨r', hq', hc', ?_⟩
  have hjournal : h.journal ([.segment t'] ++ past) =
      h.journal past ++ (h.after past).occurrences (.segment t') := rfl
  rw [hjournal, yielded_append, yielded_of_others hn hs hne, List.append_nil] at hall
  exact List.append_cancel_left hall

end

/-- A task reads a complete request to its end, and `ms` is what it will have gathered; or it has ended
with just that. -/
inductive Gathers (x : Gatherer) (id : RequestId) (ms : List Member) (t : TaskId) (h : Hub) : Prop
  | reads {got : List Member} {r : Request} (ht : h.task? t = some (x.task id got))
      (hx : h.tokenCancelled x.token = false) (hq : h.book.requests[id]? = some r)
      (hc : r.complete = true) (hms : got.reverse ++ r.channel.unread = ms)
  | ended (ht : h.task? t = none) (ho : (t, x.finish ms) ∈ h.finished)

theorem Gathers.segment (hn : h.IsNew) {past : List Action} {ms : List Member}
    (hg : (h.after past).Gathers x id ms t) (t' : TaskId) :
    (h.after (.segment t' :: past)).Gathers x id ms t := by
  cases hg with
  | ended ht ho => exact .ended (gone_segment ht t') (mem_finished_perform ho (.segment t'))
  | @reads got r ht hx hq hc hms =>
    have hsound := (Reached.after hn past).sound.request id r hq
    have hlive := hsound.cancelled_of_complete hc
    have hx' := (tokenCancelled_segment (h.after past) t' x.token).trans hx
    by_cases e : t = t'
    · subst e
      -- The task moves, since it finds a member or the end.
      cases hu : r.channel.unread with
      | nil =>
        have hnext := advance_gatherer_ended (t := t) got hx hq hlive hu
          (hsound.sender_of_complete hc)
        rw [hu, List.append_nil] at hms
        subst hms
        rw [after_segment (advance_of_done ht hnext)]
        exact .ended (task?_setTask_self ht rfl none) Array.mem_push_self
      | cons m rest =>
        have hnext := advance_gatherer_member (t := t) got hx hq hlive hu
        rw [after_segment (advance_of_moved ht hnext)]
        have hself := (Book.replaces_modify hq Request.afterReading).self
        refine .reads (task?_setTask_self ht rfl _) hx hself ?_ ?_
        · exact (Request.kept_afterReading r).complete.trans hc
        · rw [← hms, hu]
          simp [Request.afterReading, hlive, Channel.take, hu]
    · have hstream : (h.after past).scene.stream? t = some id :=
        (Scene.stream?_of_task ht).trans (x.stream?_task id got)
      obtain ⟨r', hq', hc', hu⟩ := unread_of_others hn hq hc hstream (Ne.symm e)
      exact .reads ((task?_segment e).trans ht) hx' hq' hc' (hu ▸ hms)

theorem Gathers.segments (hn : h.IsNew) {past : List Action} {ms : List Member}
    (hg : (h.after past).Gathers x id ms t) (ts : List TaskId) :
    (h.after (ts.map .segment ++ past)).Gathers x id ms t := by
  induction ts with
  | nil => exact hg
  | cons t' ts ih => exact ih.segment hn t'

/-- A task that reads a complete request to its end can move until it has ended. -/
theorem Gathers.ended_of_stuck (hn : h.IsNew) {past : List Action} {ms : List Member}
    (hg : (h.after past).Gathers x id ms t) (hstuck : (h.after past).advance t = none) :
    (h.after past).task? t = none ∧ (t, x.finish ms) ∈ (h.after past).finished := by
  cases hg with
  | ended ht ho => exact ⟨ht, ho⟩
  | @reads got r ht hx hq hc =>
    have hsound := (Reached.after hn past).sound.request id r hq
    have hlive := hsound.cancelled_of_complete hc
    have hblocked := blocked_of_stuck hstuck ht
    cases hu : r.channel.unread with
    | nil =>
      rw [advance_gatherer_ended got hx hq hlive hu (hsound.sender_of_complete hc)] at hblocked
      cases hblocked
    | cons m rest =>
      rw [advance_gatherer_member got hx hq hlive hu] at hblocked
      cases hblocked

theorem Gathers.ended_of_quiet (hn : h.IsNew) {past : List Action} {ms : List Member}
    (hg : (h.after past).Gathers x id ms t) (hrest : (h.after past).Quiet) :
    (h.after past).task? t = none ∧ (t, x.finish ms) ∈ (h.after past).finished :=
  hg.ended_of_stuck hn (hrest t)

end Hub

/-- **Nothing after cancellation, everything after completion.** Once a request is cancelled it stays
so: nothing more is given out of it or placed in its channel, it is never complete, and the call that
made it does not end with members. Once a request is complete it stays so, and is never cancelled:
what is left in its channel is given out one by one, or all at once, before the end; and a task that
reads its stream to the end gets all of it, unless the token of the task is cancelled. -/
theorem ended_for_good {h : Hub} (hn : h.IsNew) (past : List Action) (id : RequestId) :
    ((h.after past).isCancelled id = true →
      ∃ r, (h.after past).book.requests[id]? = some r ∧ ∀ later,
        (h.after (later ++ past)).isCancelled id = true ∧
        yielded (h.journal (later ++ past)) id = yielded (h.journal past) id ∧
        ((h.after (later ++ past)).recv id).1 = .ended ∧
        ((h.after (later ++ past)).recvAll id).1 = [] ∧
        (∃ r', (h.after (later ++ past)).book.requests[id]? = some r' ∧ r'.complete = false ∧
          r'.channel.placed = r.channel.placed) ∧
        ∀ t, .made t id ∈ h.journal (later ++ past) →
          ∀ ms, (t, .members ms) ∉ (h.after (later ++ past)).finished) ∧
    ∀ r, (h.after past).book.requests[id]? = some r → r.complete = true →
      (∀ later, (h.after (later ++ past)).isCancelled id = false ∧
        ∃ r', (h.after (later ++ past)).book.requests[id]? = some r' ∧ r'.complete = true ∧
          yielded (h.journal (later ++ past)) id ++ r'.channel.unread =
            yielded (h.journal past) id ++ r.channel.unread ∧
          ((h.after (later ++ past)).recv id).1 =
            (r'.channel.unread.head?).elim .ended .member ∧
          ((h.after (later ++ past)).recvAll id).1 = r'.channel.unread ∧
          ((h.after (later ++ past)).recvAll id).2.1 = .ended) ∧
      ∀ t (x : Gatherer) got, (h.after past).task? t = some (x.task id got) →
        (h.after past).tokenCancelled x.token = false →
        (h.after past).Settles fun g => g.task? t = none ∧
          (t, x.finish (got.reverse ++ r.channel.unread)) ∈ g.finished := by
  refine ⟨fun hcancelled => ?_, fun r hq hc => ⟨fun later => ?_, fun t x got ht hx => ?_⟩⟩
  · obtain ⟨r, hq, hc⟩ := Book.exists_of_isCancelled hcancelled
    refine ⟨r, hq, fun later => ?_⟩
    have hkept := Hub.keep (P := fun s => s.Barren id r.channel.placed r.channel.read) hn
      ⟨r, hq, hc, rfl, rfl⟩ (fun hr hb => hr.barren hb) later
    obtain ⟨r', hq', hc', hplaced, hread⟩ := hkept
    have hreach := Reached.after hn (later ++ past)
    have hincomplete : r'.complete = false := by
      by_contra hcomp
      exact (hreach.sound.request id r' hq').not_both ⟨by simpa using hcomp, hc'⟩
    refine ⟨(Book.isCancelled_eq hq').trans hc', ?_, Book.recv_of_cancelled hq' hc',
      (Book.recvAll_of_cancelled hq' hc').1, ⟨r', hq', hincomplete, hplaced⟩,
      fun t hmade ms hm => ?_⟩
    · rw [hreach.read_eq hq', (Reached.after hn past).read_eq hq] at hread
      exact List.reverse_injective hread
    · obtain ⟨i, hmade', r₁, h1, hcomp, -⟩ := Hub.completed_of_members hn hm
      obtain rfl := hreach.made_unique hmade hmade'
      cases hq'.symm.trans h1
      rw [hincomplete] at hcomp
      cases hcomp
  · obtain ⟨r', hq', hc', hlive, hclosed, -⟩ := Hub.complete_after hn hq hc later
    obtain ⟨r₁, h1, hall⟩ := Hub.yielded_append_unread hn hq hc later
    cases hq'.symm.trans h1
    have hleft := Book.recvAll_of_closed hq' hlive hclosed
    exact ⟨(Book.isCancelled_eq hq').trans hlive, r', hq', hc', hall,
      Book.recv_of_closed hq' hlive hclosed, hleft.1, hleft.2⟩
  · have hgathers : (h.after past).Gathers x id (got.reverse ++ r.channel.unread) t :=
      .reads ht hx hq hc rfl
    exact Hub.settles fun ts hrest => (hgathers.segments hn ts).ended_of_quiet hn hrest

def oneLeft : List Action :=
  [.segment 1, .segment 1, .dispatch (.chunk (.sample [.sample "a"])), .segment 0,
    .callStream (.all ⟨1⟩)]

def cutShort : List Action :=
  [.cancel 0, .segment 1, .dispatch (.chunk (.sample [.sample "a", .sample "b"])), .segment 0,
    .callStream (.all ⟨1⟩)]

theorem oneLeft_given_out :
    (Hub.sample .accept).IsNew ∧
      (((Hub.sample .accept).after (.shutdown :: .cancel 0 :: oneLeft)).recvAll 0).1 =
        [.sample "a"] ∧
      (((Hub.sample .accept).after (.segment 1 :: .segment 1 :: cutShort)).recvAll 0).1 = [] := by
  have hn := Hub.sample_isNew .accept
  have hcomplete := (ended_for_good hn oneLeft 0).2 _ rfl rfl
  obtain ⟨-, r, hq, -, -, -, hleft, -⟩ := hcomplete.1 [.shutdown, .cancel 0]
  obtain ⟨r', -, hbarren⟩ := (ended_for_good hn cutShort 0).1 rfl
  refine ⟨hn, ?_, (hbarren [.segment 1, .segment 1]).2.2.2.1⟩
  cases hq
  exact hleft

end Rollcall
